import QueryPlanner.Proofs.CacheKey.Agreement
import QueryPlanner.Proofs.CacheKey.Written

/-!
# The text of a cache key determines the key

Two keys have one text just if they agree node by node, floats being compared by their words and
all that is no finite number counting as one.

* `KeyNode.render_eq_iff` — when two floats are spelled alike
* `KeyNode.valueText_eq_iff`, `KeyNode.text_eq_iff` — one text, up to the spelling of floats
* `CacheKey.text?_eq_iff` — the same for whole keys, and what follows for keys of finite floats
-/

namespace QueryPlanner

namespace KeyNode

/-! ### Numbers -/

theorem isMark_numeral {c : Char} (h : Text.isNumeral c = true) : isMark c = false := by
  refine Bool.eq_false_iff.mpr fun hmark => ?_
  simp only [isMark, Bool.or_eq_true, beq_iff_eq] at hmark
  rcases hmark with ((((rfl | rfl) | rfl) | rfl) | rfl) | rfl <;> revert h <;> decide

theorem written_numeral {text : String} (hne : text.toList ≠ []) (h : Text.Numeral text) :
    Written text.toList :=
  .word hne fun c hc => isMark_numeral (List.all_eq_true.mp h c hc)

theorem toString_int_inj {i j : ℤ} : (toString i).toList = (toString j).toList ↔ i = j := by
  constructor
  · intro h
    have hi := Text.readExponent_toString false i
    have hj := Text.readExponent_toString false j
    simp only [Bool.false_and, Bool.false_eq_true, if_false, String.empty_append] at hi hj
    rw [h, hj] at hi
    exact (Option.some.inj hi).symm
  · rintro rfl
    rfl

theorem toString_byte_inj {b b' : UInt8} :
    (toString b.toNat).toList = (toString b'.toNat).toList ↔ b = b' :=
  Text.toList_toString_inj.trans UInt8.toNat_inj

theorem toList_toString_int_ne (i : ℤ) : (toString i).toList ≠ [] := by
  rw [Int.toString_eq_repr, Int.repr_eq_if]
  split
  · rw [Nat.toList_repr]
    exact Nat.toDigits_ne_nil
  · simp

theorem render_of_not_finite {x : Binary64} (hx : ¬ x.Finite) : x.render floatLayout = "null" := by
  unfold Binary64.render
  by_cases hnan : x.isNaN = true
  · rw [if_pos hnan]
    rfl
  · have hinfinite : x.isInfinite = true := by
      refine decide_eq_true (Nat.le_antisymm ?_ (Nat.le_of_not_lt hx))
      exact Nat.le_of_not_lt fun h => hnan (decide_eq_true h)
    rw [if_neg hnan, if_pos hinfinite]
    split <;> rfl

/-- The text of a finite number is not the word for what is none, and is not empty. -/
theorem render_ne {x : Binary64} (hx : x.Finite) {text : String}
    (h : Text.readDecimal (Text.splitSign text.toList).2 = none) : x.render floatLayout ≠ text := by
  rintro rfl
  obtain ⟨cs, d, hsign, hread, -⟩ := Binary64.splitSign_render floatLayout hx
  rw [hsign, hread] at h
  cases h

/-- **Numbers are spelled alike** if they are one number, or neither of them is finite. -/
theorem render_eq_iff {x y : Binary64} :
    (x.render floatLayout).toList = (y.render floatLayout).toList ↔ x.spelledAlike y = true := by
  rw [String.toList_inj]
  by_cases hx : x.Finite
  · rw [Binary64.spelledAlike_eq_sameWord hx, Binary64.sameWord, decide_eq_true_eq]
    constructor
    · intro h
      by_cases hy : y.Finite
      · exact Binary64.render_inj hx hy h
      · rw [render_of_not_finite hy] at h
        exact absurd h (render_ne hx rfl)
    · rintro rfl
      rfl
  · rw [render_of_not_finite hx]
    by_cases hy : y.Finite
    · have hne : x ≠ y := fun h => hx (h ▸ hy)
      have hrender : "null" ≠ y.render floatLayout := fun h => render_ne hy rfl h.symm
      simp [hrender, Binary64.spelledAlike, hne, hy]
    · simp [render_of_not_finite hy, Binary64.spelledAlike, hx, hy]

theorem written_render (x : Binary64) : Written (x.render floatLayout).toList := by
  by_cases hx : x.Finite
  · have hne : x.render floatLayout ≠ "" := render_ne hx rfl
    exact written_numeral (mt String.toList_eq_nil_iff.mp hne)
      (Binary64.numeral_render floatLayout hx)
  · rw [render_of_not_finite hx]
    exact .ofAll (by decide) (by decide)

/-! ### Values -/

theorem written_pair {a b : List Char} (ha : Written a) (hb : Written b) :
    ∀ text ∈ [a, b], Written text := by
  simp [ha, hb]

theorem written_bytes (bytes : List UInt8) :
    ∀ text ∈ bytes.map fun b => (toString b.toNat).toList, Written text := by
  intro text h
  obtain ⟨b, -, rfl⟩ := List.mem_map.mp h
  exact written_numeral (toList_toString_int_ne b.toNat) (Text.numeral_toString b.toNat)

mutual

theorem written_valueText : ∀ v : Value, Written (valueText v)
  | .null => .string "Null"
  | .bool b => by
    refine .object "Bool" (.ofAll ?_ ?_) <;> cases b <;> decide
  | .int i => .object "Int" (written_numeral (toList_toString_int_ne i) (Text.numeral_toString i))
  | .float x => .object "Float" (written_render x)
  | .string s => .object "String" (.string s)
  | .list items => .object "List" (.array (written_valueTexts items))
  | .map entries => .object "Map" (.array (written_entryTexts entries))
  | .binary bytes => .object "Binary" (.array (written_bytes bytes))

theorem written_valueTexts : ∀ vs : List Value, ∀ text ∈ valueTexts vs, Written text
  | [], _, h => by cases h
  | v :: vs, text, h => by
    rcases List.mem_cons.mp h with rfl | h
    · exact written_valueText v
    · exact written_valueTexts vs text h

theorem written_entryTexts : ∀ es : List (String × Value), ∀ text ∈ entryTexts es, Written text
  | [], _, h => by cases h
  | (k, v) :: es, text, h => by
    rcases List.mem_cons.mp h with rfl | h
    · exact .array (written_pair (.string k) (written_valueText v))
    · exact written_entryTexts es text h

end

theorem quoted_ne_object {s name : String} {text : List Char} : quoted s ≠ object name text :=
  fun h => absurd (List.cons.inj h).1 (by decide)

theorem entry_inj {k l : String} {v w : Value} :
    array [quoted k, valueText v] = array [quoted l, valueText w] ↔
      k = l ∧ valueText v = valueText w := by
  rw [array_inj (written_pair (.string k) (written_valueText v))
    (written_pair (.string l) (written_valueText w))]
  simp [quoted_inj]

theorem array_bytes_inj {bytes bytes' : List UInt8} :
    array (bytes.map fun b => (toString b.toNat).toList) =
      array (bytes'.map fun b => (toString b.toNat).toList) ↔ bytes = bytes' := by
  rw [array_inj (written_bytes bytes) (written_bytes bytes')]
  exact List.map_inj_right fun _ _ => toString_byte_inj.mp

mutual

/-- The text of a value determines it up to the spelling of its floats. -/
theorem valueText_eq_iff : ∀ v w : Value,
    valueText v = valueText w ↔ v.agrees Binary64.spelledAlike w = true
  | .null, w => by
    cases w <;> simp [valueText, Value.agrees, quoted_ne_object]
  | .bool b, w => by
    cases w with
    | bool b' => cases b <;> cases b' <;> simp [valueText, Value.agrees, object_inj]
    | _ => simp [valueText, Value.agrees, object_inj, quoted_ne_object.symm]
  | .int i, w => by
    cases w with
    | int j =>
      simp only [valueText, Value.agrees, object_inj, toString_int_inj, true_and, beq_iff_eq]
    | _ => simp [valueText, Value.agrees, object_inj, quoted_ne_object.symm]
  | .float x, w => by
    cases w <;> simp [valueText, Value.agrees, object_inj, quoted_ne_object.symm, render_eq_iff]
  | .string s, w => by
    cases w <;> simp [valueText, Value.agrees, object_inj, quoted_ne_object.symm, quoted_inj]
  | .list items, w => by
    cases w with
    | list items' =>
      simp [valueText, Value.agrees, object_inj,
        array_inj (written_valueTexts items) (written_valueTexts items'),
        valueTexts_eq_iff items items']
    | _ => simp [valueText, Value.agrees, object_inj, quoted_ne_object.symm]
  | .map entries, w => by
    cases w with
    | map entries' =>
      simp [valueText, Value.agrees, object_inj,
        array_inj (written_entryTexts entries) (written_entryTexts entries'),
        entryTexts_eq_iff entries entries']
    | _ => simp [valueText, Value.agrees, object_inj, quoted_ne_object.symm]
  | .binary bytes, w => by
    cases w with
    | binary bytes' =>
      simp only [valueText, Value.agrees, object_inj, array_bytes_inj, true_and, beq_iff_eq]
    | _ => simp [valueText, Value.agrees, object_inj, quoted_ne_object.symm]

theorem valueTexts_eq_iff : ∀ vs ws : List Value,
    valueTexts vs = valueTexts ws ↔ Value.agreesItems Binary64.spelledAlike vs ws = true
  | [], ws => by cases ws <;> simp [valueTexts, Value.agreesItems]
  | v :: vs, ws => by
    cases ws <;>
      simp [valueTexts, Value.agreesItems, valueText_eq_iff v, valueTexts_eq_iff vs]

theorem entryTexts_eq_iff : ∀ es fs : List (String × Value),
    entryTexts es = entryTexts fs ↔ Value.agreesEntries Binary64.spelledAlike es fs = true
  | [], fs => by cases fs <;> simp [entryTexts, Value.agreesEntries]
  | (k, v) :: es, fs => by
    cases fs <;>
      simp [entryTexts, Value.agreesEntries, entry_inj, valueText_eq_iff v, entryTexts_eq_iff es]

end

/-! ### Keys -/

mutual

theorem written_text : ∀ k : KeyNode, Written k.text
  | atom s => .object "atom" (.string s)
  | value v => .object "value" (written_valueText v)
  | param => .string "param"
  | list children => .object "list" (.array (written_texts children))
  | tagged tag children =>
    .object "tagged" (.array (written_pair (.string tag) (.array (written_texts children))))

theorem written_texts : ∀ ks : List KeyNode, ∀ text ∈ texts ks, Written text
  | [], _, h => by cases h
  | k :: ks, text, h => by
    rcases List.mem_cons.mp h with rfl | h
    · exact written_text k
    · exact written_texts ks text h

end

theorem array_texts_inj {ks ls : List KeyNode} :
    array (texts ks) = array (texts ls) ↔ texts ks = texts ls :=
  array_inj (written_texts ks) (written_texts ls)

theorem tagged_inj {tag tag' : String} {ks ls : List KeyNode} :
    array [quoted tag, array (texts ks)] = array [quoted tag', array (texts ls)] ↔
      tag = tag' ∧ texts ks = texts ls := by
  rw [array_inj (written_pair (.string tag) (.array (written_texts ks)))
    (written_pair (.string tag') (.array (written_texts ls)))]
  simp [quoted_inj, array_texts_inj]

mutual

/-- The text of a node determines it up to the spelling of its floats. -/
theorem text_eq_iff : ∀ k l : KeyNode,
    k.text = l.text ↔ k.agrees Binary64.spelledAlike l = true
  | atom s, l => by
    cases l <;> simp [text, agrees, object_inj, quoted_ne_object.symm, quoted_inj]
  | value v, l => by
    cases l <;> simp [text, agrees, object_inj, quoted_ne_object.symm, valueText_eq_iff v]
  | param, l => by
    cases l <;> simp [text, agrees, quoted_ne_object]
  | list children, l => by
    cases l <;> simp [text, agrees, object_inj, quoted_ne_object.symm, array_texts_inj,
      texts_eq_iff children]
  | tagged tag children, l => by
    cases l <;> simp [text, agrees, object_inj, quoted_ne_object.symm, tagged_inj,
      texts_eq_iff children]

theorem texts_eq_iff : ∀ ks ls : List KeyNode,
    texts ks = texts ls ↔ agreesAll Binary64.spelledAlike ks ls = true
  | [], ls => by cases ls <;> simp [texts, agreesAll]
  | k :: ks, ls => by
    cases ls <;> simp [texts, agreesAll, text_eq_iff k, texts_eq_iff ks]

end

end KeyNode

namespace CacheKey

theorem text?_key_eq_iff {ks ls : List KeyNode} : (key ks).text? = (key ls).text? ↔
    KeyNode.agreesAll Binary64.spelledAlike ks ls = true := by
  rw [← KeyNode.texts_eq_iff, ← KeyNode.array_texts_inj]
  simp only [text?, Option.some.injEq, String.ofList_inj]
  rfl

/-- **Two keys have one text if and only if they agree node by node**, floats being compared by
their words and all that is no finite number counting as one.  So a key of finite floats shares its
text with no other key; and if negative zero does not occur either, numerical equality of the keys
is equality of their texts. -/
theorem text?_eq_iff (ks ls : List KeyNode) :
    ((key ks).text? = (key ls).text? ↔
      KeyNode.agreesAll Binary64.spelledAlike ks ls = true) ∧
    ((∀ x ∈ KeyNode.floatsAll ks, x.Finite) →
      ((key ks).text? = (key ls).text? ↔ key ks = key ls)) ∧
    ((∀ x ∈ KeyNode.floatsAll ks ++ KeyNode.floatsAll ls, x.Finite ∧ x ≠ Binary64.zero.neg) →
      ((key ks).text? = (key ls).text? ↔ KeyNode.agreesAll Binary64.equal ks ls = true)) := by
  refine ⟨text?_key_eq_iff, fun hfinite => ?_, fun hplain => ?_⟩
  · rw [text?_key_eq_iff, key.injEq, ← KeyNode.agreesAll_words]
    rw [KeyNode.agreesAll_congr ks ls fun x hx y _ =>
      Binary64.spelledAlike_eq_sameWord (hfinite x hx)]
  · obtain ⟨hks, hls⟩ := List.forall_mem_append.mp hplain
    rw [text?_key_eq_iff]
    rw [KeyNode.agreesAll_congr ks ls fun x hx y hy =>
      (Binary64.spelledAlike_eq_sameWord (hks x hx).1).trans
        (Binary64.equal_eq_sameWord (hks x hx) (hls y hy)).symm]

/-- Marks inside a string do not pass for marks of the text around it, and the least positive number
is not written like zero. -/
theorem text?_ne_of_marks :
    ((∀ x ∈ KeyNode.floatsAll [.atom "a", .value (.float .zero)], x.Finite) ∧
      (key [.atom "a", .value (.float .zero)]).text? ≠
        (key [.atom "a\"\x7d,\x7b\"value\":\x7b\"Float\":0.0\x7d\x7d"]).text?) ∧
    ((∀ x ∈ KeyNode.floatsAll [.value (.float .zero)] ++
        KeyNode.floatsAll [.value (.float (.ofMagnitude false 1))],
        x.Finite ∧ x ≠ Binary64.zero.neg) ∧
      (key [.value (.float .zero)]).text? ≠
        (key [.value (.float (.ofMagnitude false 1))]).text?) :=
  ⟨⟨by decide, fun h => absurd (((text?_eq_iff _ _).2.1 (by decide)).mp h) (by decide)⟩,
    by decide, fun h => absurd (((text?_eq_iff _ _).2.2 (by decide)).mp h) (by decide)⟩

/-- Keys that differ in the sign of an infinity have one text, and keys that differ in the sign of
a zero have two, though the numbers are equal. -/
theorem infinities_share_text :
    ((key [.value (.float .infinity)]).text? = (key [.value (.float Binary64.infinity.neg)]).text? ∧
      key [.value (.float .infinity)] ≠ key [.value (.float Binary64.infinity.neg)] ∧
      KeyNode.agreesAll Binary64.equal [.value (.float .infinity)]
        [.value (.float Binary64.infinity.neg)] = false) ∧
    ((key [.value (.float .zero)]).text? ≠ (key [.value (.float Binary64.zero.neg)]).text? ∧
      KeyNode.agreesAll Binary64.equal [.value (.float .zero)]
        [.value (.float Binary64.zero.neg)] = true) := by
  refine ⟨⟨?_, ?_, ?_⟩, ?_, ?_⟩ <;> decide +kernel

end CacheKey

end QueryPlanner
