import Mathlib.Tactic.SplitIfs
import QueryPlanner.CacheKey.Text
import QueryPlanner.Json.Quoted
import QueryPlanner.Proofs.Text.Runs

/-!
# Where the texts of keys end

The text of a key nests strings, arrays and objects of one key.  Strings are escaped so that they
read back, and every text ends where it ends whatever comes after it, so the texts of the parts
can be told from the text of the whole.

* `KeyNode.readChar_escape` — an escaped character reads back as itself
* `KeyNode.Written` — the texts of which keys are made
* `KeyNode.Written.delimited` — no such text can be taken for another
* `KeyNode.quoted_inj`, `KeyNode.object_inj`, `KeyNode.array_inj` — the parts of a text
-/

namespace QueryPlanner

namespace KeyNode

/-! ### Strings -/

theorem charOfCode?_toNat (c : Char) : Text.charOfCode? c.toNat = some c := by
  unfold Text.charOfCode?
  rw [dif_pos (show c.toNat.isValidChar from c.valid)]
  rfl

/-- Every control character is read back from the two digits it is written with. -/
theorem ofHex?_control : ∀ n < 32,
    Text.ofHex? ['0', '0', Nat.digitChar (n / 16), Nat.digitChar (n % 16)] = some n := by
  decide

/-- An escaped character reads back. -/
theorem readChar_escape (c : Char) (rest : List Char) :
    Json.readChar (escape c ++ rest) = some (c, rest) := by
  unfold escape
  split_ifs with hquote hbackslash hback htab hnewline hfeed hreturn hcontrol
  · subst hquote
    rfl
  · subst hbackslash
    rfl
  · subst hback
    rfl
  · subst htab
    rfl
  · subst hnewline
    rfl
  · subst hfeed
    rfl
  · subst hreturn
    rfl
  · have hunit := ofHex?_control c.toNat hcontrol
    have hlength : ¬ rest.length + 1 + 1 + 1 + 1 < 4 := by omega
    simp [Json.readChar, Json.readEscape, Json.readCodePoint, Json.readUnit, hunit, hlength,
      charOfCode?_toNat]
  · simp only [List.singleton_append]
    unfold Json.readChar
    split
    · next heq => exact absurd (List.cons.inj heq).1 hbackslash
    · next heq =>
      obtain ⟨rfl, rfl⟩ := List.cons.inj heq
      rw [if_neg hcontrol]
    · next heq => cases heq

/-- An escaped character never starts with the quote that ends a string. -/
theorem escape_append_ne_quote (c : Char) (rest rest' : List Char) :
    escape c ++ rest ≠ '"' :: rest' := by
  unfold escape
  split_ifs with hquote <;> simp [hquote]

/-- The end of a string is its first quote that is not escaped. -/
theorem flatMap_escape_inj {cs ds s t : List Char}
    (h : cs.flatMap escape ++ '"' :: s = ds.flatMap escape ++ '"' :: t) : cs = ds ∧ s = t := by
  induction cs generalizing ds with
  | nil =>
    cases ds with
    | nil => exact ⟨rfl, (List.cons.inj h).2⟩
    | cons d ds =>
      rw [List.flatMap_cons, List.append_assoc] at h
      exact absurd h.symm (escape_append_ne_quote d _ s)
  | cons c cs ih =>
    rw [List.flatMap_cons, List.append_assoc] at h
    cases ds with
    | nil => exact absurd h (escape_append_ne_quote c _ t)
    | cons d ds =>
      rw [List.flatMap_cons, List.append_assoc] at h
      have hread := congrArg Json.readChar h
      rw [readChar_escape, readChar_escape, Option.some.injEq, Prod.mk.injEq] at hread
      obtain ⟨rfl, hrest⟩ := hread
      obtain ⟨rfl, rfl⟩ := ih hrest
      exact ⟨rfl, rfl⟩

/-- A quoted string ends where it ends, and determines the string. -/
theorem quoted_append_inj {a b : String} {s t : List Char}
    (h : quoted a ++ s = quoted b ++ t) : a = b ∧ s = t := by
  simp only [quoted, List.cons_append, List.append_assoc, List.nil_append, List.cons.injEq,
    true_and] at h
  obtain ⟨hlist, hrest⟩ := flatMap_escape_inj h
  exact ⟨String.toList_inj.mp hlist, hrest⟩

theorem quoted_inj {a b : String} : quoted a = quoted b ↔ a = b := by
  constructor
  · intro h
    exact (quoted_append_inj (congrArg (· ++ []) h)).1
  · exact congrArg quoted

/-- An object with one key determines the key and the text of its value. -/
theorem object_inj {a b : String} {s t : List Char} :
    object a s = object b t ↔ a = b ∧ s = t := by
  constructor
  · intro h
    obtain ⟨hname, hrest⟩ := quoted_append_inj (List.cons.inj h).2
    exact ⟨hname, List.append_cancel_right (List.cons.inj hrest).2⟩
  · rintro ⟨rfl, rfl⟩
    rfl

/-! ### Where a text ends -/

/-- The characters between which the parts of a text stand. -/
def isMark (c : Char) : Bool :=
  c == '"' || c == '[' || c == ']' || c == '\x7b' || c == '\x7d' || c == ','

/-- The texts of which keys are made. -/
inductive Written : List Char → Prop
  | word {cs : List Char} (hne : cs ≠ []) (h : ∀ c ∈ cs, isMark c = false) : Written cs
  | string (s : String) : Written (quoted s)
  | array {texts : List (List Char)} (h : ∀ text ∈ texts, Written text) : Written (array texts)
  | object (name : String) {text : List Char} (h : Written text) : Written (object name text)

/-- A word that can be run through for marks. -/
theorem Written.ofAll {cs : List Char} (hne : cs ≠ []) (h : cs.all (!isMark ·) = true) :
    Written cs :=
  .word hne (by simpa using h)

/-- What may come after a text: a comma or a closing bracket. -/
def Closes (s : List Char) : Prop := ∃ c rest, s = c :: rest ∧ c ∈ [',', ']', '\x7d']

/-- What follows an item of an array: its end, or a comma and the other items. -/
def afterItem (s : List Char) : List (List Char) → List Char
  | [] => ']' :: s
  | text :: texts => ',' :: (commaSeparated (text :: texts) ++ ']' :: s)

variable {a b s t cs ds : List Char} {parts parts' : List (List Char)}

/-- A text that no other text can be taken for, whatever comes after either. -/
def Delimited (a : List Char) : Prop := ∀ b s t : List Char, Written b → Closes s → Closes t →
  a ++ s = b ++ t → a = b ∧ s = t

theorem array_append (parts : List (List Char)) (s : List Char) :
    array parts ++ s = '[' :: (commaSeparated parts ++ ']' :: s) := by
  simp [array]

theorem object_append (name : String) (text s : List Char) :
    object name text ++ s = '\x7b' :: (quoted name ++ ':' :: (text ++ '\x7d' :: s)) := by
  simp [object]

theorem commaSeparated_cons_append (a : List Char) (parts : List (List Char)) (s : List Char) :
    commaSeparated (a :: parts) ++ ']' :: s = a ++ afterItem s parts := by
  cases parts with
  | nil => rfl
  | cons text parts => exact List.append_assoc a _ _

theorem closes_afterItem (s : List Char) (parts : List (List Char)) :
    Closes (afterItem s parts) := by
  cases parts with
  | nil => exact ⟨']', s, rfl, by decide⟩
  | cons text parts => exact ⟨',', _, rfl, by decide⟩

theorem isMark_of_closes {c : Char} (h : Closes (c :: s)) : isMark c = true := by
  obtain ⟨c', rest, heq, hc⟩ := h
  obtain ⟨rfl, -⟩ := List.cons.inj heq
  simp only [List.mem_cons, List.not_mem_nil, or_false] at hc
  rcases hc with rfl | rfl | rfl <;> rfl

/-- A word ends at the first mark. -/
theorem word_append_inj (hcs : ∀ c ∈ cs, isMark c = false) (hds : ∀ c ∈ ds, isMark c = false)
    (hs : Closes s) (ht : Closes t) (h : cs ++ s = ds ++ t) : cs = ds ∧ s = t := by
  have hend : ∀ {s : List Char}, Closes s → ∀ c ∈ s.head?, (!isMark c) = false := by
    rintro _ ⟨c, rest, rfl, hc⟩ d hd
    obtain rfl := Option.some.inj hd
    simp [isMark_of_closes (s := rest) ⟨c, rest, rfl, hc⟩]
  exact Text.run_append_inj (p := fun c => !isMark c) (by simpa using hcs) (by simpa using hds)
    (hend hs) (hend ht) h

theorem word_append_ne (hne : cs ≠ []) (h : ∀ c ∈ cs, isMark c = false) {c : Char}
    (hc : isMark c = true) : cs ++ s ≠ c :: t := by
  obtain ⟨c', cs, rfl⟩ := List.exists_cons_of_ne_nil hne
  intro heq
  obtain ⟨rfl, -⟩ := List.cons.inj heq
  rw [h c' List.mem_cons_self] at hc
  cases hc

/-- No text starts with a closing bracket. -/
theorem Written.append_ne (ha : Written a) : a ++ s ≠ ']' :: t := by
  cases ha with
  | word hne h => exact word_append_ne hne h rfl
  | string name => exact fun h => absurd (List.cons.inj h).1 (by decide)
  | array h => exact fun h => absurd (List.cons.inj h).1 (by decide)
  | object name h => exact fun h => absurd (List.cons.inj h).1 (by decide)

/-- The items of an array are determined with what follows it, if each of them is. -/
theorem items_append_inj (hitem : ∀ a ∈ parts, Delimited a) (hparts : ∀ a ∈ parts, Written a)
    (hparts' : ∀ b ∈ parts', Written b)
    (h : commaSeparated parts ++ ']' :: s = commaSeparated parts' ++ ']' :: t) :
    parts = parts' ∧ s = t := by
  induction parts generalizing parts' with
  | nil =>
    cases parts' with
    | nil => exact ⟨rfl, (List.cons.inj h).2⟩
    | cons b parts' =>
      rw [commaSeparated_cons_append] at h
      exact absurd h.symm (hparts' b List.mem_cons_self).append_ne
  | cons a parts ih =>
    rw [commaSeparated_cons_append] at h
    cases parts' with
    | nil => exact absurd h (hparts a List.mem_cons_self).append_ne
    | cons b parts' =>
      rw [commaSeparated_cons_append] at h
      obtain ⟨rfl, hrest⟩ := hitem a List.mem_cons_self b _ _
        (hparts' b List.mem_cons_self) (closes_afterItem s parts) (closes_afterItem t parts') h
      have ih' := @ih parts' (fun x hx => hitem x (List.mem_cons_of_mem a hx))
        (fun x hx => hparts x (List.mem_cons_of_mem a hx))
        (fun x hx => hparts' x (List.mem_cons_of_mem a hx))
      cases parts with
      | nil =>
        cases parts' with
        | nil => exact ⟨rfl, (List.cons.inj hrest).2⟩
        | cons => exact absurd (List.cons.inj hrest).1 (by decide)
      | cons =>
        cases parts' with
        | nil => exact absurd (List.cons.inj hrest).1 (by decide)
        | cons =>
          obtain ⟨hsame, hend⟩ := ih' (List.cons.inj hrest).2
          exact ⟨congrArg (a :: ·) hsame, hend⟩

/-- **A text ends where it ends**: what follows it does not change where that is. -/
theorem Written.delimited (ha : Written a) : Delimited a := by
  induction ha with
  | word hne hplain =>
    intro b s t hb hs ht h
    cases hb with
    | word hne' hplain' => exact word_append_inj hplain hplain' hs ht h
    | string name => exact absurd h (word_append_ne hne hplain rfl)
    | array hitems => exact absurd h (word_append_ne hne hplain rfl)
    | object name htext => exact absurd h (word_append_ne hne hplain rfl)
  | string name =>
    intro b s t hb hs ht h
    cases hb with
    | word hne' hplain' => exact absurd h.symm (word_append_ne hne' hplain' rfl)
    | string name' =>
      obtain ⟨rfl, hrest⟩ := quoted_append_inj h
      exact ⟨rfl, hrest⟩
    | array hitems => exact absurd (List.cons.inj h).1 (by decide)
    | object name htext => exact absurd (List.cons.inj h).1 (by decide)
  | array hitems ih =>
    intro b s t hb hs ht h
    cases hb with
    | word hne' hplain' => exact absurd h.symm (word_append_ne hne' hplain' rfl)
    | string name' => exact absurd (List.cons.inj h).1 (by decide)
    | array hitems' =>
      rw [array_append, array_append] at h
      obtain ⟨rfl, hrest⟩ := items_append_inj ih hitems hitems' (List.cons.inj h).2
      exact ⟨rfl, hrest⟩
    | object name htext => exact absurd (List.cons.inj h).1 (by decide)
  | object name htext ih =>
    intro b s t hb hs ht h
    cases hb with
    | word hne' hplain' => exact absurd h.symm (word_append_ne hne' hplain' rfl)
    | string name' => exact absurd (List.cons.inj h).1 (by decide)
    | array hitems' => exact absurd (List.cons.inj h).1 (by decide)
    | object name' htext' =>
      rw [object_append, object_append] at h
      obtain ⟨rfl, hrest⟩ := quoted_append_inj (List.cons.inj h).2
      obtain ⟨rfl, hend⟩ := ih _ _ _ htext' ⟨_, _, rfl, by decide⟩ ⟨_, _, rfl, by decide⟩
        (List.cons.inj hrest).2
      exact ⟨rfl, (List.cons.inj hend).2⟩

/-- An array determines the texts of its items. -/
theorem array_inj (hparts : ∀ a ∈ parts, Written a) (hparts' : ∀ b ∈ parts', Written b) :
    array parts = array parts' ↔ parts = parts' := by
  constructor
  · intro h
    exact (items_append_inj (fun a ha => (hparts a ha).delimited) hparts hparts'
      (List.cons.inj h).2).1
  · exact congrArg array

end KeyNode

end QueryPlanner
