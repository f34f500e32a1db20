import QueryPlanner.Plan.Bindings

/-!
# Fragments and the texts they are made from

A fragment is made from a text whose question marks stand for expressions.  Where there is one
expression for each mark, the parts of the fragment tell the text and the expressions, and they are
the only parts that do: what stands between two marks is one piece of text, or none at all.

* `Part.toText` — the text that parts are shown as
* `Part.Separated` — pieces of text that are as long as they can be
* `Part.exists_separated`, `Part.Separated.ofText_toText` — there are such parts for a text, and
  they are those that are made from it
* `Part.ofText_determined` — fragments from texts, and the fragments of associations
-/

namespace QueryPlanner

namespace Part

/-- The text that parts are shown as, a question mark for each expression. -/
def toText (parts : List (Part Expr)) : String :=
  Expr.fragmentText (parts.map (Part.map Expr.render))

/-- No piece of text is empty, and no two of them stand side by side. -/
structure Separated (parts : List (Part Expr)) : Prop where
  nonempty : .raw "" ∉ parts
  apart : ∀ s t, ¬ [.raw s, .raw t] <:+: parts

theorem toText_raw (text : String) (parts : List (Part Expr)) :
    toText (.raw text :: parts) = text ++ toText parts := rfl

theorem toText_term (e : Expr) (parts : List (Part Expr)) :
    toText (.term e :: parts) = "?" ++ toText parts := rfl

/-! ### Pieces -/

theorem pieces_mark (cs : List Char) :
    pieces ('?' :: cs) = ([], (pieces cs).1 :: (pieces cs).2) := by
  simp [pieces]

/-- A run without marks belongs to the piece that comes next. -/
theorem pieces_append {run : List Char} (hrun : '?' ∉ run) (cs : List Char) :
    pieces (run ++ cs) = (run ++ (pieces cs).1, (pieces cs).2) := by
  induction run with
  | nil => rfl
  | cons c run ih =>
    have hc : c ≠ '?' := fun h => hrun (h ▸ List.mem_cons_self)
    rw [List.cons_append, pieces, ih fun h => hrun (List.mem_cons_of_mem c h)]
    simp [hc]

theorem ofText_term (text : String) (e : Expr) (arguments : List Expr) :
    ofText ("?" ++ text) (e :: arguments) = .term e :: ofText text arguments := by
  have hlist : ("?" ++ text).toList = '?' :: text.toList := String.toList_append
  simp only [ofText, hlist, pieces_mark, interleave]
  rfl

/-- A run without marks that goes on to the next mark or to the end is one piece. -/
theorem ofText_raw {run text : String} (hne : run ≠ "") (hrun : '?' ∉ run.toList)
    (hnext : text = "" ∨ ∃ rest, text = "?" ++ rest) (arguments : List Expr) :
    ofText (run ++ text) arguments = .raw run :: ofText text arguments := by
  have hfirst : (pieces text.toList).1 = [] := by
    rcases hnext with rfl | ⟨rest, rfl⟩
    · rfl
    · rw [String.toList_append]
      exact congrArg Prod.fst (pieces_mark rest.toList)
  have hpiece : (ofPiece run.toList : List (Part Expr)) = [.raw run] := by
    simp [ofPiece, hne]
  have hempty : (ofPiece [] : List (Part Expr)) = [] := rfl
  simp only [ofText, String.toList_append, pieces_append hrun, hfirst, List.append_nil, hpiece,
    hempty, List.nil_append, List.singleton_append]

/-! ### Separated parts -/

namespace Separated

variable {p : Part Expr} {parts : List (Part Expr)}

theorem nil : Separated [] := ⟨by simp, by simp⟩

theorem tail (h : Separated (p :: parts)) : Separated parts :=
  ⟨fun hmem => h.nonempty (List.mem_cons_of_mem p hmem),
    fun s t hinfix => h.apart s t (List.infix_cons hinfix)⟩

theorem term (h : Separated parts) (e : Expr) : Separated (.term e :: parts) := by
  refine ⟨fun hmem => ?_, fun s t hinfix => ?_⟩
  · rcases List.mem_cons.mp hmem with heq | hmem
    · cases heq
    · exact h.nonempty hmem
  · rcases List.infix_cons_iff.mp hinfix with hprefix | hinfix
    · cases (List.cons_prefix_cons.mp hprefix).1
    · exact h.apart s t hinfix

theorem raw {text : String} (hne : text ≠ "") (h : Separated parts)
    (hnext : ∀ t rest, parts ≠ .raw t :: rest) : Separated (.raw text :: parts) := by
  refine ⟨fun hmem => ?_, fun s t hinfix => ?_⟩
  · rcases List.mem_cons.mp hmem with heq | hmem
    · exact hne (Part.raw.inj heq).symm
    · exact h.nonempty hmem
  · rcases List.infix_cons_iff.mp hinfix with hprefix | hinfix
    · obtain ⟨rest, hrest⟩ := (List.cons_prefix_cons.mp hprefix).2
      exact hnext t rest hrest.symm
    · exact h.apart s t hinfix

theorem not_raw_raw {s t : String} (h : Separated (.raw s :: .raw t :: parts)) : False :=
  h.apart s t ⟨[], parts, rfl⟩

end Separated

/-- A character in front of separated parts is taken into the first piece. -/
theorem Separated.exists_cons {parts : List (Part Expr)} (h : Separated parts) (c : Char) :
    ∃ more, more.flatMap children = parts.flatMap children ∧
      (toText more).toList = c :: (toText parts).toList ∧ Separated more := by
  by_cases hfirst : ∃ t rest, parts = .raw t :: rest
  · obtain ⟨t, rest, rfl⟩ := hfirst
    refine ⟨.raw (String.singleton c ++ t) :: rest, rfl, ?_, ?_⟩
    · simp [toText_raw]
    · refine .raw (by simp [← String.toList_inj]) h.tail ?_
      rintro t' rest' rfl
      exact h.not_raw_raw
  · refine ⟨.raw (String.singleton c) :: parts, rfl, ?_, ?_⟩
    · simp [toText_raw]
    · refine .raw (by simp [← String.toList_inj]) h ?_
      exact fun t rest heq => hfirst ⟨t, rest, heq⟩

/-- A text with an expression for each of its marks can be cut into separated parts. -/
theorem exists_separated (cs : List Char) (arguments : List Expr)
    (h : cs.count '?' = arguments.length) :
    ∃ parts, parts.flatMap children = arguments ∧ (toText parts).toList = cs ∧ Separated parts := by
  induction cs generalizing arguments with
  | nil =>
    have hnil : arguments = [] := List.length_eq_zero_iff.mp h.symm
    exact ⟨[], hnil.symm, rfl, .nil⟩
  | cons c cs ih =>
    by_cases hc : c = '?'
    · subst hc
      rw [List.count_cons_self] at h
      obtain ⟨e, arguments, rfl⟩ := List.exists_cons_of_length_eq_add_one h.symm
      obtain ⟨parts, rfl, rfl, hparts⟩ := ih arguments (Nat.succ.inj h)
      exact ⟨.term e :: parts, rfl, by simp [toText_term], hparts.term e⟩
    · rw [List.count_cons_of_ne hc] at h
      obtain ⟨parts, rfl, rfl, hparts⟩ := ih arguments h
      exact hparts.exists_cons c

/-- The characters of a piece of text; an expression has none of its own. -/
def characters : Part Expr → List Char
  | .raw text => text.toList
  | .term _ => []

/-- Parts are shown with a mark for each expression, beside the marks in pieces of text. -/
theorem count_toText (parts : List (Part Expr)) :
    (toText parts).toList.count '?' =
      (parts.flatMap children).length + (parts.flatMap characters).count '?' := by
  induction parts with
  | nil => rfl
  | cons p parts ih =>
    rw [List.flatMap_cons, List.flatMap_cons, List.length_append, List.count_append]
    cases p with
    | raw text =>
      rw [toText_raw, String.toList_append, List.count_append, ih, children, characters,
        List.length_nil]
      omega
    | term e =>
      have hmark : "?".toList.count '?' = 1 := by decide
      rw [toText_term, String.toList_append, List.count_append, ih, hmark, children, characters,
        List.length_singleton, List.count_nil]
      omega

/-- With no more marks than expressions, no mark is left for the pieces of text. -/
theorem notMem_of_count_eq {parts : List (Part Expr)}
    (h : (toText parts).toList.count '?' = (parts.flatMap children).length) (text : String)
    (htext : .raw text ∈ parts) : '?' ∉ text.toList := by
  rw [count_toText, Nat.add_eq_left, List.count_eq_zero] at h
  exact fun hmark => h (List.mem_flatMap.mpr ⟨_, htext, hmark⟩)

/-- What separated parts are shown as goes on with a mark behind a piece of text, or ends. -/
theorem Separated.toText_next {s : String} {parts : List (Part Expr)}
    (h : Separated (.raw s :: parts)) : toText parts = "" ∨ ∃ rest, toText parts = "?" ++ rest := by
  cases parts with
  | nil => exact .inl rfl
  | cons p parts =>
    cases p with
    | raw t => exact h.not_raw_raw.elim
    | term e => exact .inr ⟨toText parts, rfl⟩

/-- Separated parts whose pieces hold no marks are made from the text that they are shown as. -/
theorem Separated.ofText_toText {parts : List (Part Expr)} (h : Separated parts)
    (hplain : ∀ text, .raw text ∈ parts → '?' ∉ text.toList) :
    ofText (toText parts) (parts.flatMap children) = parts := by
  induction parts with
  | nil => rfl
  | cons p parts ih =>
    have hrest := ih h.tail fun text htext => hplain text (List.mem_cons_of_mem p htext)
    cases p with
    | raw text =>
      have hne : text ≠ "" := fun heq => h.nonempty (heq ▸ List.mem_cons_self)
      rw [toText_raw, ofText_raw hne (hplain text List.mem_cons_self) h.toText_next]
      exact congrArg (.raw text :: ·) hrest
    | term e =>
      rw [toText_term]
      exact (ofText_term _ e _).trans (congrArg (.term e :: ·) hrest)

/-- The parts that are made from a text with an expression for each mark are the separated parts
with these expressions that are shown as this text. -/
theorem eq_ofText_iff {text : String} {arguments : List Expr}
    (h : Expr.markers text = arguments.length) (parts : List (Part Expr)) :
    parts = ofText text arguments ↔
      parts.flatMap children = arguments ∧ toText parts = text ∧ Separated parts := by
  -- Such parts exist and are made from the text that they are shown as, so nothing has to be known
  -- of the parts that are made from a text.
  have hmade : ∀ parts, parts.flatMap children = arguments → toText parts = text →
      Separated parts → ofText text arguments = parts := by
    rintro parts rfl rfl hparts
    exact hparts.ofText_toText (notMem_of_count_eq h)
  constructor
  · rintro rfl
    obtain ⟨parts, hchildren, htext, hparts⟩ := exists_separated text.toList arguments h
    have htext := String.toList_inj.mp htext
    rw [hmade parts hchildren htext hparts]
    exact ⟨hchildren, htext, hparts⟩
  · rintro ⟨hchildren, htext, hparts⟩
    exact (hmade parts hchildren htext hparts).symm

/-- **A fragment and what it is made from determine each other.**  Take a text and an expression for
each of its question marks.  The parts that are made of them hold the expressions in order, give the
text back when a question mark is read for each expression, and have no empty piece of text and no
two pieces side by side; and they are the only parts of which all this holds.  The fragment that an
association puts on a field has the field in it once for each question mark. -/
theorem ofText_determined (text : String) :
    (∀ arguments : List Expr, Expr.markers text = arguments.length → ∀ parts,
      parts = ofText text arguments ↔
        parts.flatMap children = arguments ∧ toText parts = text ∧ Separated parts) ∧
    ∀ ix field, ∃ parts,
      (AssociationFilter.mk field (.fragment text)).expr ix = .fragment parts ∧
      parts.flatMap children = List.replicate (text.toList.count '?') (.field ix field) ∧
      toText parts = text ∧ Separated parts := by
  refine ⟨fun arguments h => eq_ofText_iff h, fun ix field => ?_⟩
  have hcount : Expr.markers text =
      (List.replicate (text.toList.count '?') (Expr.field ix field)).length :=
    List.length_replicate.symm
  exact ⟨_, rfl, (eq_ofText_iff hcount _).mp rfl⟩

/-- Marks at both ends, and two without text between them. -/
theorem ofText_determined_doubled :
    let low : Expr := .field 0 "low"
    let high : Expr := .field 0 "high"
    let value : Expr := .pin (.int 7)
    let arguments := [value, low, high, value]
    Expr.markers "? in (??) or ?" = arguments.length ∧
      ofText "? in (??) or ?" arguments =
        [.term value, .raw " in (", .term low, .term high, .raw ") or ", .term value] := by
  intro low high value arguments
  have hcount : Expr.markers "? in (??) or ?" = arguments.length := by decide +kernel
  refine ⟨hcount, (((ofText_determined _).1 arguments hcount _).mpr ⟨rfl, ?_, ?_⟩).symm⟩
  · decide +kernel
  · refine .term (.raw (by simp) (.term (.term (.raw (by simp) (.term .nil value) ?_) high) low) ?_)
      value
    · simp
    · simp

end Part

end QueryPlanner
