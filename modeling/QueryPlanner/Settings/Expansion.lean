import QueryPlanner.Text.Letter

/-!
# Variables in a text

A dollar sign with a name, in braces or as long as it goes, stands for the value of a variable.

* `Settings.expand` — a text with the values of its variables in their place
* `Settings.expand_eq_self` — a text without a dollar sign stays as it is
-/

namespace QueryPlanner

namespace Settings

/-- The values of the variables that are set. -/
abbrev Environment := String → Option String

/-- A variable that is not set. -/
structure MissingVariable where
  name : String
  deriving DecidableEq, Repr

/-- The text of the error for a variable that is not set. -/
def MissingVariable.message (m : MissingVariable) : String :=
  "Missing environment variable: " ++ m.name

/-- A character of a name that stands without braces. -/
def isNameChar (c : Char) : Bool := Text.isAlphanumeric c || c = '_'

/-- The name after a dollar sign and the rest of the text.  A brace that is not closed takes all
that is left. -/
def splitName : List Char → List Char × List Char
  | '\x7b' :: cs => (cs.takeWhile (· != '\x7d'), (cs.dropWhile (· != '\x7d')).drop 1)
  | cs => (cs.takeWhile isNameChar, cs.dropWhile isNameChar)

/-- What is left after a name is no longer than what was there. -/
theorem length_splitName_le (cs : List Char) : (splitName cs).2.length ≤ cs.length := by
  unfold splitName
  split
  · next cs =>
    have h := (List.dropWhile_sublist (l := cs) (· != '\x7d')).length_le
    simp only [List.length_drop, List.length_cons]
    omega
  · exact (List.dropWhile_sublist _).length_le

/-- The value of a variable. -/
def valueOf (env : Environment) (name : String) : Except MissingVariable String :=
  match env name with
  | some value => .ok value
  | none => .error ⟨name⟩

/-- The characters of a text with the values of its variables in their place.  A dollar sign that no
name and no brace follows stays. -/
def expandChars (env : Environment) : List Char → Except MissingVariable (List Char)
  | [] => .ok []
  | c :: cs =>
    if c ≠ '$' ∨ (splitName cs).1 = [] ∧ cs.head? ≠ some '\x7b' then
      (expandChars env cs).map (c :: ·)
    else do
      let value ← valueOf env (String.ofList (splitName cs).1)
      let rest ← expandChars env (splitName cs).2
      .ok (value.toList ++ rest)
termination_by cs => cs.length
decreasing_by
  · simp
  · have := length_splitName_le cs
    simp only [List.length_cons]
    omega

/-- A text with the values of its variables in their place; the first that is not set is an
error. -/
def expand (env : Environment) (text : String) : Except MissingVariable String :=
  (expandChars env text.toList).map String.ofList

/-- Characters without a dollar sign stay as they are. -/
theorem expandChars_eq_self (env : Environment) {cs : List Char} (h : '$' ∉ cs) :
    expandChars env cs = .ok cs := by
  induction cs with
  | nil => simp [expandChars]
  | cons c cs ih =>
    simp only [List.mem_cons, not_or] at h
    unfold expandChars
    rw [if_pos (.inl (Ne.symm h.1)), ih h.2]
    rfl

/-- A text without a dollar sign stays as it is. -/
theorem expand_eq_self (env : Environment) {text : String} (h : '$' ∉ text.toList) :
    expand env text = .ok text := by
  simp [expand, expandChars_eq_self env h, Except.map]

end Settings

end QueryPlanner
