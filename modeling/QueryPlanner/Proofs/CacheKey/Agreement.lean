import QueryPlanner.CacheKey.Basic
import QueryPlanner.Proofs.Binary64.Layout

/-!
# Agreement of cache keys up to their numbers

Two keys agree if they differ at most in floats that some comparison takes for one.  With the
comparison of words this is equality; a looser comparison merges keys and a stricter one tells a
key from itself.

* `Binary64.equal` — numerical equality: both zeros are equal, and not-a-number is not itself
* `Binary64.spelledAlike` — what is no finite number counts as one
* `KeyNode.agreesAll` — agreement of two keys, node by node
* `KeyNode.agreesAll_congr` — it depends on the comparison of their own floats only
* `KeyNode.agreesAll_words` — agreement in words is equality
-/

namespace QueryPlanner

namespace Binary64

/-- Numerical equality. -/
def equal (x y : Binary64) : Bool :=
  !x.isNaN && !y.isNaN && (x = y || x.isZero && y.isZero)

/-- The same word, or no finite number on either side. -/
def spelledAlike (x y : Binary64) : Bool := x = y || !decide x.Finite && !decide y.Finite

/-- The same word. -/
def sameWord (x y : Binary64) : Bool := x = y

variable {x y : Binary64}

theorem spelledAlike_eq_sameWord (hx : x.Finite) : x.spelledAlike y = x.sameWord y := by
  simp [spelledAlike, sameWord, hx]

theorem eq_zero (h : x.isZero = true) (hx : x ≠ zero.neg) : x = zero := by
  have hmagnitude : x.magnitude = 0 := of_decide_eq_true h
  by_cases hnegative : x.isNegative = true
  · exact absurd (ext_magnitude hnegative hmagnitude) hx
  · exact ext_magnitude (Bool.eq_false_iff.mpr hnegative) hmagnitude

/-- Between finite numbers other than negative zero the two equalities are one. -/
theorem equal_eq_sameWord (hx : x.Finite ∧ x ≠ zero.neg) (hy : y.Finite ∧ y ≠ zero.neg) :
    x.equal y = x.sameWord y := by
  have hzeros : x.isZero = true → y.isZero = true → x = y := fun h h' =>
    (eq_zero h hx.2).trans (eq_zero h' hy.2).symm
  rw [equal, sameWord, hx.1.isNaN_eq, hy.1.isNaN_eq, Bool.eq_iff_iff]
  simpa using hzeros

end Binary64

variable {r r' : Binary64 → Binary64 → Bool}

namespace Value

mutual

/-- Whether two values differ at most in floats that `r` takes for one. -/
def agrees (r : Binary64 → Binary64 → Bool) : Value → Value → Bool
  | null, null => true
  | bool b, bool b' => b == b'
  | int i, int i' => i == i'
  | float x, float x' => r x x'
  | string s, string s' => s == s'
  | list items, list items' => agreesItems r items items'
  | map entries, map entries' => agreesEntries r entries entries'
  | binary bytes, binary bytes' => bytes == bytes'
  | _, _ => false

/-- Agreement of the items of two lists in order. -/
def agreesItems (r : Binary64 → Binary64 → Bool) : List Value → List Value → Bool
  | [], [] => true
  | v :: vs, w :: ws => v.agrees r w && agreesItems r vs ws
  | _, _ => false

/-- Agreement of the entries of two maps in order. -/
def agreesEntries (r : Binary64 → Binary64 → Bool) :
    List (String × Value) → List (String × Value) → Bool
  | [], [] => true
  | (k, v) :: es, (l, w) :: fs => k == l && v.agrees r w && agreesEntries r es fs
  | _, _ => false

end

mutual

/-- The floats in a value. -/
def floats : Value → List Binary64
  | float x => [x]
  | list items => floatsItems items
  | map entries => floatsEntries entries
  | _ => []

/-- The floats in the items of a list. -/
def floatsItems : List Value → List Binary64
  | [] => []
  | v :: vs => v.floats ++ floatsItems vs

/-- The floats in the entries of a map. -/
def floatsEntries : List (String × Value) → List Binary64
  | [] => []
  | (_, v) :: es => v.floats ++ floatsEntries es

end

mutual

theorem agrees_congr : ∀ v w : Value,
    (∀ x ∈ v.floats, ∀ y ∈ w.floats, r x y = r' x y) → v.agrees r w = v.agrees r' w
  | null, w, _ => by cases w <;> rfl
  | bool b, w, _ => by cases w <;> rfl
  | int i, w, _ => by cases w <;> rfl
  | float x, w, h => by
    cases w with
    | float y => exact h x List.mem_cons_self y List.mem_cons_self
    | _ => rfl
  | string s, w, _ => by cases w <;> rfl
  | list items, w, h => by
    cases w with
    | list items' => exact agreesItems_congr items items' h
    | _ => rfl
  | map entries, w, h => by
    cases w with
    | map entries' => exact agreesEntries_congr entries entries' h
    | _ => rfl
  | binary bytes, w, _ => by cases w <;> rfl

theorem agreesItems_congr : ∀ vs ws : List Value,
    (∀ x ∈ floatsItems vs, ∀ y ∈ floatsItems ws, r x y = r' x y) →
      agreesItems r vs ws = agreesItems r' vs ws
  | [], ws, _ => by cases ws <;> rfl
  | v :: vs, ws, h => by
    cases ws with
    | nil => rfl
    | cons w ws =>
      have hhead := agrees_congr v w fun x hx y hy =>
        h x (List.mem_append_left _ hx) y (List.mem_append_left _ hy)
      have htail := agreesItems_congr vs ws fun x hx y hy =>
        h x (List.mem_append_right _ hx) y (List.mem_append_right _ hy)
      exact congrArg₂ (· && ·) hhead htail

theorem agreesEntries_congr : ∀ es fs : List (String × Value),
    (∀ x ∈ floatsEntries es, ∀ y ∈ floatsEntries fs, r x y = r' x y) →
      agreesEntries r es fs = agreesEntries r' es fs
  | [], fs, _ => by cases fs <;> rfl
  | (k, v) :: es, fs, h => by
    cases fs with
    | nil => rfl
    | cons f fs =>
      obtain ⟨l, w⟩ := f
      have hhead := agrees_congr v w fun x hx y hy =>
        h x (List.mem_append_left _ hx) y (List.mem_append_left _ hy)
      have htail := agreesEntries_congr es fs fun x hx y hy =>
        h x (List.mem_append_right _ hx) y (List.mem_append_right _ hy)
      exact congrArg₂ (· && ·) (congrArg (k == l && ·) hhead) htail

end

mutual

/-- Agreement in words is equality. -/
theorem agrees_words : ∀ v w : Value, v.agrees Binary64.sameWord w = true ↔ v = w
  | null, w => by cases w <;> simp [agrees]
  | bool b, w => by cases w <;> simp [agrees]
  | int i, w => by cases w <;> simp [agrees]
  | float x, w => by cases w <;> simp [agrees, Binary64.sameWord]
  | string s, w => by cases w <;> simp [agrees]
  | list items, w => by cases w <;> simp [agrees, agreesItems_words items]
  | map entries, w => by cases w <;> simp [agrees, agreesEntries_words entries]
  | binary bytes, w => by cases w <;> simp [agrees]

theorem agreesItems_words :
    ∀ vs ws : List Value, agreesItems Binary64.sameWord vs ws = true ↔ vs = ws
  | [], ws => by cases ws <;> simp [agreesItems]
  | v :: vs, ws => by cases ws <;> simp [agreesItems, agrees_words v, agreesItems_words vs]

theorem agreesEntries_words :
    ∀ es fs : List (String × Value), agreesEntries Binary64.sameWord es fs = true ↔ es = fs
  | [], fs => by cases fs <;> simp [agreesEntries]
  | (k, v) :: es, fs => by
    cases fs <;> simp [agreesEntries, agrees_words v, agreesEntries_words es, Prod.ext_iff]

end

end Value

namespace KeyNode

mutual

/-- Whether two nodes differ at most in floats that `r` takes for one. -/
def agrees (r : Binary64 → Binary64 → Bool) : KeyNode → KeyNode → Bool
  | atom text, atom text' => text == text'
  | value v, value v' => v.agrees r v'
  | param, param => true
  | list children, list children' => agreesAll r children children'
  | tagged tag children, tagged tag' children' => tag == tag' && agreesAll r children children'
  | _, _ => false

/-- Agreement of two keys, node by node. -/
def agreesAll (r : Binary64 → Binary64 → Bool) : List KeyNode → List KeyNode → Bool
  | [], [] => true
  | k :: ks, l :: ls => k.agrees r l && agreesAll r ks ls
  | _, _ => false

end

mutual

/-- The floats in a node. -/
def floats : KeyNode → List Binary64
  | value v => v.floats
  | list children => floatsAll children
  | tagged _ children => floatsAll children
  | _ => []

/-- The floats in a key. -/
def floatsAll : List KeyNode → List Binary64
  | [] => []
  | k :: ks => k.floats ++ floatsAll ks

end

mutual

theorem agrees_congr : ∀ k l : KeyNode,
    (∀ x ∈ k.floats, ∀ y ∈ l.floats, r x y = r' x y) → k.agrees r l = k.agrees r' l
  | atom text, l, _ => by cases l <;> rfl
  | value v, l, h => by
    cases l with
    | value w => exact Value.agrees_congr v w h
    | _ => rfl
  | param, l, _ => by cases l <;> rfl
  | list children, l, h => by
    cases l with
    | list children' => exact agreesAll_congr children children' h
    | _ => rfl
  | tagged tag children, l, h => by
    cases l with
    | tagged tag' children' =>
      exact congrArg (tag == tag' && ·) (agreesAll_congr children children' h)
    | _ => rfl

theorem agreesAll_congr : ∀ ks ls : List KeyNode,
    (∀ x ∈ floatsAll ks, ∀ y ∈ floatsAll ls, r x y = r' x y) →
      agreesAll r ks ls = agreesAll r' ks ls
  | [], ls, _ => by cases ls <;> rfl
  | k :: ks, ls, h => by
    cases ls with
    | nil => rfl
    | cons l ls =>
      have hhead := agrees_congr k l fun x hx y hy =>
        h x (List.mem_append_left _ hx) y (List.mem_append_left _ hy)
      have htail := agreesAll_congr ks ls fun x hx y hy =>
        h x (List.mem_append_right _ hx) y (List.mem_append_right _ hy)
      exact congrArg₂ (· && ·) hhead htail

end

mutual

/-- Agreement in words is equality. -/
theorem agrees_words : ∀ k l : KeyNode, k.agrees Binary64.sameWord l = true ↔ k = l
  | atom text, l => by cases l <;> simp [agrees]
  | value v, l => by cases l <;> simp [agrees, Value.agrees_words v]
  | param, l => by cases l <;> simp [agrees]
  | list children, l => by cases l <;> simp [agrees, agreesAll_words children]
  | tagged tag children, l => by cases l <;> simp [agrees, agreesAll_words children]

theorem agreesAll_words :
    ∀ ks ls : List KeyNode, agreesAll Binary64.sameWord ks ls = true ↔ ks = ls
  | [], ls => by cases ls <;> simp [agreesAll]
  | k :: ks, ls => by cases ls <;> simp [agreesAll, agrees_words k, agreesAll_words ks]

end

end KeyNode

end QueryPlanner
