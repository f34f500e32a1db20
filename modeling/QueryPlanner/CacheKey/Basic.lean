import QueryPlanner.Value.Basic

/-!
# Cache keys

A cache key is a tree of literals that follows the shape of a planned query.  Values of parameters
never enter it: a parameter is a bare marker.  A query whose shape depends on interpolated data has
no key.
-/

namespace QueryPlanner

/-- A node of a cache key. -/
inductive KeyNode where
  /-- A name or a word. -/
  | atom (text : String)
  | value (value : Value)
  /-- The place of one parameter. -/
  | param
  | list (children : List KeyNode)
  | tagged (tag : String) (children : List KeyNode)

/-- The key under which a plan may be cached. -/
inductive CacheKey where
  | key (nodes : List KeyNode)
  | uncacheable

namespace KeyNode

/-- The null value, for what is absent. -/
def null : KeyNode := value .null

/-- A name, or null. -/
def ofOption : Option String → KeyNode
  | some text => atom text
  | none => null

/-- The number of a binding, as a signed word of 64 bits.  Numbers beyond a word have no such form
and stand for themselves, so that no two bindings share a number. -/
def bindingNumber (ix : Nat) : Int :=
  if Nat.pow 2 63 ≤ ix ∧ ix < Nat.pow 2 64 then (ix : Int) - (Nat.pow 2 64 : Int) else ix

/-- A binding. -/
def ofBinding (ix : Nat) : KeyNode := value (.int (bindingNumber ix))

/-- A binding, or null. -/
def ofBinding? : Option Nat → KeyNode
  | some ix => ofBinding ix
  | none => null

/-! ### Equality -/

mutual

/-- Whether two nodes are one. -/
def same : KeyNode → KeyNode → Bool
  | atom text, atom text' => text == text'
  | value v, value v' => v.same v'
  | param, param => true
  | list children, list children' => sameAll children children'
  | tagged tag children, tagged tag' children' => tag == tag' && sameAll children children'
  | _, _ => false

/-- Whether the nodes of two lists are the same in order. -/
def sameAll : List KeyNode → List KeyNode → Bool
  | [], [] => true
  | k :: ks, l :: ls => k.same l && sameAll ks ls
  | _, _ => false

end

mutual

theorem same_iff : ∀ k l : KeyNode, k.same l = true ↔ k = l
  | atom text, l => by cases l <;> simp [same]
  | value v, l => by cases l <;> simp [same, Value.same_iff v]
  | param, l => by cases l <;> simp [same]
  | list children, l => by cases l <;> simp [same, sameAll_iff children]
  | tagged tag children, l => by cases l <;> simp [same, sameAll_iff children]

theorem sameAll_iff : ∀ ks ls : List KeyNode, sameAll ks ls = true ↔ ks = ls
  | [], ls => by cases ls <;> simp [sameAll]
  | k :: ks, ls => by cases ls <;> simp [sameAll, same_iff k, sameAll_iff ks]

end

instance : DecidableEq KeyNode := fun k l => decidable_of_iff _ (same_iff k l)

end KeyNode

deriving instance DecidableEq for CacheKey

end QueryPlanner
