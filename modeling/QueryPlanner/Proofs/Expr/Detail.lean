import QueryPlanner.Proofs.Expr.Children

/-!
# Details of a tree

A detail is a kind of data that some nodes carry and that may be forgotten: the numbers of
placeholders, the interpolated values, the annotated types.  A tree is what remains without the
detail together with the data, in reading order.

* `Expr.without`, `Expr.details` — the two halves
* `Expr.ext_details` — the two halves determine the tree
* `Detail.numbers`, `Detail.interpolated`, `Detail.annotations` — the three details
-/

namespace QueryPlanner

variable {α β δ : Type}

/-- A kind of data that nodes carry beside their children. -/
structure Detail (δ : Type) where
  /-- The node with its data replaced by something fixed. -/
  forget : {α : Type} → Node α → Node α
  /-- The data of the node. -/
  data : {α : Type} → Node α → List δ
  /-- The node with its data put back. -/
  restore : {α : Type} → List δ → Node α → Node α
  forget_map : ∀ {α β : Type} (f : α → β) (n : Node α), forget (n.map f) = (forget n).map f
  children_forget : ∀ {α : Type} (n : Node α), (forget n).children = n.children
  data_map : ∀ {α β : Type} (f : α → β) (n : Node α), data (n.map f) = data n
  length_data_forget : ∀ {α : Type} (n : Node α), (data (forget n)).length = (data n).length
  restore_forget : ∀ {α : Type} (n : Node α), restore (data n) (forget n) = n

namespace Detail

variable (d : Detail δ)

/-- Nodes that agree without the detail carry equally much of it. -/
theorem length_data {n m : Node α} (h : d.forget n = d.forget m) :
    (d.data n).length = (d.data m).length := by
  rw [← d.length_data_forget n, ← d.length_data_forget m, h]

/-- Nodes that agree without the detail and in the detail are equal. -/
theorem ext {n m : Node α} (h : d.forget n = d.forget m) (hd : d.data n = d.data m) : n = m := by
  rw [← d.restore_forget n, ← d.restore_forget m, h, hd]

end Detail

namespace Expr

variable (d : Detail δ)

/-- The expression with a detail forgotten at every node. -/
def without : Expr → Expr := fold fun n => ⟨d.forget (n.map (·.2))⟩

/-- The data of all nodes, parents first. -/
def details : Expr → List δ := fold fun n => d.data n ++ n.children.flatMap (·.2)

theorem without_mk (n : Node Expr) : without d ⟨n⟩ = ⟨d.forget (n.map (without d))⟩ := by
  rw [without, fold_mk, Node.map_map]
  rfl

theorem details_mk (n : Node Expr) :
    details d ⟨n⟩ = d.data n ++ n.children.flatMap (details d) := by
  rw [details, fold_mk, d.data_map, Node.children_map, List.flatMap_map]

/-- What agrees without a detail has children that agree without it. -/
theorem children_of_without_eq {n m : Node Expr} (h : without d ⟨n⟩ = without d ⟨m⟩) :
    n.children.map (without d) = m.children.map (without d) := by
  rw [without_mk, without_mk] at h
  have hc := congrArg (fun e : Expr => e.node.children) h
  simpa only [d.children_forget, Node.children_map] using hc

theorem length_data_of_without_eq {n m : Node Expr} (h : without d ⟨n⟩ = without d ⟨m⟩) :
    (d.data n).length = (d.data m).length := by
  rw [without_mk, without_mk] at h
  have hd := d.length_data (congrArg Expr.node h)
  rwa [d.data_map, d.data_map] at hd

/-- What agrees without a detail carries equally much of it. -/
theorem length_details (e₁ : Expr) :
    ∀ e₂ : Expr, e₁.without d = e₂.without d → (e₁.details d).length = (e₂.details d).length := by
  refine Expr.induction (P := fun e₁ => ∀ e₂ : Expr, e₁.without d = e₂.without d →
    (e₁.details d).length = (e₂.details d).length) ?_ e₁
  rintro n ih ⟨m⟩ h
  have hdata := length_data_of_without_eq d h
  have hchildren := children_of_without_eq d h
  rw [details_mk, details_mk, List.length_append, List.length_append, hdata,
    List.length_flatMap_of_map_eq hchildren ih]

/-- **A tree is the tree without a detail and the detail.** -/
theorem ext_details (e₁ : Expr) :
    ∀ e₂ : Expr, e₁.without d = e₂.without d → e₁.details d = e₂.details d → e₁ = e₂ := by
  refine Expr.induction (P := fun e₁ => ∀ e₂ : Expr, e₁.without d = e₂.without d →
    e₁.details d = e₂.details d → e₁ = e₂) ?_ e₁
  rintro n ih ⟨m⟩ h hd
  have hchildren := children_of_without_eq d h
  rw [details_mk, details_mk] at hd
  obtain ⟨hdata, hrest⟩ := List.append_inj hd (length_data_of_without_eq d h)
  have hsame : n.children = m.children :=
    List.eq_of_map_eq_of_flatMap_eq (length_details d) hchildren hrest ih
  rw [without_mk, without_mk] at h
  have hmap : n.map (without d) = m.map (without d) :=
    d.ext (congrArg Expr.node h) (by rw [d.data_map, d.data_map, hdata])
  have hshape : n.shape = m.shape := by
    rw [← Node.shape_map (without d) n, hmap, Node.shape_map]
  exact congrArg Expr.mk (Node.ext_children hshape hsame)

end Expr

/-! ### The details -/

/-- A run of placeholders: `length` of them from `start` on. -/
structure Slot where
  start : Nat
  length : Nat
  deriving DecidableEq, Repr

/-- The placeholders of a run. -/
def Slot.indices (s : Slot) : List Nat := List.range' s.start s.length

namespace Detail

/-- The numbers of placeholders.  A single placeholder is a run of one. -/
def numbers : Detail Slot where
  forget
    | .param _ => .param 0
    | .paramRange .. => .paramRange 0 0
    | n => n
  data
    | .param ix => [⟨ix, 1⟩]
    | .paramRange start length => [⟨start, length⟩]
    | _ => []
  restore
    | [s], .param _ => .param s.start
    | [s], .paramRange .. => .paramRange s.start s.length
    | _, n => n
  forget_map f n := by cases n <;> rfl
  children_forget n := by cases n <;> rfl
  data_map f n := by cases n <;> rfl
  length_data_forget n := by cases n <;> rfl
  restore_forget n := by cases n <;> rfl

/-- The values inside interpolations; the names of a keyword list are not part of it. -/
def interpolated : Detail Value where
  forget
    | .pin _ => .pin .null
    | .keywords pairs => .keywords (pairs.map fun pair => (pair.1, .null))
    | n => n
  data
    | .pin value => [value]
    | .keywords pairs => pairs.map (·.2)
    | _ => []
  restore
    | [value], .pin _ => .pin value
    | values, .keywords pairs => .keywords ((pairs.map (·.1)).zip values)
    | _, n => n
  forget_map f n := by cases n <;> rfl
  children_forget n := by cases n <;> rfl
  data_map f n := by cases n <;> rfl
  length_data_forget n := by cases n <;> simp
  restore_forget n := by
    cases n with
    | keywords pairs => simp [List.zip_map', Function.comp_def]
    | _ => rfl

/-- The annotated types.  What remains of a type is its text, as a type of that name. -/
def annotations : Detail FieldType where
  forget
    | .typed inner type => .typed inner (.custom type.render)
    | n => n
  data
    | .typed _ type => [type]
    | _ => []
  restore
    | [type], .typed inner _ => .typed inner type
    | _, n => n
  forget_map f n := by cases n <;> rfl
  children_forget n := by cases n <;> rfl
  data_map f n := by cases n <;> rfl
  length_data_forget n := by cases n <;> rfl
  restore_forget n := by cases n <;> rfl

end Detail

end QueryPlanner
