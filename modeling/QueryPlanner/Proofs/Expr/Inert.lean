import QueryPlanner.Plan.Bindings
import QueryPlanner.Proofs.Expr.Detail

/-!
# What the registry makes is inert

The conditions that planning makes from associations compare fields with fields and literals.  They
hold no interpolation, no placeholder and no annotation, so no detail of a query comes from them.

* `Expr.Inert`, `Expr.details_of_inert` — an expression without any detail
* `Hop.inert_condition` — the conditions of associations are such
-/

namespace QueryPlanner

variable {δ : Type}

namespace Expr

theorem walk_mk (n : Node Expr) : walk ⟨n⟩ = ⟨n⟩ :: n.children.flatMap walk := by
  have hsame : (n.map fun e => (e, walk e)).map (·.1) = n :=
    (Node.map_map _ _ n).trans (Node.map_id n)
  rw [walk, fold_mk, Node.children_map, List.flatMap_map]
  exact congrArg (fun m => Expr.mk m :: n.children.flatMap walk) hsame

/-- A property of every node of an expression is one of its node and of its children. -/
theorem forall_walk_mk {P : Expr → Prop} {n : Node Expr} :
    (∀ x ∈ walk ⟨n⟩, P x) ↔ P ⟨n⟩ ∧ ∀ c ∈ n.children, ∀ x ∈ c.walk, P x := by
  simp only [walk_mk, List.mem_cons, List.mem_flatMap, forall_eq_or_imp]
  constructor
  · rintro ⟨hn, hc⟩
    exact ⟨hn, fun c hc' x hx => hc x ⟨c, hc', hx⟩⟩
  · rintro ⟨hn, hc⟩
    refine ⟨hn, ?_⟩
    rintro x ⟨c, hc', hx⟩
    exact hc c hc' x hx

end Expr

/-- A node that interpolates nothing, stands for no parameter and annotates nothing. -/
def Node.isInert {α : Type} : Node α → Bool
  | .pin _ | .dynamic _ | .keywords _ | .param _ | .paramRange .. | .typed .. => false
  | _ => true

/-- An expression all of whose nodes are inert. -/
def Expr.Inert (e : Expr) : Prop := ∀ x ∈ e.walk, x.node.isInert = true

theorem Expr.inert_mk {n : Node Expr} :
    Expr.Inert ⟨n⟩ ↔ n.isInert = true ∧ ∀ c ∈ n.children, c.Inert := forall_walk_mk

/-- A detail that inert nodes carry nothing of. -/
def Detail.SparesInert (d : Detail δ) : Prop :=
  ∀ {α : Type} (n : Node α), n.isInert = true → d.data n = []

theorem Detail.sparesInert_numbers : numbers.SparesInert := by
  intro α n h
  cases n <;> first | rfl | cases h

theorem Detail.sparesInert_annotations : annotations.SparesInert := by
  intro α n h
  cases n <;> first | rfl | cases h

/-- An inert expression carries no detail. -/
theorem Expr.details_of_inert {d : Detail δ} (hd : d.SparesInert) (e : Expr) (h : e.Inert) :
    e.details d = [] := by
  revert h
  refine Expr.induction (P := fun e => e.Inert → e.details d = []) ?_ e
  intro n ih h
  obtain ⟨hn, hc⟩ := inert_mk.mp h
  rw [details_mk, hd n hn, List.nil_append]
  exact List.flatMap_eq_nil_iff.mpr fun c hc' => ih c hc' (hc c hc')

/-! ### The conditions of associations -/

/-- The expressions in a fragment from a text are its arguments. -/
theorem Part.mem_of_mem_ofText {ε : Type} {text : String} {arguments : List ε} {e : ε}
    (h : e ∈ (Part.ofText text arguments).flatMap Part.children) : e ∈ arguments := by
  have hpiece : ∀ piece : List Char, (ofPiece piece : List (Part ε)).flatMap children = [] := by
    intro piece
    unfold ofPiece
    split <;> rfl
  have hinterleave : ∀ (pieces : List (List Char)) (arguments : List ε),
      e ∈ (interleave pieces arguments).flatMap children → e ∈ arguments := by
    intro pieces
    induction pieces with
    | nil => exact fun _ h => nomatch h
    | cons piece rest ih =>
      intro arguments h
      cases arguments with
      | nil =>
        rw [interleave, List.flatMap_append, hpiece, List.nil_append] at h
        exact ih [] h
      | cons argument arguments =>
        rw [interleave, List.flatMap_cons, List.flatMap_append, hpiece, List.nil_append] at h
        rcases List.mem_append.mp h with h | h
        · exact List.mem_cons.mpr (.inl (List.mem_singleton.mp h))
        · exact List.mem_cons_of_mem _ (ih arguments h)
  unfold ofText at h
  rw [List.flatMap_append, hpiece, List.nil_append] at h
  exact hinterleave _ _ h

theorem Expr.inert_field (ix : Nat) (name : String) : Inert (.field ix name) :=
  inert_mk.mpr ⟨rfl, fun _ h => nomatch h⟩

theorem Expr.inert_literal (value : Value) : Inert (.literal value) :=
  inert_mk.mpr ⟨rfl, fun _ h => nomatch h⟩

theorem Expr.inert_binary {op : BinaryOp} {left right : Expr} (hleft : left.Inert)
    (hright : right.Inert) : Inert (.binary op left right) := by
  refine inert_mk.mpr ⟨rfl, fun c hc => ?_⟩
  simp only [Node.children, List.mem_cons, List.not_mem_nil, or_false] at hc
  rcases hc with rfl | rfl
  · exact hleft
  · exact hright

theorem AssociationFilter.inert_expr (ix : Nat) (f : AssociationFilter) : (f.expr ix).Inert := by
  have hfield := Expr.inert_field ix f.field
  have hnil : Expr.Inert (.isNil (.field ix f.field)) :=
    Expr.inert_mk.mpr ⟨rfl, fun c hc => List.mem_singleton.mp hc ▸ hfield⟩
  unfold expr
  cases f.condition with
  | eq value => exact Expr.inert_binary hfield (Expr.inert_literal value)
  | isNil => exact hnil
  | notNil => exact Expr.inert_mk.mpr ⟨rfl, fun c hc => List.mem_singleton.mp hc ▸ hnil⟩
  | oneOf values =>
    have hlist : Expr.Inert (.list (values.map .literal)) := by
      refine Expr.inert_mk.mpr ⟨rfl, fun c hc => ?_⟩
      obtain ⟨value, -, rfl⟩ := List.mem_map.mp hc
      exact Expr.inert_literal value
    refine Expr.inert_mk.mpr ⟨rfl, fun c hc => ?_⟩
    simp only [Node.children, List.mem_cons, List.not_mem_nil, or_false] at hc
    rcases hc with rfl | rfl
    · exact hfield
    · exact hlist
  | fragment text =>
    refine Expr.inert_mk.mpr ⟨rfl, fun c hc => ?_⟩
    rw [List.eq_of_mem_replicate (Part.mem_of_mem_ofText hc)]
    exact hfield

/-- The condition of a hop holds no detail. -/
theorem Hop.inert_condition (hop : Hop) (parent ix : Nat) : (hop.condition parent ix).Inert := by
  have hfold : ∀ (filters : List AssociationFilter) (e : Expr), e.Inert →
      (filters.foldl (fun e f => e.and (f.expr ix)) e).Inert := by
    intro filters
    induction filters with
    | nil => exact fun e h => h
    | cons f filters ih => exact fun e h => ih _ (Expr.inert_binary h (f.inert_expr ix))
  exact hfold hop.filters _ (Expr.inert_binary (Expr.inert_field _ _) (Expr.inert_field _ _))

end QueryPlanner
