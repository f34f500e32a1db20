import QueryPlanner.Proofs.Plan.Prepared
import QueryPlanner.Proofs.Plan.Reads

/-!
# Planning sees where something is interpolated, not what

Before a level is read, its sources are bound and its conditions written out, and every operand gets
its type.  All of it depends on the places of interpolations only: it is the same for a query with
every interpolated value forgotten.

* `Scope.infer_without`, `Scope.typedChildren_without` — types
* `Expr.transparent_interpolated` — conditions that are written out
* `Clauses.prepared_edit_eq` — levels that agree up to such a replacement are prepared alike
-/

namespace QueryPlanner

open HasExprs

variable {σ τ : Type}

/-! ### Types -/

namespace Expr

theorem isPin_without (e : Expr) : (e.without .interpolated).isPin = e.isPin := by
  obtain ⟨n⟩ := e
  rw [without_mk]
  cases n <;> rfl

theorem hasPin_without (e : Expr) : (e.without .interpolated).hasPin = e.hasPin := by
  refine Expr.induction (P := fun e => (e.without .interpolated).hasPin = e.hasPin) ?_ e
  intro n ih
  have hpin := isPin_without ⟨n⟩
  have hchildren : ((n.children.map (without .interpolated)).any hasPin) =
      n.children.any hasPin := by
    rw [List.any_map, Bool.eq_iff_iff, List.any_eq_true, List.any_eq_true]
    exact exists_congr fun c => and_congr_right fun hc => by rw [Function.comp_apply, ih c hc]
  rw [without_mk] at hpin ⊢
  rw [hasPin_mk, hasPin_mk, hpin, Detail.interpolated.children_forget, Node.children_map, hchildren]

end Expr

namespace Scope

variable {s : Scope}

theorem infer_without (e : Expr) : s.infer (e.without .interpolated) = s.infer e := by
  refine Expr.induction (P := fun e => s.infer (e.without .interpolated) = s.infer e) ?_ e
  intro n ih
  have hforget : ∀ m : Node (Expr × Except PlanError FieldType),
      s.inferNode (Detail.interpolated.forget m) = s.inferNode m := by
    intro m
    cases m <;> rfl
  rw [Expr.without_mk, infer_mk, infer_mk, Detail.interpolated.forget_map, Node.map_map,
    ← Detail.interpolated.forget_map, hforget]
  cases n with
  | selectedAs inner name => exact ih inner (List.mem_singleton_self inner)
  | binary op left right =>
    have hleft := ih left List.mem_cons_self
    have hright := ih right (List.mem_cons_of_mem _ List.mem_cons_self)
    simp only [Node.map, inferNode, Function.comp_apply, hleft, hright]
  | _ => rfl

theorem operandType_without (side other : Expr) (fallback : FieldType) :
    s.operandType (side.without .interpolated) (other.without .interpolated) fallback =
      s.operandType side other fallback := by
  rw [operandType, operandType, Expr.hasPin_without, infer_without]

theorem operandTypes_without (op : BinaryOp) (left right : Expr) (expected : FieldType) :
    s.operandTypes op (left.without .interpolated) (right.without .interpolated) expected =
      s.operandTypes op left right expected := by
  simp only [operandTypes, operandType_without]

theorem elementType_without (left right : Expr) :
    s.elementType (left.without .interpolated) (right.without .interpolated) =
      s.elementType left right := by
  rw [elementType, elementType, Expr.hasPin_without, infer_without]

theorem memberType_without (left right : Expr) :
    s.memberType (left.without .interpolated) (right.without .interpolated) =
      s.memberType left right := by
  simp only [memberType, Expr.hasPin_without, infer_without]

theorem collectionType_without (element : FieldType) (right : Expr) :
    collectionType element (right.without .interpolated) = collectionType element right := by
  obtain ⟨n⟩ := right
  rw [Expr.without_mk]
  cases n <;> rfl

/-- A child with the type that it is read with, and its interpolated values forgotten. -/
def withoutValues (c : Expr × FieldType) : Expr × FieldType := (c.1.without .interpolated, c.2)

/-- The types that a node hands down do not depend on interpolated values. -/
theorem typedChildren_without (n : Node Expr) (expected : FieldType) :
    s.typedChildren (n.map (Expr.without .interpolated)) expected =
      (s.typedChildren n expected).map (List.map withoutValues) := by
  have hplain : ∀ m : Node Expr,
      some ((m.map (Expr.without .interpolated)).children.map fun child => (child, .any)) =
        (some (m.children.map fun child => (child, FieldType.any))).map
          (List.map withoutValues) := by
    intro m
    rw [Option.map_some, Node.children_map, List.map_map, List.map_map]
    rfl
  cases n with
  | binary op left right =>
    simp only [Node.map, typedChildren, operandTypes_without, Option.map_map]
    rfl
  | isIn left right =>
    simp only [Node.map, typedChildren, elementType_without, memberType_without,
      collectionType_without, Option.map_bind, Option.map_map, Function.comp_def]
    rfl
  | not | typed | selectedAs => rfl
  | list items =>
    simp only [Node.map, typedChildren, Option.map_some, List.map_map]
    rfl
  | _ => exact hplain _

end Scope

/-! ### Conditions -/

namespace Expr

/-- What interpolates nothing loses nothing. -/
theorem without_interpolated_of_inert (e : Expr) (h : e.Inert) : e.without .interpolated = e := by
  revert h
  refine Expr.induction (P := fun e => e.Inert → e.without .interpolated = e) ?_ e
  intro n ih h
  obtain ⟨hn, hchildren⟩ := inert_mk.mp h
  have hmap : n.map (without .interpolated) = n :=
    (Node.map_congr fun c hc => ih c hc (hchildren c hc)).trans (Node.map_id n)
  rw [without_mk, hmap]
  cases n <;> first | rfl | cases hn

/-- Conditions are written out alike, whatever the interpolated values are. -/
theorem transparent_interpolated : Transparent (without .interpolated) where
  opened ix e := by
    obtain ⟨n⟩ := e
    have hn := without_mk .interpolated n
    rw [hn]
    cases n with
    | keywords pairs =>
      have hfold : ∀ (tests : List Expr) (first : Expr),
          (tests.foldl Expr.and first).without .interpolated =
            (tests.map (without .interpolated)).foldl Expr.and (first.without .interpolated) := by
        intro tests
        induction tests with
        | nil => exact fun _ => rfl
        | cons test tests ih => exact fun first => ih (first.and test)
      cases pairs with
      | nil => rfl
      | cons pair pairs =>
        refine (hfold (pairs.map (keywordTest ix)) (keywordTest ix pair)).trans ?_
        rw [List.map_map]
        change _ = ((pairs.map fun pair => (pair.1, Value.null)).map (keywordTest ix)).foldl
          Expr.and (keywordTest ix (pair.1, .null))
        rw [List.map_map]
        rfl
    | dynamic inner => rfl
    | _ => exact hn
  and _ _ := rfl
  field _ _ := rfl
  hop hop parent ix := without_interpolated_of_inert _ (hop.inert_condition parent ix)

end Expr

/-! ### Levels -/

/-- Levels that agree up to a replacement are prepared alike up to it. -/
theorem Clauses.prepared_edit_eq {ctx : Context} {f : Expr → Expr} {g : σ → τ}
    (hf : Expr.Transparent f) {c d : Clauses σ} {b b' : Bindings σ} (hb : c.resolve ctx = .ok b)
    (hb' : d.resolve ctx = .ok b') (h : c.edit f g = d.edit f g) :
    b.sources = b'.sources ∧ (c.prepared b).edit f g = (d.prepared b').edit f g := by
  have hresolve : ∀ k : Clauses σ, ((k.edit f g).resolve ctx).toOption =
      (k.resolve ctx).toOption.map (Bindings.edit f g) := toOption_resolve hf.hop
  have hc := hresolve c
  have hd := hresolve d
  rw [hb] at hc
  rw [hb'] at hd
  have hbindings : b.edit f g = b'.edit f g :=
    Option.some.inj (hc.symm.trans ((congrArg _ (congrArg _ h)).trans hd))
  have hsources : (b.edit f g).sources = (b'.edit f g).sources := by rw [hbindings]
  refine ⟨hsources, ?_⟩
  rw [← prepared_edit hf, ← prepared_edit hf, h, hbindings]

end QueryPlanner
