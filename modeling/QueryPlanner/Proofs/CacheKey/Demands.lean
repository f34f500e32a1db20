import QueryPlanner.Proofs.CacheKey.InStep
import QueryPlanner.Proofs.Plan.Placeholders

/-!
# The parameters that an expression demands

The types of the parameters that reading an expression adds can be told beforehand, from where
something is interpolated.  They can be told afterwards as well: putting interpolations back in the
places of placeholders gives the expression that was read, but for the values.  And they can be told
from the expression with its literals in their stored forms, since a literal that has one is
compared with a field, which interpolates nothing.

* `Scope.demands` — types and clauses of the parameters, in order
* `Scope.reads_demands` — they are those that reading adds
* `Scope.reads_repin` — what was read shows in what it is read as
* `Scope.demands_settle` — stored forms do not matter
-/

namespace QueryPlanner

variable {α β γ δ : Type}

/-- Pairs of matching first and equal second components hold the same, if their first components
do. -/
theorem List.flatMap_pairs_eq {u v : γ → α} {k : α → β → List δ} :
    ∀ {xs : List γ} {cs ds : List (α × β)}, cs.map (·.1) = xs.map u → ds.map (·.1) = xs.map v →
      cs.map (·.2) = ds.map (·.2) → (∀ x ∈ xs, ∀ b, k (u x) b = k (v x) b) →
        cs.flatMap (fun c => k c.1 c.2) = ds.flatMap fun c => k c.1 c.2
  | [], [], [], _, _, _, _ => rfl
  | x :: xs, c :: cs, d :: ds, hc, hd, hsnd, hk => by
    simp only [List.map_cons, List.cons.injEq] at hc hd hsnd
    have hrest := List.flatMap_pairs_eq hc.2 hd.2 hsnd.2
      fun z hz => hk z (List.mem_cons_of_mem x hz)
    rw [List.flatMap_cons, List.flatMap_cons, hrest, hc.1, hd.1, hsnd.1,
      hk x List.mem_cons_self]

namespace Scope

variable {s : Scope}

/-! ### Demands -/

/-- The parameter that a node stands for itself. -/
def ownDemand (s : Scope) (expected : FieldType) : Node α → List (FieldType × Clause)
  | .pin _ => [(expected, s.site.clause)]
  | _ => []

/-- The types and clauses of the parameters for an expression, as far as they are single ones. -/
def demands (s : Scope) : Expr → FieldType → List (FieldType × Clause) :=
  Expr.fold fun n expected => s.ownDemand expected n ++
    (List.zipWith (fun child typed => child.2 typed.2) n.children
      ((s.typedChildren (n.map (·.1)) expected).getD [])).flatten

theorem demands_mk (n : Node Expr) (expected : FieldType) : s.demands ⟨n⟩ expected =
    s.ownDemand expected n ++
      ((s.typedChildren n expected).getD []).flatMap fun c => s.demands c.1 c.2 := by
  have hown : ∀ {α β : Type} (f : α → β) (n : Node α),
      s.ownDemand expected (n.map f) = s.ownDemand expected n := by
    intro α β f n
    cases n <;> rfl
  have hraw : (n.map fun e => (e, s.demands e)).map (·.1) = n :=
    (Node.map_map _ _ n).trans (Node.map_id n)
  have hfold : s.demands ⟨n⟩ = _ := Expr.fold_mk _ n
  rw [hfold]
  change _ ++ (List.zipWith _ _ ((s.typedChildren ((n.map fun e => (e, s.demands e)).map (·.1))
    expected).getD [])).flatten = _
  rw [hown, hraw, Node.children_map]
  cases hcs : s.typedChildren n expected with
  | none => rw [Option.getD_none, List.zipWith_nil_right, List.flatMap_nil, List.flatten_nil]
  | some cs =>
    rw [Option.getD_some, ← children_of_typedChildren hcs, List.map_map, List.zipWith_map_left,
      List.zipWith_self]
    rfl

/-- Demands do not depend on interpolated values. -/
theorem demands_without (e : Expr) : ∀ expected,
    s.demands (e.without .interpolated) expected = s.demands e expected := by
  refine Expr.induction (P := fun e => ∀ expected,
    s.demands (e.without .interpolated) expected = s.demands e expected) ?_ e
  intro n ih expected
  have hown : s.ownDemand expected
      (Detail.interpolated.forget (n.map (Expr.without .interpolated))) =
      s.ownDemand expected n := by
    cases n <;> rfl
  have htyped : s.typedChildren (Detail.interpolated.forget (n.map (Expr.without .interpolated)))
      expected = s.typedChildren (n.map (Expr.without .interpolated)) expected := by
    cases n <;> rfl
  rw [Expr.without_mk, demands_mk, demands_mk, hown, htyped, typedChildren_without]
  congr 1
  cases hcs : s.typedChildren n expected with
  | none => rfl
  | some cs =>
    rw [Option.map_some, Option.getD_some, Option.getD_some, List.flatMap_map]
    refine List.flatMap_congr fun c hc => ih c.1 ?_ c.2
    exact children_of_typedChildren hcs ▸ List.mem_map_of_mem hc

end Scope

/-! ### Reading adds what is demanded -/

/-- Steps that add parameters of known kinds add them in a row. -/
theorem Chain.kinds {R : α → List BoundParameter → β → List BoundParameter → Prop} {xs : List α}
    {ys : List β} {ps qs : List BoundParameter} {S : β → Prop}
    {k : α → List (FieldType × Clause)} (h : Chain R xs ps ys qs) (hS : ∀ y ∈ ys, S y)
    (hR : ∀ x ∈ xs, ∀ ps y qs, R x ps y qs → S y →
      qs.map (·.kind) = ps.map (·.kind) ++ k x) :
    qs.map (·.kind) = ps.map (·.kind) ++ xs.flatMap k := by
  induction h with
  | nil => rw [List.flatMap_nil, List.append_nil]
  | cons head _ ih =>
    have hhead := hR _ List.mem_cons_self _ _ _ head (hS _ List.mem_cons_self)
    have htail := ih (fun y hy => hS y (List.mem_cons_of_mem _ hy))
      fun x hx => hR x (List.mem_cons_of_mem _ hx)
    rw [htail, hhead, List.append_assoc, List.flatMap_cons]

/-- What each step preserves, steps in a row preserve. -/
theorem Chain.map_eq {R : α → List BoundParameter → β → List BoundParameter → Prop} {xs : List α}
    {ys : List β} {ps qs : List BoundParameter} {S : β → Prop} {u : β → γ} {v : α → γ}
    (h : Chain R xs ps ys qs) (hS : ∀ y ∈ ys, S y)
    (hR : ∀ x ∈ xs, ∀ ps y qs, R x ps y qs → S y → u y = v x) : ys.map u = xs.map v := by
  induction h with
  | nil => rfl
  | cons head _ ih =>
    have hhead := hR _ List.mem_cons_self _ _ _ head (hS _ List.mem_cons_self)
    have htail := ih (fun y hy => hS y (List.mem_cons_of_mem _ hy))
      fun x hx => hR x (List.mem_cons_of_mem _ hx)
    rw [List.map_cons, List.map_cons, hhead, htail]

/-- The node with an interpolation put back in the place of a placeholder. -/
def Node.repin : Node α → Node α
  | .param _ => .pin .null
  | n => n

/-- The expression with interpolations put back in the places of placeholders. -/
def Expr.repin : Expr → Expr := relabel Node.repin

theorem Expr.repin_mk (n : Node Expr) : repin ⟨n⟩ = ⟨(n.map repin).repin⟩ := relabel_mk _ n

namespace Scope

variable {s : Scope}

/-- **Reading an expression** adds the parameters that it demands, if it reads no collection. -/
theorem reads_demands (e : Expr) : ∀ expected ps a qs, s.Reads e expected ps a qs → a.RangeFree →
    qs.map (·.kind) = ps.map (·.kind) ++ s.demands e expected := by
  refine Expr.induction (P := fun e => ∀ expected ps a qs, s.Reads e expected ps a qs →
    a.RangeFree → qs.map (·.kind) = ps.map (·.kind) ++ s.demands e expected) ?_ e
  intro n ih expected ps a qs hread hrange
  rcases reads_cases hread with
    ⟨v, p, rfl, htype, hclause, -, rfl⟩ | ⟨_, _, _, _, _, -, -, -, rfl, -⟩ |
    ⟨hplain, cs, m, hcs, rfl, -, hreads⟩
  · have hkind : p.kind = (expected, s.site.clause) := by
      rw [BoundParameter.kind, htype, hclause]
    rw [demands_mk, List.map_append, List.map_singleton, hkind]
    rfl
  · exact (Expr.not_rangeFree_isIn _ _ _ hrange).elim
  · have hown : s.ownDemand expected n = [] := by
      cases n <;> first | rfl | cases hplain
    rw [demands_mk, hown, List.nil_append, hcs, Option.getD_some]
    refine hreads.kinds (Expr.rangeFree_mk.mp hrange).2 fun c hc ps a qs hread hrange => ?_
    exact ih c.1 (children_of_typedChildren hcs ▸ List.mem_map_of_mem hc) _ _ _ _ hread hrange

/-- **What was read shows** in what it is read as: without its values, an expression that has no
placeholder is its result with interpolations put back, if it reads no collection. -/
theorem reads_repin (e : Expr) : e.details .numbers = [] → ∀ expected ps a qs,
    s.Reads e expected ps a qs → a.RangeFree → a.repin = e.without .interpolated := by
  refine Expr.induction (P := fun e => e.details .numbers = [] → ∀ expected ps a qs,
    s.Reads e expected ps a qs → a.RangeFree → a.repin = e.without .interpolated) ?_ e
  intro n ih hnone expected ps a qs hread hrange
  obtain ⟨hdata, hchildren⟩ := Expr.details_eq_nil_mk.mp hnone
  rcases reads_cases hread with
    ⟨v, p, rfl, -, -, rfl, -⟩ | ⟨_, _, _, _, _, -, -, -, rfl, -⟩ |
    ⟨hplain, cs, m, hcs, rfl, hshape, hreads⟩
  · rfl
  · exact (Expr.not_rangeFree_isIn _ _ _ hrange).elim
  · have hresults : m.children.map Expr.repin = cs.map fun c => c.1.without .interpolated := by
      refine hreads.map_eq (Expr.rangeFree_mk.mp hrange).2 fun c hc ps a qs hread hrange => ?_
      have hmem : c.1 ∈ n.children := children_of_typedChildren hcs ▸ List.mem_map_of_mem hc
      exact ih c.1 hmem (hchildren c.1 hmem) _ _ _ _ hread hrange
    have hmap : m.map Expr.repin = n.map (Expr.without .interpolated) := by
      refine Node.ext_children ?_ ?_
      · rw [Node.shape_map, Node.shape_map, hshape]
      · rw [Node.children_map, Node.children_map, hresults, ← children_of_typedChildren hcs,
          List.map_map]
        rfl
    rw [Expr.repin_mk, Expr.without_mk, hmap]
    cases n <;> first | rfl | exact absurd hdata (List.cons_ne_nil _ _) | cases hplain

end Scope

/-! ### Stored forms demand the same -/

namespace Expr

variable {form : LiteralForm}

theorem hasPin_settle (e : Expr) : ∀ opposite, (e.settle form opposite).hasPin = e.hasPin := by
  refine Expr.induction (P := fun e => ∀ opposite,
    (e.settle form opposite).hasPin = e.hasPin) ?_ e
  intro n ih opposite
  have hpin : isPin ⟨((n.against id opposite).map fun child =>
      child.1.settle form child.2).stored form opposite⟩ = isPin ⟨n⟩ := by
    cases n with
    | binary op left right => by_cases hop : op.isComparison <;> simp [Node.against, hop] <;> rfl
    | _ => rfl
  have hchildren : ((n.against id opposite).children.map fun child =>
      child.1.settle form child.2).any hasPin = n.children.any hasPin := by
    rw [← children_against opposite n, List.any_map, List.any_map, Bool.eq_iff_iff,
      List.any_eq_true, List.any_eq_true]
    refine exists_congr fun child => and_congr_right fun hchild => ?_
    rw [Function.comp_apply, Function.comp_apply, ih child.1 (mem_of_mem_against hchild)]
  rw [settle_mk, hasPin_mk, hasPin_mk, hpin, Node.children_stored, Node.children_map, hchildren]

/-- What is compared with something interpolated has no stored form. -/
theorem storedLiteral?_of_hasPin {other : Expr} (h : other.hasPin = true) (value : Value) :
    storedLiteral? form value (.operand other) = none := by
  obtain ⟨n⟩ := other
  cases n <;> first | rfl | cases h

end Expr

theorem Expr.unsettled_repin : Node.Unsettled Node.repin where
  map f n := by cases n <;> rfl
  against raw opposite n := by
    cases n with
    | binary op left right =>
      by_cases hop : op.isComparison <;> simp [Node.against, hop, Node.repin]
    | _ => rfl
  stored form opposite n := by cases n <;> rfl
  operand form value n := by cases n <;> rfl

namespace Scope

variable {s : Scope} {form : LiteralForm}

/-- Where a literal has no stored form, types are the same. -/
theorem infer_settle (e : Expr) : ∀ opposite : Opposite,
    (∀ value, Expr.storedLiteral? form value opposite = none) →
      s.infer (e.settle form opposite) = s.infer e := by
  refine Expr.induction (P := fun e => ∀ opposite : Opposite,
    (∀ value, Expr.storedLiteral? form value opposite = none) →
      s.infer (e.settle form opposite) = s.infer e) ?_ e
  intro n ih opposite hopposite
  have hplain : ∀ c ∈ n.children, s.infer (c.settle form .nothing) = s.infer c :=
    fun c hc => ih c hc .nothing fun _ => rfl
  rw [Expr.settle_mk, infer_mk, infer_mk]
  cases n with
  | literal value =>
    simp only [Node.against, Node.map, Node.stored, hopposite, Option.getD_none]
  | selectedAs inner name => exact hplain inner (List.mem_singleton_self inner)
  | binary op left right =>
    cases harithmetic : op.isArithmetic with
    | false =>
      by_cases hop : op.isComparison <;>
        simp [Node.against, Node.map, Node.stored, hop, inferNode, harithmetic]
    | true =>
      have hop : op.isComparison = false := by
        cases op <;> first | rfl | cases harithmetic
      have hleft := hplain left List.mem_cons_self
      have hright := hplain right (List.mem_cons_of_mem _ List.mem_cons_self)
      simp [Node.against, Node.map, Node.stored, hop, inferNode, harithmetic, hleft, hright]
  | _ => rfl

/-- The type that an operand is read with stays, if the other one has no stored form or the operand
interpolates nothing. -/
theorem operandType_settle {side other : Expr} {opposite opposite' : Opposite}
    (h : side.hasPin = true → ∀ value, Expr.storedLiteral? form value opposite' = none)
    (fallback : FieldType) :
    s.operandType (side.settle form opposite) (other.settle form opposite') fallback =
      s.operandType side other fallback := by
  rw [operandType, operandType, Expr.hasPin_settle]
  cases hpin : side.hasPin with
  | false => rfl
  | true => rw [infer_settle other opposite' (h hpin)]

theorem operandTypes_settle {left right : Expr} {opposite opposite' : Opposite}
    (hleft : left.hasPin = true → ∀ value, Expr.storedLiteral? form value opposite' = none)
    (hright : right.hasPin = true → ∀ value, Expr.storedLiteral? form value opposite = none)
    (op : BinaryOp) (expected : FieldType) :
    s.operandTypes op (left.settle form opposite) (right.settle form opposite') expected =
      s.operandTypes op left right expected := by
  simp only [operandTypes, operandType_settle hleft, operandType_settle hright]

theorem collectionType_settle (element : FieldType) (right : Expr) (opposite : Opposite) :
    collectionType element (right.settle form opposite) = collectionType element right := by
  obtain ⟨n⟩ := right
  rw [Expr.settle_mk]
  cases n with
  | binary op left right => by_cases hop : op.isComparison <;> simp [Node.against, hop] <;> rfl
  | _ => rfl

/-- A node with literals in their stored forms hands the same types down. -/
theorem typedChildren_settle (n : Node Expr) (opposite : Opposite) (expected : FieldType) :
    (s.typedChildren (((n.against id opposite).map fun child =>
      child.1.settle form child.2).stored form opposite) expected).map (List.map (·.2)) =
        (s.typedChildren n expected).map (List.map (·.2)) := by
  have hlength : (((n.against id opposite).map fun child =>
      child.1.settle form child.2).stored form opposite).children.length = n.children.length := by
    rw [Node.children_stored, Node.children_map, List.length_map,
      ← Expr.children_against opposite n, List.length_map]
  have hconst : ∀ {xs ys : List Expr} (type : FieldType), xs.length = ys.length →
      (some (xs.map fun x => (x, type))).map (List.map (·.2)) =
        (some (ys.map fun y => (y, type))).map (List.map (·.2)) := by
    intro xs ys type h
    simp [Function.comp_def, List.map_const', h]
  cases n with
  | binary op left right =>
    by_cases hop : op.isComparison
    · simp only [Node.against, hop, if_true, id, Node.map, Node.stored, typedChildren,
        Option.map_map, operandTypes_settle Expr.storedLiteral?_of_hasPin
          Expr.storedLiteral?_of_hasPin]
      rfl
    · have hnothing : ∀ e : Expr, e.hasPin = true →
          ∀ value, Expr.storedLiteral? form value .nothing = none := fun _ _ _ => rfl
      simp only [Node.against, hop, Bool.false_eq_true, if_false, Node.map, Node.stored,
        typedChildren, Option.map_map, operandTypes_settle (hnothing left) (hnothing right)]
      rfl
  | isIn left right =>
    have helement : s.elementType (left.settle form .nothing)
        (right.settle form (.collection left)) = s.elementType left right := by
      rw [elementType, elementType, Expr.hasPin_settle, infer_settle left .nothing fun _ => rfl]
    have hmember : s.memberType (left.settle form .nothing)
        (right.settle form (.collection left)) = s.memberType left right := by
      rw [memberType, memberType, Expr.hasPin_settle,
        infer_settle right (.collection left) fun _ => rfl]
    simp only [Node.against, id, Node.map, Node.stored, typedChildren, helement, hmember,
      collectionType_settle, Option.map_bind, Option.map_map, Function.comp_def]
    rfl
  | not | typed | selectedAs => rfl
  | list items => exact hconst _ hlength
  | _ => exact hconst _ hlength

/-- **Demands do not depend on stored forms.** -/
theorem demands_settle (e : Expr) : ∀ opposite expected,
    s.demands (e.settle form opposite) expected = s.demands e expected := by
  refine Expr.induction (P := fun e => ∀ opposite expected,
    s.demands (e.settle form opposite) expected = s.demands e expected) ?_ e
  intro n ih opposite expected
  have hown : s.ownDemand expected (((n.against id opposite).map fun child =>
      child.1.settle form child.2).stored form opposite) = s.ownDemand expected n := by
    cases n with
    | binary op left right => by_cases hop : op.isComparison <;> simp [Node.against, hop] <;> rfl
    | _ => rfl
  have htypes : (s.typedChildren (((n.against id opposite).map fun child =>
      child.1.settle form child.2).stored form opposite) expected).map (List.map (·.2)) = _ :=
    typedChildren_settle n opposite expected
  rw [Expr.settle_mk, demands_mk, demands_mk, hown]
  congr 1
  cases hcs : s.typedChildren n expected with
  | none =>
    rw [hcs, Option.map_none, Option.map_eq_none_iff] at htypes
    rw [htypes]
  | some cs =>
    rw [hcs, Option.map_some, Option.map_eq_some_iff] at htypes
    obtain ⟨ds, hds, hsame⟩ := htypes
    rw [hds, Option.getD_some, Option.getD_some]
    have hcchildren := (children_of_typedChildren hcs).trans (Expr.children_against opposite n).symm
    have hdchildren := children_of_typedChildren hds
    rw [Node.children_stored, Node.children_map] at hdchildren
    exact List.flatMap_pairs_eq hdchildren hcchildren hsame
      fun child hchild => ih child.1 (Expr.mem_of_mem_against hchild) child.2

/-- What was read demands the same as what it is read as with its literals in their stored forms. -/
theorem demands_repin_settle (a : Expr) (expected : FieldType) :
    s.demands (a.settle form .nothing).repin expected = s.demands a.repin expected := by
  have hswap : a.repin.settle form .nothing = (a.settle form .nothing).repin :=
    Expr.settle_relabel Expr.unsettled_repin a .nothing
  rw [← hswap, demands_settle]

end Scope

end QueryPlanner
