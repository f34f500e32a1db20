import Mathlib.Data.List.Forall2
import QueryPlanner.Expr.Builder
import QueryPlanner.Proofs.Expr.Inert
import QueryPlanner.Proofs.Plan.Resolution
import QueryPlanner.Proofs.Plan.Silent
import QueryPlanner.Proofs.Plan.Yields

/-!
# Reading an expression

An expression is read with the type that its place requires.  Apart from messages, a node does one
of three things: an interpolated value becomes the next parameter, a membership test of an
interpolated collection adds a run of parameters, and any other node hands types down to its
children and keeps its shape.

* `Scope.Reads` — an expression is read with success
* `Scope.typedChildren` — the types that a node hands down
* `BoundParameter.Stores` — a parameter holds a value in its stored form
* `Scope.reads_stores`, `Scope.reads_cases` — the three things a node can do
-/

namespace QueryPlanner

open Binder

theorem Chain.of_map {α β γ : Type} {R : γ → List BoundParameter → β → List BoundParameter → Prop}
    {u : α → γ} {xs : List α} {ys : List β} {ps qs : List BoundParameter}
    (h : Chain R (xs.map u) ps ys qs) : Chain (fun x => R (u x)) xs ps ys qs := by
  generalize hxs : xs.map u = zs at h
  induction h generalizing xs with
  | nil =>
    rw [List.map_eq_nil_iff.mp hxs]
    exact .nil
  | cons head _ ih =>
    obtain ⟨x, xs', rfl, rfl, hrest⟩ := List.map_eq_cons_iff.mp hxs
    exact .cons head (ih hrest)

/-- What a parameter is, apart from its value. -/
def BoundParameter.kind (p : BoundParameter) : FieldType × Clause := (p.type, p.clause)

/-- A parameter holds a value that a clause interpolates: the value is cast to the type of the
parameter and then dumped. -/
def BoundParameter.Stores (conversions : Conversions) (given : Value × Clause)
    (p : BoundParameter) : Prop :=
  p.clause = given.2 ∧ ∃ logical, conversions.cast p.type given.1 = .ok logical ∧
    conversions.dump p.type logical = .ok p.value

/-- A node that is no interpolation and tests no interpolated collection. -/
def Node.Plain : Node Expr → Prop
  | .pin _ | .dynamic _ | .keywords _ | .isIn _ (.pin _) => False
  | _ => True

namespace Expr

theorem hasPin_mk (n : Node Expr) : hasPin ⟨n⟩ = (isPin ⟨n⟩ || n.children.any hasPin) := by
  rw [hasPin, any, walk_mk, List.any_cons, List.any_flatMap]
  rfl

theorem hasPin_pin (v : Value) : hasPin (.pin v) = true := by
  rw [hasPin_mk]
  rfl

end Expr

namespace Scope

variable {s : Scope} {ps qs : List BoundParameter}

/-! ### Types do not depend on messages -/

/-- Checks that are one check apart from messages succeed alike. -/
theorem toOption_of_silent {α : Type} {x y : Except PlanError α}
    (h : x.mapError PlanError.silent = y.mapError PlanError.silent) : x.toOption = y.toOption := by
  rw [← Except.toOption_mapError PlanError.silent, h, Except.toOption_mapError]

section

variable (text : String)

theorem fieldType_showing (ix : Nat) (name : String) :
    ((s.showing text).fieldType ix name).toOption = (s.fieldType ix name).toOption :=
  toOption_of_silent <| (silent_fieldType ix name).trans (silent_fieldType (s := s) ix name).symm

theorem operandTypes_showing (op : BinaryOp) (left right : Expr) (expected : FieldType) :
    ((s.showing text).operandTypes op left right expected).toOption =
      (s.operandTypes op left right expected).toOption :=
  toOption_of_silent <| (silent_operandTypes op left right expected).trans
    (silent_operandTypes (s := s) op left right expected).symm

theorem elementType_showing (left right : Expr) :
    ((s.showing text).elementType left right).toOption = (s.elementType left right).toOption :=
  toOption_of_silent <|
    (silent_elementType left right).trans (silent_elementType (s := s) left right).symm

theorem memberType_showing (left right : Expr) :
    ((s.showing text).memberType left right).toOption = (s.memberType left right).toOption :=
  toOption_of_silent <|
    (silent_memberType left right).trans (silent_memberType (s := s) left right).symm

end

/-! ### Values opposite fields -/

theorem infer_field (ix : Nat) (name : String) : s.infer (.field ix name) = s.fieldType ix name :=
  infer_mk _

/-- Opposite a field, an interpolated value is read with the type of the field, if it tells one. -/
theorem operandType_pin (ix : Nat) (name : String) (v : Value) (fallback : FieldType) :
    s.operandType (.pin v) (.field ix name) fallback =
      (s.fieldType ix name).map fun type => if type.isAny then fallback else type := by
  rw [operandType, Expr.hasPin_pin, if_pos rfl, infer_field]
  cases s.fieldType ix name <;> rfl

theorem operandType_field (ix : Nat) (name : String) (other : Expr) (fallback : FieldType) :
    s.operandType (.field ix name) other fallback = .ok .any := by
  have hpin : (Expr.field ix name).hasPin = false := by
    rw [Expr.hasPin_mk]
    rfl
  rw [operandType, hpin]
  rfl

/-- The types of the operands of a comparison between a field and an interpolated value. -/
theorem operandTypes_pin {op : BinaryOp} (hop : op.isComparison = true) (ix : Nat)
    (name : String) (v : Value) (expected : FieldType) :
    s.operandTypes op (.field ix name) (.pin v) expected =
        (s.fieldType ix name).map (fun type => (.any, type)) ∧
      s.operandTypes op (.pin v) (.field ix name) expected =
        (s.fieldType ix name).map fun type => (type, .any) := by
  have hlogical : op.isLogical = false := by cases op <;> first | rfl | cases hop
  have harithmetic : op.isArithmetic = false := by cases op <;> first | rfl | cases hop
  have hsame : ∀ type : FieldType, (if type.isAny then .any else type) = type := by
    rintro ⟨⟩ <;> rfl
  simp only [operandTypes, hlogical, harithmetic, Bool.false_eq_true, if_false, operandType_pin,
    operandType_field, hsame]
  cases s.fieldType ix name <;> exact ⟨rfl, rfl⟩

/-! ### The types of the children -/

/-- The type that the right side of a membership test is read with. -/
def collectionType (element : FieldType) : Expr → FieldType
  | .list _ => .array element
  | _ => .any

/-- The children of a node, each with the type that it is read with; nothing if the type of an
operand is not known. -/
def typedChildren (s : Scope) (n : Node Expr) (expected : FieldType) :
    Option (List (Expr × FieldType)) :=
  match n with
  | .binary op left right =>
    (s.operandTypes op left right expected).toOption.map fun types =>
      [(left, types.1), (right, types.2)]
  | .isIn left right =>
    (s.elementType left right).toOption.bind fun element =>
      (s.memberType left right).toOption.map fun leftType =>
        [(left, leftType), (right, collectionType element right)]
  | .not inner => some [(inner, .boolean)]
  | .typed inner type => some [(inner, type)]
  | .list items => some (items.map fun item => (item, expected.element?.getD expected))
  | .selectedAs inner _ => some [(inner, expected)]
  | n => some (n.children.map fun child => (child, .any))

theorem children_of_typedChildren {n : Node Expr} {expected : FieldType}
    {cs : List (Expr × FieldType)} (h : s.typedChildren n expected = some cs) :
    cs.map (·.1) = n.children := by
  have hplain : ∀ (es : List Expr) (t : FieldType),
      (es.map fun e => (e, t)).map (·.1) = es := by
    intro es t
    rw [List.map_map]
    exact List.map_id es
  cases n with
  | binary op left right =>
    obtain ⟨types, -, rfl⟩ := Option.map_eq_some_iff.mp h
    rfl
  | isIn left right =>
    obtain ⟨element, -, h⟩ := Option.bind_eq_some_iff.mp h
    obtain ⟨leftType, -, rfl⟩ := Option.map_eq_some_iff.mp h
    rfl
  | not | typed | selectedAs =>
    cases h
    rfl
  | _ =>
    cases h
    exact hplain _ _

/-! ### Success -/

/-- An expression is read with success, whatever messages would show.  The two sides of a condition
may be read under messages of their own. -/
inductive Reads (s : Scope) : Expr → FieldType → List BoundParameter → Expr →
    List BoundParameter → Prop
  | bound (text : String) {e expected ps a qs}
      (h : ((s.showing text).bindExpr e expected).Yields ps a qs) : Reads s e expected ps a qs
  | both {left right left' right' ps rs qs} (hleft : Reads s left .boolean ps left' rs)
      (hright : Reads s right .boolean rs right' qs) :
      Reads s (left.and right) .boolean ps (left'.and right') qs

/-- Typed expressions are read in a row. -/
abbrev ReadsAll (s : Scope) :
    List (Expr × FieldType) → List BoundParameter → List Expr → List BoundParameter → Prop :=
  Chain fun c ps a qs => s.Reads c.1 c.2 ps a qs

/-- A value becomes the next parameter. -/
theorem yields_bindValue {v : Value} {type : FieldType} {a : Expr}
    (h : (s.bindValue v type).Yields ps a qs) :
    ∃ p : BoundParameter, p.type = type ∧ p.Stores s.ctx.conversions (v, s.site.clause) ∧
      a = .param ps.length ∧ qs = ps ++ [p] := by
  unfold bindValue at h
  cases hcast : s.ctx.conversions.cast type v with
  | error e => exact absurd (hcast ▸ h) yields_throw
  | ok logical =>
    cases hdump : s.ctx.conversions.dump type logical with
    | error e =>
      simp only [hcast, hdump] at h
      exact absurd h yields_throw
    | ok stored =>
      simp only [hcast, hdump] at h
      obtain ⟨bound, rs, hget, hrest⟩ := yields_bind.mp h
      obtain ⟨hbound, hrs⟩ := yields_get.mp hget
      obtain ⟨u, ts, hset, hparam⟩ := yields_bind.mp hrest
      obtain ⟨ha, hqs⟩ := yields_pure.mp hparam
      rw [yields_set] at hset
      exact ⟨⟨stored, type, s.site.clause⟩, rfl, ⟨rfl, logical, hcast, hdump⟩, hbound ▸ ha,
        hbound ▸ hqs.trans hset⟩

/-- The values of a collection become the next parameters, one for each. -/
theorem yields_bindValues {values : List Value} {type : FieldType} {as : List Expr}
    (h : Yields (values.mapM fun v => s.bindValue v type) ps as qs) :
    ∃ added, List.Forall₂ (BoundParameter.Stores s.ctx.conversions)
      (values.map fun v => (v, s.site.clause)) added ∧ (∀ p ∈ added, p.type = type) ∧
      qs = ps ++ added := by
  have hchain := h.chain
  clear h
  induction hchain with
  | nil => exact ⟨[], .nil, List.forall_mem_nil _, (List.append_nil _).symm⟩
  | cons head _ ih =>
    obtain ⟨p, htype, hp, -, rfl⟩ := yields_bindValue head
    obtain ⟨added, hadded, htypes, rfl⟩ := ih
    exact ⟨p :: added, .cons hp hadded, List.forall_mem_cons.mpr ⟨htype, htypes⟩, by simp⟩

/-- Only a list is interpolated as a collection. -/
theorem yields_bindCollection {v : Value} {read : FieldType → Binder Expr} {element : FieldType}
    {a : Expr} (h : (s.bindCollection element (.pin v, read)).Yields ps a qs) :
    ∃ (values : List Value) (added : List BoundParameter), v = .list values ∧
      List.Forall₂ (BoundParameter.Stores s.ctx.conversions)
        (values.map fun v => (v, s.site.clause)) added ∧ (∀ p ∈ added, p.type = element) ∧
      a = .paramRange ps.length values.length ∧ qs = ps ++ added := by
  cases v with
  | list values =>
    obtain ⟨start, us, hstart, hrest⟩ := yields_bind.mp h
    obtain ⟨rfl, rfl⟩ := yields_get.mp hstart
    obtain ⟨as, vs, hvalues, hresult⟩ := yields_bind.mp hrest
    obtain ⟨rfl, rfl⟩ := yields_pure.mp hresult
    obtain ⟨added, hadded, htypes, rfl⟩ := yields_bindValues hvalues
    exact ⟨values, added, rfl, hadded, htypes, rfl, rfl⟩
  | _ => exact absurd h yields_throw

/-- A node whose children are all read as they are. -/
theorem reads_uniform {text : String} {n m : Node Expr}
    (h : Yields ((n.map fun e => (e, (s.showing text).bindExpr e)).mapM fun c => c.2 .any)
      ps m qs) :
    m.shape = n.shape ∧ s.ReadsAll (n.children.map fun c => (c, .any)) ps m.children qs := by
  obtain ⟨hshape, hchain⟩ := Node.yields_mapM h
  rw [Node.children_map] at hchain
  have hreads := hchain.of_map.map (u := fun c => (c, FieldType.any)) (v := id)
    (T := fun c ps a qs => s.Reads c.1 c.2 ps a qs) fun _ _ _ _ hread => .bound text hread
  rw [List.map_id] at hreads
  exact ⟨hshape.trans (Node.shape_map _ n), hreads⟩

/-- A node hands types down to its children and keeps its shape. -/
def HandsDown (s : Scope) (n : Node Expr) (expected : FieldType) (ps : List BoundParameter)
    (a : Expr) (qs : List BoundParameter) : Prop :=
  ∃ cs m, s.typedChildren n expected = some cs ∧ a = ⟨m⟩ ∧ m.shape = n.shape ∧
    s.ReadsAll cs ps m.children qs

theorem reads_binary {text : String} {op : BinaryOp} {left right a : Expr} {expected : FieldType}
    (h : ((s.showing text).bindExpr (.binary op left right) expected).Yields ps a qs) :
    s.HandsDown (.binary op left right) expected ps a qs := by
  rw [bindExpr_mk] at h
  obtain ⟨⟨leftType, rightType⟩, htypes, hrest⟩ := yields_lift_bind.mp h
  have hcs : s.typedChildren (.binary op left right) expected =
      some [(left, leftType), (right, rightType)] := by
    have htoOption := operandTypes_showing (s := s) text op left right expected
    simp only at htypes
    rw [htypes] at htoOption
    simp only [typedChildren, ← htoOption]
    rfl
  -- the refusals of null add no parameter, whether they are made or not
  have hoperands : Yields (do
      let left' ← (s.showing text).bindExpr left leftType
      let right' ← (s.showing text).bindExpr right rightType
      pure (Expr.binary op left' right')) ps a qs := by
    by_cases hop : op.isComparison
    · simp only [hop, if_true] at hrest
      obtain ⟨-, -, hrefused⟩ := yields_lift_bind.mp hrest
      obtain ⟨-, -, hoperands⟩ := yields_lift_bind.mp hrefused
      exact hoperands
    · simp only [hop] at hrest
      exact hrest
  obtain ⟨left', rs, hleft, hrest⟩ := yields_bind.mp hoperands
  obtain ⟨right', us, hright, hresult⟩ := yields_bind.mp hrest
  obtain ⟨rfl, rfl⟩ := yields_pure.mp hresult
  exact ⟨_, _, hcs, rfl, rfl, .cons (.bound text hleft) (.single (.bound text hright))⟩

theorem reads_list {text : String} {items : List Expr} {a : Expr} {expected : FieldType}
    (h : ((s.showing text).bindExpr (.list items) expected).Yields ps a qs) :
    s.HandsDown (.list items) expected ps a qs := by
  rw [bindExpr_mk] at h
  obtain ⟨items', rs, hitems, hrest⟩ := yields_bind.mp h
  obtain ⟨rfl, rfl⟩ := yields_pure.mp hrest
  have hreads := hitems.chain.of_map.map
    (u := fun c => (c, expected.element?.getD expected)) (v := id)
    (T := fun c ps a qs => s.Reads c.1 c.2 ps a qs) fun _ _ _ _ hread => .bound text hread
  have hshape := hitems.map_unit
  rw [List.map_id] at hreads
  rw [List.map_map] at hshape
  exact ⟨_, _, rfl, rfl, congrArg Node.list hshape, hreads⟩

/-- A membership test reads its left side and then its collection. -/
theorem reads_isIn {text : String} {left right a : Expr} {expected : FieldType}
    (h : ((s.showing text).bindExpr (.isIn left right) expected).Yields ps a qs) :
    ∃ element leftType left' rs right', s.typedChildren (.isIn left right) expected =
        some [(left, leftType), (right, collectionType element right)] ∧
      (s.elementType left right).toOption = some element ∧
      (s.memberType left right).toOption = some leftType ∧
      s.Reads left leftType ps left' rs ∧
      ((s.showing text).bindCollection element
        (right, (s.showing text).bindExpr right)).Yields rs right' qs ∧
      a = .isIn left' right' := by
  rw [bindExpr_mk] at h
  obtain ⟨element, helement, hrest⟩ := yields_lift_bind.mp h
  obtain ⟨leftType, hmember, hsides⟩ := yields_lift_bind.mp hrest
  obtain ⟨left', rs, hleft, hcollection⟩ := yields_bind.mp hsides
  obtain ⟨right', us, hright, hresult⟩ := yields_bind.mp hcollection
  obtain ⟨rfl, rfl⟩ := yields_pure.mp hresult
  have htoElement := elementType_showing (s := s) text left right
  have htoMember := memberType_showing (s := s) text left right
  simp only at helement hmember
  rw [helement] at htoElement
  rw [hmember] at htoMember
  refine ⟨element, leftType, left', rs, right', ?_, htoElement.symm, htoMember.symm,
    .bound text hleft, hright, rfl⟩
  simp only [typedChildren, ← htoElement, ← htoMember]
  rfl

/-- The left side of a membership test of an interpolated collection gets no type. -/
theorem memberType_pin {left : Expr} {v : Value} {type : FieldType}
    (h : (s.memberType left (.pin v)).toOption = some type) : type = .any := by
  unfold memberType at h
  cases hpin : left.hasPin with
  | false => simpa [hpin, Except.toOption] using h.symm
  | true =>
    have hany : s.infer (.pin v) = .ok .any := by
      rw [infer_mk]
      rfl
    rw [hpin, if_pos rfl, hany] at h
    exact (Option.some.inj h).symm

/-- **What reading a node does.**  An interpolated value becomes a parameter, an interpolated
collection a run of them, and any other node hands down types and keeps its shape. -/
theorem reads_stores {n : Node Expr} {expected : FieldType} {a : Expr}
    (h : s.Reads ⟨n⟩ expected ps a qs) :
    (∃ (v : Value) (p : BoundParameter), n = .pin v ∧ p.type = expected ∧
      p.Stores s.ctx.conversions (v, s.site.clause) ∧ a = .param ps.length ∧ qs = ps ++ [p]) ∨
    (∃ (left : Expr) (values : List Value) (left' : Expr) (rs added : List BoundParameter),
      n = .isIn left (.pin (.list values)) ∧ s.Reads left .any ps left' rs ∧
      List.Forall₂ (BoundParameter.Stores s.ctx.conversions)
        (values.map fun v => (v, s.site.clause)) added ∧
      a = .isIn left' (.paramRange rs.length values.length) ∧ qs = rs ++ added) ∨
    n.Plain ∧ s.HandsDown n expected ps a qs := by
  generalize he : Expr.mk n = e at h
  cases h with
  | both hleft hright =>
    obtain rfl := congrArg Expr.node he
    exact .inr (.inr ⟨trivial, _, _, rfl, rfl, rfl, .cons hleft (.single hright)⟩)
  | bound text h => ?_
  obtain rfl := he
  cases n with
  | binary op left right => exact .inr (.inr ⟨trivial, reads_binary h⟩)
  | isIn left right =>
    obtain ⟨element, leftType, left', rs, right', hcs, -, hmember, hleft, hright, rfl⟩ :=
      reads_isIn h
    have hother (hplain : (Node.isIn left right).Plain)
        (hread : s.Reads right (collectionType element right) rs right' qs) :
        s.HandsDown (.isIn left right) expected ps (.isIn left' right') qs :=
      ⟨_, _, hcs, rfl, rfl, .cons hleft (.single hread)⟩
    obtain ⟨n⟩ := right
    cases n with
    | pin v =>
      obtain ⟨values, added, rfl, hadded, -, rfl, rfl⟩ := yields_bindCollection hright
      have hany := memberType_pin hmember
      exact .inr (.inl ⟨left, values, left', rs, added, rfl, hany ▸ hleft, hadded, rfl, rfl⟩)
    | _ => exact .inr (.inr ⟨trivial, hother trivial (.bound text hright)⟩)
  | list items => exact .inr (.inr ⟨trivial, reads_list h⟩)
  | _ => ?_
  all_goals rw [bindExpr_mk] at h
  case pin v =>
    obtain ⟨p, htype, hstores, ha, hqs⟩ := yields_bindValue h
    exact .inl ⟨v, p, rfl, htype, hstores, ha, hqs⟩
  case dynamic | keywords => exact absurd h yields_throw
  case not | typed | selectedAs =>
    obtain ⟨a', rs, ha, hrest⟩ := yields_bind.mp h
    obtain ⟨rfl, rfl⟩ := yields_pure.mp hrest
    exact .inr (.inr ⟨trivial, _, _, rfl, rfl, rfl, .single (.bound text ha)⟩)
  all_goals
    obtain ⟨m, rs, hm, hrest⟩ := yields_bind.mp h
    obtain ⟨rfl, rfl⟩ := yields_pure.mp hrest
    obtain ⟨hshape, hreads⟩ := reads_uniform hm
    exact .inr (.inr ⟨trivial, _, m, rfl, rfl, hshape, hreads⟩)

/-- What reading a node does, apart from the values that the parameters hold. -/
theorem reads_cases {n : Node Expr} {expected : FieldType} {a : Expr}
    (h : s.Reads ⟨n⟩ expected ps a qs) :
    (∃ (v : Value) (p : BoundParameter), n = .pin v ∧ p.type = expected ∧
      p.clause = s.site.clause ∧ a = .param ps.length ∧ qs = ps ++ [p]) ∨
    (∃ (left : Expr) (values : List Value) (left' : Expr) (rs added : List BoundParameter),
      n = .isIn left (.pin (.list values)) ∧ s.Reads left .any ps left' rs ∧
      added.length = values.length ∧ a = .isIn left' (.paramRange rs.length values.length) ∧
      qs = rs ++ added) ∨
    n.Plain ∧ s.HandsDown n expected ps a qs := by
  refine (reads_stores h).imp ?_ (Or.imp_left ?_)
  · rintro ⟨v, p, hn, htype, hstores, ha, hqs⟩
    exact ⟨v, p, hn, htype, hstores.1, ha, hqs⟩
  · rintro ⟨left, values, left', rs, added, hn, hleft, hadded, ha, hqs⟩
    have hlength : added.length = values.length := by simpa using hadded.length_eq.symm
    exact ⟨left, values, left', rs, added, hn, hleft, hlength, ha, hqs⟩

end Scope

end QueryPlanner
