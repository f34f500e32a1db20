import QueryPlanner.Proofs.Conversion.Builtin
import QueryPlanner.Proofs.Normal.References
import QueryPlanner.Proofs.Plan.Readable
import QueryPlanner.Proofs.Plan.Related

/-!
# Interpolating compared literals

A literal that is compared with a stored field of a built-in type may as well be interpolated.  This
changes no type that is inferred, and no type that is handed down to what was interpolated already:
a side that held no interpolation was asked for no type, and one that did is asked for the same.

* `Expr.Interpolated` — an expression with some of these literals interpolated
* `Scope.infer_interpolated` — the inferred type stays
* `Scope.typedChildren_interpolated` — types are handed down to the children as before
-/

namespace QueryPlanner

open Binder

variable {ctx : Context} {sources : List BoundSource}

/-! ### The relation -/

/-- An expression and what becomes of it when literals that are compared with stored fields of
built-in types, on either side of the comparison, are interpolated. -/
inductive Expr.Interpolated (ctx : Context) (sources : List BoundSource) : Expr → Expr → Prop
  /-- A node, each of its children beside what becomes of it. -/
  | node (n : Node (Expr × Expr))
    (children : ∀ c ∈ n.children, Interpolated ctx sources c.1 c.2) :
    Interpolated ctx sources ⟨n.map (·.1)⟩ ⟨n.map (·.2)⟩
  | right {op : BinaryOp} {ix : Nat} {name : String} {type : FieldType} {v : Value}
    (comparison : op.isComparison = true)
    (typed : ctx.typeAt? sources ix name = some (some type))
    (builtin : type.Builtin ctx.conversions) (value : v ≠ .null) :
    Interpolated ctx sources (.binary op (.field ix name) (.literal v))
      (.binary op (.field ix name) (.pin v))
  | left {op : BinaryOp} {ix : Nat} {name : String} {type : FieldType} {v : Value}
    (comparison : op.isComparison = true)
    (typed : ctx.typeAt? sources ix name = some (some type))
    (builtin : type.Builtin ctx.conversions) (value : v ≠ .null) :
    Interpolated ctx sources (.binary op (.literal v) (.field ix name))
      (.binary op (.pin v) (.field ix name))

namespace Expr.Interpolated

variable {e e' : Expr}

theorem refl (e : Expr) : e.Interpolated ctx sources e := by
  refine Expr.induction (P := fun e => e.Interpolated ctx sources e) ?_ e
  intro n ih
  have hmap : (n.map fun c => (c, c)).map (·.1) = n := (Node.map_map _ _ n).trans (Node.map_id n)
  have hmap' : (n.map fun c => (c, c)).map (·.2) = n := (Node.map_map _ _ n).trans (Node.map_id n)
  have hnode : Expr.Interpolated ctx sources _ _ := node (n.map fun c => (c, c)) fun c hc => by
    rw [Node.children_map] at hc
    obtain ⟨child, hchild, rfl⟩ := List.mem_map.mp hc
    exact ih child hchild
  rwa [hmap, hmap'] at hnode

/-- Conditions may be written out and joined before literals are interpolated, or after. -/
theorem compatible : Expr.Compatible (Interpolated ctx sources) where
  refl := refl
  opened ix e e' h := by
    cases h with
    | node n children =>
      cases n with
      | dynamic inner => exact children inner (List.mem_singleton_self inner)
      | keywords pairs => exact refl _
      | _ => exact .node _ children
    | right comparison typed builtin value => exact .right comparison typed builtin value
    | left comparison typed builtin value => exact .left comparison typed builtin value
  and left left' right right' hleft hright := by
    refine node (.binary .and (left, left') (right, right')) fun c hc => ?_
    simp only [Node.children, List.mem_cons, List.not_mem_nil, or_false] at hc
    rcases hc with rfl | rfl
    · exact hleft
    · exact hright

/-- Only an interpolated value becomes one. -/
theorem eq_pin {v : Value} (h : e.Interpolated ctx sources (.pin v)) : e = .pin v := by
  generalize hp : Expr.pin v = p at h
  cases h with
  | node n children =>
    cases n with
    | pin value => rfl
    | _ => cases congrArg Expr.node hp
  | right | left => cases congrArg Expr.node hp

theorem of_pin {v : Value} (h : (Expr.pin v).Interpolated ctx sources e') : e' = .pin v := by
  generalize hp : Expr.pin v = p at h
  cases h with
  | node n children =>
    cases n with
    | pin value => rfl
    | _ => cases congrArg Expr.node hp
  | right | left => cases congrArg Expr.node hp

/-- What is interpolated stays so. -/
theorem hasPin_of_hasPin (h : e.Interpolated ctx sources e') (hpin : e.hasPin = true) :
    e'.hasPin = true := by
  induction h with
  | node n children ih =>
    have hown : isPin ⟨n.map (·.2)⟩ = isPin ⟨n.map (·.1)⟩ := by cases n <;> rfl
    rw [hasPin_mk, Bool.or_eq_true, Node.children_map, List.any_map, List.any_eq_true] at hpin ⊢
    rw [hown]
    exact hpin.imp_right fun ⟨c, hc, hpin⟩ => ⟨c, hc, ih c hc hpin⟩
  | right | left => simp [hasPin_mk, isPin, Node.children] at hpin

end Expr.Interpolated

theorem Node.plain_isIn {left right : Expr} :
    (Node.isIn left right).Plain ↔ ∀ v, right ≠ .pin v := by
  obtain ⟨n⟩ := right
  cases n <;> simp [Plain]

/-! ### Types -/

namespace Scope

variable {s : Scope} {e e' : Expr}

theorem infer_interpolated (h : e.Interpolated ctx sources e') : s.infer e' = s.infer e := by
  induction h with
  | node n _ ih =>
    rw [infer_mk, infer_mk, Node.map_map, Node.map_map]
    cases n with
    | selectedAs inner name => exact ih inner (List.mem_singleton_self inner)
    | binary op left right =>
      have hleft := ih left List.mem_cons_self
      have hright := ih right (List.mem_cons_of_mem _ List.mem_cons_self)
      simp only [Node.map, inferNode, Function.comp_apply, hleft, hright]
    | _ => rfl
  | @right op _ _ _ _ comparison | @left op _ _ _ _ comparison =>
    have harithmetic : op.isArithmetic = false := by
      cases op <;> first | rfl | cases comparison
    rw [infer_mk, infer_mk]
    simp [Node.map, inferNode, harithmetic]

/-- The type that a side is asked for is the same, or there is nothing interpolated in the side that
it would matter to. -/
theorem toOption_asked {side side' : Expr} {x : Except PlanError FieldType}
    {f f' : FieldType → FieldType} {type : FieldType} (hside : side.Interpolated ctx sources side')
    (hknown : side' = side ∨ ∃ t, x = .ok t) (hf : f' = f ∨ side.hasPin = false)
    (h : (if side.hasPin then x >>= fun t => .ok (f t) else .ok .any).toOption = some type) :
    ∃ type', (if side'.hasPin then x >>= fun t => .ok (f' t) else .ok .any).toOption = some type' ∧
      (type' = type ∨ side.hasPin = false) := by
  cases hpin : side.hasPin with
  | true =>
    obtain rfl : f' = f := hf.resolve_right (by simp [hpin])
    rw [hside.hasPin_of_hasPin hpin]
    rw [hpin] at h
    exact ⟨type, h, .inl rfl⟩
  | false =>
    cases hpin' : side'.hasPin with
    | false => exact ⟨.any, rfl, .inr rfl⟩
    | true =>
      obtain ⟨t, rfl⟩ := hknown.resolve_left fun heq => by simp [heq, hpin] at hpin'
      exact ⟨f' t, rfl, .inr rfl⟩

theorem operandType_interpolated {side side' other other' : Expr}
    {fallback fallback' type : FieldType}
    (hside : side.Interpolated ctx sources side') (hother : other.Interpolated ctx sources other')
    (hknown : side' = side ∨ ∃ t, s.infer other = .ok t)
    (hfallback : fallback' = fallback ∨ side.hasPin = false)
    (h : (s.operandType side other fallback).toOption = some type) :
    ∃ type', (s.operandType side' other' fallback').toOption = some type' ∧
      (type' = type ∨ side.hasPin = false) := by
  unfold operandType at h ⊢
  rw [infer_interpolated hother]
  exact toOption_asked hside hknown (hfallback.imp_left fun heq => by rw [heq]) h

theorem elementType_interpolated {left left' right right' : Expr} {type : FieldType}
    (hleft : left.Interpolated ctx sources left') (hright : right.Interpolated ctx sources right')
    (hknown : right' = right ∨ ∃ t, s.infer left = .ok t)
    (h : (s.elementType left right).toOption = some type) :
    ∃ type', (s.elementType left' right').toOption = some type' ∧
      (type' = type ∨ right.hasPin = false) := by
  have hbind : ∀ x : Except PlanError FieldType, (x >>= fun t => .ok t) = x := bind_pure
  unfold elementType at h ⊢
  rw [infer_interpolated hleft, ← hbind (s.infer left)]
  rw [← hbind (s.infer left)] at h
  exact toOption_asked hright hknown (.inl rfl) h

theorem memberType_interpolated {left left' right right' : Expr} {type : FieldType}
    (hleft : left.Interpolated ctx sources left') (hright : right.Interpolated ctx sources right')
    (hknown : left' = left ∨ ∃ t, s.infer right = .ok t)
    (h : (s.memberType left right).toOption = some type) :
    ∃ type', (s.memberType left' right').toOption = some type' ∧
      (type' = type ∨ left.hasPin = false) := by
  unfold memberType at h ⊢
  rw [infer_interpolated hright]
  exact toOption_asked hleft hknown (.inl rfl) h

theorem collectionType_interpolated (element : FieldType) (h : e.Interpolated ctx sources e') :
    collectionType element e' = collectionType element e := by
  cases h with
  | node n _ => cases n <;> rfl
  | right | left => rfl

/-- The types that an operator hands down to its operands stay, or there is nothing interpolated
that they would matter to. -/
theorem operandTypes_interpolated {op : BinaryOp} {left left' right right' : Expr}
    {expected expected' : FieldType} {types : FieldType × FieldType}
    (hleft : left.Interpolated ctx sources left') (hright : right.Interpolated ctx sources right')
    (hknown : (left' = left ∧ right' = right) ∨
      (∃ t, s.infer left = .ok t) ∧ ∃ t, s.infer right = .ok t)
    (hexpected : expected' = expected ∨ left.hasPin = false ∧ right.hasPin = false)
    (h : (s.operandTypes op left right expected).toOption = some types) :
    ∃ types', (s.operandTypes op left' right' expected').toOption = some types' ∧
      (types'.1 = types.1 ∨ left.hasPin = false) ∧ (types'.2 = types.2 ∨ right.hasPin = false) := by
  unfold operandTypes at h ⊢
  cases hlogical : op.isLogical with
  | true =>
    simp only [hlogical, if_true] at h
    cases h
    exact ⟨(.boolean, .boolean), rfl, .inl rfl, .inl rfl⟩
  | false =>
    simp only [hlogical, Bool.false_eq_true, if_false, Except.toOption_bind] at h ⊢
    obtain ⟨leftType, hleftType, h⟩ := Option.bind_eq_some_iff.mp h
    obtain ⟨rightType, hrightType, h⟩ := Option.bind_eq_some_iff.mp h
    cases h
    have hfallback : ∀ {side : Expr}, expected' = expected ∨ side.hasPin = false →
        (if op.isArithmetic then expected' else .any) =
          (if op.isArithmetic then expected else FieldType.any) ∨ side.hasPin = false :=
      fun h => h.imp_left fun heq => by rw [heq]
    obtain ⟨leftType', hleftType', hl⟩ := operandType_interpolated hleft hright
      (hknown.imp And.left And.right) (hfallback (hexpected.imp_right And.left)) hleftType
    obtain ⟨rightType', hrightType', hr⟩ := operandType_interpolated hright hleft
      (hknown.imp And.right And.left) (hfallback (hexpected.imp_right And.right)) hrightType
    refine ⟨(leftType', rightType'), ?_, hl, hr⟩
    rw [hleftType', Option.bind_some, hrightType', Option.bind_some]
    rfl

/-- A child as it was, with the type that it was handed, and what becomes of both: the type stays,
or there is nothing interpolated in the child that it would matter to. -/
def Handed (n : Node (Expr × Expr)) (cs : List (Expr × FieldType)) (c' : Expr × FieldType) : Prop :=
  ∃ c ∈ cs, (c.1, c'.1) ∈ n.children ∧ (c'.2 = c.2 ∨ c.1.hasPin = false)

/-- **Types are handed down as before.** -/
theorem typedChildren_interpolated {n : Node (Expr × Expr)} {expected expected' : FieldType}
    {cs : List (Expr × FieldType)}
    (hchildren : ∀ c ∈ n.children, c.1.Interpolated ctx sources c.2)
    (hknown : (∀ c ∈ n.children, c.2 = c.1) ∨ ∀ c ∈ n.children, ∃ t, s.infer c.1 = .ok t)
    (hexpected : expected' = expected ∨ ∀ c ∈ n.children, c.1.hasPin = false)
    (h : s.typedChildren (n.map (·.1)) expected = some cs) :
    ∃ cs', s.typedChildren (n.map (·.2)) expected' = some cs' ∧ ∀ c' ∈ cs', Handed n cs c' := by
  have hplain : ∀ m : Node (Expr × Expr),
      ∀ c' ∈ (m.map (·.2)).children.map fun child => (child, FieldType.any),
        Handed m ((m.map (·.1)).children.map fun child => (child, .any)) c' := by
    intro m c' hc'
    rw [Node.children_map, List.map_map] at hc'
    obtain ⟨c, hc, rfl⟩ := List.mem_map.mp hc'
    refine ⟨(c.1, .any), ?_, hc, .inl rfl⟩
    rw [Node.children_map, List.map_map]
    exact List.mem_map_of_mem hc
  cases n with
  | binary op left right =>
    have hl : left ∈ (Node.binary op left right).children := List.mem_cons_self
    have hr : right ∈ (Node.binary op left right).children :=
      List.mem_cons_of_mem _ List.mem_cons_self
    obtain ⟨types, htypes, rfl⟩ := Option.map_eq_some_iff.mp h
    obtain ⟨types', htypes', hleft, hright⟩ := operandTypes_interpolated (hchildren left hl)
      (hchildren right hr) (hknown.imp (fun h => ⟨h left hl, h right hr⟩)
        fun h => ⟨h left hl, h right hr⟩)
      (hexpected.imp_right fun h => ⟨h left hl, h right hr⟩) htypes
    refine ⟨_, Option.map_eq_some_iff.mpr ⟨types', htypes', rfl⟩, fun c' hc' => ?_⟩
    simp only [List.mem_cons, List.not_mem_nil, or_false] at hc'
    rcases hc' with rfl | rfl
    · exact ⟨_, List.mem_cons_self, hl, hleft⟩
    · exact ⟨_, List.mem_cons_of_mem _ List.mem_cons_self, hr, hright⟩
  | isIn left right =>
    have hl : left ∈ (Node.isIn left right).children := List.mem_cons_self
    have hr : right ∈ (Node.isIn left right).children := List.mem_cons_of_mem _ List.mem_cons_self
    obtain ⟨element, helement, h⟩ := Option.bind_eq_some_iff.mp h
    obtain ⟨leftType, hleftType, rfl⟩ := Option.map_eq_some_iff.mp h
    obtain ⟨element', helement', hright⟩ := elementType_interpolated (hchildren left hl)
      (hchildren right hr) (hknown.imp (fun h => h right hr) fun h => h left hl) helement
    obtain ⟨leftType', hleftType', hleft⟩ := memberType_interpolated (hchildren left hl)
      (hchildren right hr) (hknown.imp (fun h => h left hl) fun h => h right hr) hleftType
    refine ⟨_, Option.bind_eq_some_iff.mpr ⟨element', helement',
      Option.map_eq_some_iff.mpr ⟨leftType', hleftType', rfl⟩⟩, fun c' hc' => ?_⟩
    simp only [List.mem_cons, List.not_mem_nil, or_false] at hc'
    rcases hc' with rfl | rfl
    · exact ⟨_, List.mem_cons_self, hl, hleft⟩
    · refine ⟨_, List.mem_cons_of_mem _ List.mem_cons_self, hr, hright.imp_left fun heq => ?_⟩
      rw [heq]
      exact collectionType_interpolated element (hchildren right hr)
  | not inner | typed inner type =>
    cases h
    refine ⟨_, rfl, fun c' hc' => ?_⟩
    rw [List.mem_singleton.mp hc']
    exact ⟨_, List.mem_singleton_self _, List.mem_singleton_self inner, .inl rfl⟩
  | selectedAs inner name =>
    cases h
    refine ⟨_, rfl, fun c' hc' => ?_⟩
    rw [List.mem_singleton.mp hc']
    exact ⟨_, List.mem_singleton_self _, List.mem_singleton_self inner,
      hexpected.imp_right fun h => h inner (List.mem_singleton_self inner)⟩
  | list items =>
    cases h
    refine ⟨_, rfl, fun c' hc' => ?_⟩
    rw [List.map_map] at hc'
    obtain ⟨item, hitem, rfl⟩ := List.mem_map.mp hc'
    refine ⟨_, List.mem_map_of_mem (List.mem_map_of_mem hitem), hitem, ?_⟩
    refine hexpected.imp (fun heq => ?_) fun h => h item hitem
    subst heq
    rfl
  | _ =>
    cases h
    exact ⟨_, rfl, hplain _⟩

end Scope

end QueryPlanner
