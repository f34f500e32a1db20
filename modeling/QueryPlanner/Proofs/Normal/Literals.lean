import QueryPlanner.Proofs.Normal.Interpolated
import QueryPlanner.Proofs.Plan.Appends

/-!
# What interpolating a compared literal binds

An expression that is read and passes the check is read with compared literals interpolated as well:
each value is read with the type of the field, and what can be stored can be cast.  The literal then
comes out of the check in the form in which the parameter holds the value.

* `Scope.readable_interpolated` — the expression with literals interpolated can be read
* `Expr.at?` — the expression at a place of an expression
* `References.interpolated_values` — a literal and its interpolation have one stored form
-/

namespace QueryPlanner

open Binder

variable {ctx : Context} {sources : List BoundSource}

/-! ### Reading -/

namespace Scope

variable {s : Scope} {ps qs : List BoundParameter}

/-- A leaf that is no interpolation is read as it is. -/
theorem reads_leaf {e a : Expr} {expected : FieldType} (hplain : e.node.Plain)
    (hleaf : e.node.children = []) (h : s.Reads e expected ps a qs) : a = e := by
  obtain ⟨n⟩ := e
  rcases reads_cases h with
    ⟨v, p, rfl, -⟩ | ⟨left, values, left', rs, added, rfl, -⟩ | ⟨-, cs, m, hcs, rfl, hshape, hreads⟩
  · cases hplain
  · cases hplain
  · obtain rfl : cs = [] := List.map_eq_nil_iff.mp ((children_of_typedChildren hcs).trans hleaf)
    generalize hm : m.children = children at hreads
    cases hreads with
    | nil => exact congrArg Expr.mk (Node.ext_children hshape (hm.trans hleaf.symm))

/-- A node of leaves that are no interpolations is read as it is. -/
theorem reads_leaves {n : Node Expr} {expected : FieldType} {a : Expr} (hplain : n.Plain)
    (hleaves : ∀ c ∈ n.children, c.node.Plain ∧ c.node.children = [])
    (h : s.Reads ⟨n⟩ expected ps a qs) : a = ⟨n⟩ := by
  rcases reads_cases h with
    ⟨v, p, rfl, -⟩ | ⟨left, values, left', rs, added, rfl, -⟩ | ⟨-, cs, m, hcs, rfl, hshape, hreads⟩
  · cases hplain
  · cases hplain
  · have hcs' := children_of_typedChildren hcs
    have hsame := (hreads.mono (S := fun c _ y _ => c.1 = y) fun c hc ps y qs hread => by
      obtain ⟨hleaf, hnone⟩ := hleaves c.1 (hcs' ▸ List.mem_map_of_mem hc)
      exact (reads_leaf hleaf hnone hread).symm).forall₂
    have hchildren := List.map_eq_of_forall₂ (u := (·.1)) (v := id)
      (hsame.imp fun _ _ ⟨_, _, heq⟩ => heq)
    rw [hcs', List.map_id] at hchildren
    exact congrArg Expr.mk (Node.ext_children hshape hchildren.symm)

/-- What is read compares nothing with an interpolated null. -/
theorem reads_unrefused {n : Node Expr} {expected : FieldType} {a : Expr}
    (h : s.Reads ⟨n⟩ expected ps a qs) : n.Unrefused := by
  generalize he : Expr.mk n = e at h
  cases h with
  | both =>
    obtain rfl := congrArg Expr.node he
    exact fun hop => nomatch hop
  | bound text h =>
    obtain rfl := he
    cases n with
    | binary op left right =>
      intro hop
      rw [bindExpr_mk] at h
      obtain ⟨⟨leftType, rightType⟩, -, h⟩ := yields_lift_bind.mp h
      simp only [hop, if_true] at h
      obtain ⟨_, hleft, h⟩ := yields_lift_bind.mp h
      obtain ⟨_, hright, -⟩ := yields_lift_bind.mp h
      constructor
      · rintro rfl
        cases hleft
      · rintro rfl
        cases hright
    | _ => trivial

/-- A value that a parameter stores is accepted as the type of the parameter. -/
theorem accepts_of_stores {given : Value × Clause} {p : BoundParameter}
    (h : p.Stores s.ctx.conversions given) : s.Accepts p.type given.1 := by
  obtain ⟨-, logical, hcast, hdump⟩ := h
  exact ⟨logical, p.value, hcast, hdump⟩

/-- The values of a collection that is bound are accepted. -/
theorem accepts_of_bindValues {values : List Value} {type : FieldType} {as : List Expr}
    (h : Yields (values.mapM fun v => s.bindValue v type) ps as qs) :
    ∀ v ∈ values, s.Accepts type v := by
  have hchain := h.chain
  clear h
  induction hchain with
  | nil => exact fun v hv => nomatch hv
  | cons head _ ih =>
    obtain ⟨p, rfl, hp, -⟩ := yields_bindValue head
    exact List.forall_mem_cons.mpr ⟨accepts_of_stores hp, ih⟩

/-- A membership test of an interpolated collection has an element type that all values have. -/
theorem reads_collection {left a : Expr} {values : List Value} {expected : FieldType}
    (h : s.Reads (.isIn left (.pin (.list values))) expected ps a qs) :
    ∃ element left' right' rs, (s.elementType left (.pin (.list values))).toOption = some element ∧
      (∀ v ∈ values, s.Accepts element v) ∧ s.Reads left .any ps left' rs ∧
      a = .isIn left' right' := by
  generalize he : Expr.isIn left (.pin (.list values)) = e at h
  cases h with
  | both => cases congrArg Expr.node he
  | bound text h =>
    obtain rfl := he
    obtain ⟨element, leftType, left', rs, right', -, helement, hmember, hleft, hright, rfl⟩ :=
      reads_isIn h
    obtain ⟨start, us, hstart, hvalues⟩ := yields_bind.mp hright
    obtain ⟨as, vs, hvalues, -⟩ := yields_bind.mp hvalues
    have haccepts := accepts_of_bindValues (s := s.showing text) hvalues
    exact ⟨element, left', right', rs, helement, haccepts, memberType_pin hmember ▸ hleft, rfl⟩

end Scope

/-! ### What passes the check -/

namespace References

variable {r : References} {ps qs : List BoundParameter}

/-- The scope of a clause with the sources that names refer to, apart from messages. -/
def scope (r : References) (clause : Clause) : Scope := ⟨r.ctx, r.sources, ⟨clause, ""⟩⟩

/-- A field that the check finds has the type that its values are read with. -/
theorem fieldType_of_typeAt? {clause : Clause} {ix : Nat} {name : String} {type : Option FieldType}
    (h : r.ctx.typeAt? r.sources ix name = some type) :
    (r.scope clause).fieldType ix name = .ok (type.getD .any) := by
  have hscope : (r.scope clause).sources = r.sources ∧ (r.scope clause).ctx = r.ctx := ⟨rfl, rfl⟩
  cases type with
  | none =>
    obtain ⟨source, hsource, hschema⟩ := Context.typeAt?_eq_some_none.mp h
    unfold Scope.fieldType
    rw [hscope.1, hsource]
    simp only [hschema]
    rfl
  | some type =>
    obtain ⟨source, field, hsource, hfield, rfl⟩ := Context.typeAt?_eq_some_some.mp h
    unfold Scope.fieldType
    rw [hscope.1, hscope.2, hsource]
    obtain ⟨schemaName, hname, hfield⟩ := Option.bind_eq_some_iff.mp hfield
    obtain ⟨schema, hschema, hfield⟩ := Option.bind_eq_some_iff.mp hfield
    obtain ⟨declared, hdeclared, hfield⟩ := Option.bind_eq_some_iff.mp hfield
    obtain rfl : declared = field := by
      cases hvirtual : declared.isVirtual <;> simp_all
    simp [hname, Context.schema, hschema, hdeclared, bind, Except.bind]

/-- The children of what is read and passes the check are read and pass it, but for those that are
interpolated. -/
theorem children_of_passes {clause : Clause} {n : Node Expr} {expected : FieldType} {a : Expr}
    (h : (r.scope clause).Reads ⟨n⟩ expected ps a qs) (hpasses : r.Passes a) {c : Expr}
    (hc : c ∈ n.children) : (∃ v, c = .pin v) ∨
      ∃ type rs a' ts, (r.scope clause).Reads c type rs a' ts ∧ r.Passes a' := by
  by_cases hpin : ∃ v, c = .pin v
  · exact .inl hpin
  · obtain ⟨i, hi⟩ := List.mem_iff_getElem?.mp hc
    obtain ⟨type, rs, a', ts, hread, ha', -⟩ :=
      Scope.reads_child h hi fun v hv => hpin ⟨v, hv⟩
    obtain ⟨m⟩ := a
    exact .inr ⟨type, rs, a', ts, hread, (passes_mk.mp hpasses).2 a' (List.mem_of_getElem? ha')⟩

/-- **What is read and passes the check has a type.** -/
theorem infer_of_passes {clause : Clause} (e : Expr) : ∀ {expected : FieldType} {ps a qs},
    (r.scope clause).Reads e expected ps a qs → r.Passes a →
      ∃ type, (r.scope clause).infer e = .ok type := by
  refine Expr.induction (P := fun e => ∀ {expected : FieldType} {ps a qs},
    (r.scope clause).Reads e expected ps a qs → r.Passes a →
      ∃ type, (r.scope clause).infer e = .ok type) ?_ e
  intro n ih expected ps a qs h hpasses
  have hchild : ∀ c ∈ n.children, ∃ type, (r.scope clause).infer c = .ok type := by
    intro c hc
    rcases children_of_passes h hpasses hc with ⟨v, rfl⟩ | ⟨type, rs, a', ts, hread, ha'⟩
    · exact ⟨.any, Scope.infer_mk _⟩
    · exact ih c hc hread ha'
  rw [Scope.infer_mk]
  cases n with
  | field ix name =>
    obtain rfl := Scope.reads_leaf (e := .field ix name) trivial rfl h
    have hfound : (r.ctx.typeAt? r.sources ix name).isSome = true := (passes_mk.mp hpasses).1.1
    obtain ⟨type, htype⟩ := Option.isSome_iff_exists.mp hfound
    exact ⟨_, fieldType_of_typeAt? htype⟩
  | selectedAs inner name => exact hchild inner (List.mem_singleton_self inner)
  | binary op left right =>
    obtain ⟨leftType, hleft⟩ := hchild left List.mem_cons_self
    obtain ⟨rightType, hright⟩ := hchild right (List.mem_cons_of_mem _ List.mem_cons_self)
    simp only [Node.map, Scope.inferNode, hleft, hright]
    cases op.isArithmetic with
    | false => exact ⟨_, rfl⟩
    | true => cases hany : leftType.isAny <;> simp [bind, Except.bind, hany]
  | _ => exact ⟨_, rfl⟩

/-- So do its children. -/
theorem infer_of_child {clause : Clause} {n : Node Expr} {expected : FieldType} {a : Expr}
    (h : (r.scope clause).Reads ⟨n⟩ expected ps a qs) (hpasses : r.Passes a) {c : Expr}
    (hc : c ∈ n.children) : ∃ type, (r.scope clause).infer c = .ok type := by
  rcases children_of_passes h hpasses hc with ⟨v, rfl⟩ | ⟨type, rs, a', ts, hread, ha'⟩
  · exact ⟨.any, Scope.infer_mk _⟩
  · exact infer_of_passes c hread ha'

end References

/-! ### Reading with literals interpolated -/

namespace Scope

variable {r : References} {clause : Clause} {e e' : Expr}

/-- A node that is plain, or compares nothing with null, stays so. -/
theorem plain_interpolated {n : Node (Expr × Expr)}
    (hchildren : ∀ c ∈ n.children, c.1.Interpolated ctx sources c.2)
    (hplain : (n.map (·.1)).Plain) (hunrefused : (n.map (·.1)).Unrefused) :
    (n.map (·.2)).Plain ∧ (n.map (·.2)).Unrefused := by
  have hpin : ∀ c ∈ n.children, ∀ v, c.2 = .pin v → c.1 = .pin v :=
    fun c hc v hv => (hv ▸ hchildren c hc : c.1.Interpolated ctx sources (.pin v)).eq_pin
  cases n with
  | isIn left right =>
    refine ⟨Node.plain_isIn.mpr fun v hv => ?_, trivial⟩
    exact Node.plain_isIn.mp hplain v (hpin right (List.mem_cons_of_mem _ List.mem_cons_self) v hv)
  | binary op left right =>
    refine ⟨trivial, fun hop => ?_⟩
    obtain ⟨hleft, hright⟩ := hunrefused hop
    exact ⟨fun hnull => hleft (hpin left List.mem_cons_self _ hnull),
      fun hnull => hright (hpin right (List.mem_cons_of_mem _ List.mem_cons_self) _ hnull)⟩
  | _ => exact ⟨hplain, trivial⟩

/-- A literal that passes the check beside a stored field of a built-in type is accepted as a value
of this type. -/
theorem accepts_of_passes {ix : Nat} {name : String} {type : FieldType} {v : Value}
    (typed : r.ctx.typeAt? r.sources ix name = some (some type))
    (builtin : type.Builtin r.ctx.conversions)
    (stored : Comparison.Stored r.ctx r.sources ⟨ix, name, v⟩) :
    (r.scope clause).Accepts type v := by
  obtain ⟨d, hd⟩ := (Comparison.stored_of_typeAt? typed).mp stored
  obtain ⟨logical, hcast, hdump⟩ := builtin.cast_of_dump hd
  exact ⟨logical, d, hcast, hdump⟩

/-- Opposite a stored field, an interpolated value is read with the type of the field. -/
theorem typedChildren_compared {op : BinaryOp} {ix : Nat} {name : String} {type : FieldType}
    (comparison : op.isComparison = true)
    (typed : r.ctx.typeAt? r.sources ix name = some (some type)) (v : Value)
    (expected : FieldType) :
    (r.scope clause).typedChildren (.binary op (.field ix name) (.pin v)) expected =
        some [(.field ix name, .any), (.pin v, type)] ∧
      (r.scope clause).typedChildren (.binary op (.pin v) (.field ix name)) expected =
        some [(.pin v, type), (.field ix name, .any)] := by
  have htypes := operandTypes_pin (s := r.scope clause) comparison ix name v expected
  rw [References.fieldType_of_typeAt? typed] at htypes
  constructor
  · rw [typedChildren, htypes.1]
    rfl
  · rw [typedChildren, htypes.2]
    rfl

theorem readable_field {s : Scope} (ix : Nat) (name : String) :
    s.Readable (.field ix name) .any :=
  .node (n := .field ix name) trivial trivial rfl fun _ hc => nomatch hc

theorem field_ne_pin {ix : Nat} {name : String} {v : Value} : Expr.field ix name ≠ .pin v :=
  fun h => nomatch congrArg Expr.node h

theorem pin_ne_null {v : Value} (hv : v ≠ .null) : Expr.pin v ≠ .pin .null :=
  fun h => hv (Node.pin.inj (congrArg Expr.node h))

/-- **What is read and passes the check can be read with literals interpolated.** -/
theorem readable_interpolated (h : e.Interpolated r.ctx r.sources e') :
    ∀ {expected expected' : FieldType} {ps a qs}, (r.scope clause).Reads e expected ps a qs →
      (e' = e ∨ r.Passes a) → (expected' = expected ∨ e.hasPin = false) →
        (r.scope clause).Readable e' expected' := by
  induction h with
  | node n children ih =>
    intro expected expected' ps a qs h hpasses hexpected
    have hsame : (⟨n.map (·.2)⟩ : Expr) = ⟨n.map (·.1)⟩ → ∀ c ∈ n.children, c.2 = c.1 := by
      intro heq
      have hchildren := congrArg (fun e : Expr => e.node.children) heq
      simp only [Node.children_map] at hchildren
      exact List.map_inj_left.mp hchildren
    rcases reads_stores h with
      ⟨v, p, hn, rfl, hstores, -⟩ | ⟨left, values, left', rs, added, hn, -⟩ |
      ⟨hplain, cs, m, hcs, rfl, hshape, hreads⟩
    · cases n with
      | pin value =>
        obtain rfl := Node.pin.inj hn
        obtain rfl := hexpected.resolve_right (by simp [Expr.hasPin_mk, Expr.isPin, Node.map])
        exact .pin (accepts_of_stores hstores)
      | _ => cases hn
    · cases n with
      | isIn l r =>
        obtain ⟨rfl, hright⟩ : l.1 = left ∧ r.1 = .pin (.list values) := Node.isIn.inj hn
        have hl : l ∈ (Node.isIn l r).children := List.mem_cons_self
        have hr := children r (List.mem_cons_of_mem _ List.mem_cons_self)
        have hright' : r.2 = .pin (.list values) := (hright ▸ hr).of_pin
        simp only [Node.map, hright] at h
        simp only [Node.map, hright']
        obtain ⟨element, left', right', rs, helement, haccepts, hside, rfl⟩ := reads_collection h
        refine .collection ?_ haccepts (ih l hl hside ?_ (.inl rfl))
        · rw [elementType, infer_interpolated (children l hl)]
          exact helement
        · exact hpasses.imp (fun heq => hsame heq l hl) fun hp =>
            (References.passes_mk.mp hp).2 left' List.mem_cons_self
      | _ => cases hn
    · have hchild : ∀ c ∈ cs, ∃ ps a qs, (r.scope clause).Reads c.1 c.2 ps a qs ∧
          a ∈ m.children := by
        intro c hc
        obtain ⟨i, hi⟩ := List.mem_iff_getElem?.mp hc
        obtain ⟨a, ha, ps, qs, hread⟩ := List.exists_getElem?_of_forall₂ hreads.forall₂ hi
        exact ⟨ps, a, qs, hread, List.mem_of_getElem? ha⟩
      have hknown : (∀ c ∈ n.children, c.2 = c.1) ∨
          ∀ c ∈ n.children, ∃ t, (r.scope clause).infer c.1 = .ok t := by
        refine hpasses.imp hsame fun hp c hc => ?_
        have hmem : c.1 ∈ (n.map (·.1)).children := Node.children_map _ n ▸ List.mem_map_of_mem hc
        exact References.infer_of_child h hp hmem
      have hpins : expected' = expected ∨ ∀ c ∈ n.children, c.1.hasPin = false := by
        refine hexpected.imp_right fun hnone c hc => ?_
        rw [Expr.hasPin_mk, Bool.or_eq_false_iff, List.any_eq_false] at hnone
        exact eq_false_of_ne_true (hnone.2 c.1 (Node.children_map _ n ▸ List.mem_map_of_mem hc))
      obtain ⟨cs', hcs', hhanded⟩ := typedChildren_interpolated children hknown hpins hcs
      obtain ⟨hplain', hunrefused⟩ := plain_interpolated children hplain (reads_unrefused h)
      refine .node hplain' hunrefused hcs' fun c' hc' => ?_
      obtain ⟨c, hc, hmem, htype⟩ := hhanded c' hc'
      obtain ⟨ps, a, qs, hread, ha⟩ := hchild c hc
      refine ih _ hmem hread ?_ htype
      exact hpasses.imp (fun heq => hsame heq _ hmem) fun hp => (References.passes_mk.mp hp).2 a ha
  | @right op ix name type v comparison typed builtin value =>
    intro expected expected' ps a qs h hpasses hexpected
    obtain rfl := reads_leaves (n := .binary op (.field ix name) (.literal v)) trivial
      (by simp [Node.children, Node.Plain]) h
    have hp : r.Passes _ := hpasses.resolve_left fun heq => by
      cases congrArg Expr.node heq
    have hstored := (References.passes_mk.mp hp).1.2 ⟨ix, name, v⟩
      (by simp [Node.comparisons, comparison, Expr.opposed])
    exact .node trivial (fun _ => ⟨field_ne_pin, pin_ne_null value⟩)
      (typedChildren_compared comparison typed v expected').1
      (List.forall_mem_cons.mpr ⟨readable_field ix name, List.forall_mem_singleton.mpr
        (.pin (accepts_of_passes typed builtin hstored))⟩)
  | @left op ix name type v comparison typed builtin value =>
    intro expected expected' ps a qs h hpasses hexpected
    obtain rfl := reads_leaves (n := .binary op (.literal v) (.field ix name)) trivial
      (by simp [Node.children, Node.Plain]) h
    have hp : r.Passes _ := hpasses.resolve_left fun heq => by
      cases congrArg Expr.node heq
    have hstored := (References.passes_mk.mp hp).1.2 ⟨ix, name, v⟩
      (by simp [Node.comparisons, comparison, Expr.opposed])
    exact .node trivial (fun _ => ⟨pin_ne_null value, field_ne_pin⟩)
      (typedChildren_compared comparison typed v expected').2
      (List.forall_mem_cons.mpr ⟨.pin (accepts_of_passes typed builtin hstored),
        List.forall_mem_singleton.mpr (readable_field ix name)⟩)

end Scope

/-! ### Values -/

/-- The expression at a place: which child to go to, step by step. -/
def Expr.at? (e : Expr) : List Nat → Option Expr
  | [] => some e
  | i :: path => e.node.children[i]?.bind fun c => c.at? path

namespace Expr

theorem at?_cons {e x : Expr} {i : Nat} {path : List Nat} :
    e.at? (i :: path) = some x ↔ ∃ c, e.node.children[i]? = some c ∧ c.at? path = some x :=
  Option.bind_eq_some_iff

/-- At a place of a leaf there is but the leaf. -/
theorem eq_of_at?_leaf {e x : Expr} (hleaf : e.node.children = []) {path : List Nat}
    (h : e.at? path = some x) : path = [] ∧ e = x := by
  cases path with
  | nil => exact ⟨rfl, Option.some.inj h⟩
  | cons i path =>
    obtain ⟨c, hc, -⟩ := at?_cons.mp h
    rw [hleaf] at hc
    cases hc

/-- A place in a comparison is the comparison itself or in one of its sides. -/
theorem at?_binary {op : BinaryOp} {left right x : Expr} {path : List Nat}
    (h : (Expr.binary op left right).at? path = some x) :
    x = .binary op left right ∨ (∃ rest, path = 0 :: rest ∧ left.at? rest = some x) ∨
      ∃ rest, path = 1 :: rest ∧ right.at? rest = some x := by
  match path, h with
  | [], h => exact .inl (Option.some.inj h).symm
  | 0 :: rest, h => exact .inr (.inl ⟨rest, rfl, h⟩)
  | 1 :: rest, h => exact .inr (.inr ⟨rest, rfl, h⟩)

/-- The children of a settled expression are its children, settled. -/
theorem settle_child (form : LiteralForm) {a c : Expr} {i : Nat}
    (h : a.node.children[i]? = some c) (opposite : Opposite) :
    ∃ opposite', (a.settle form opposite).node.children[i]? = some (c.settle form opposite') := by
  obtain ⟨n⟩ := a
  rw [← children_against opposite n, List.getElem?_map] at h
  obtain ⟨child, hchild, rfl⟩ := Option.map_eq_some_iff.mp h
  refine ⟨child.2, ?_⟩
  rw [settle_mk, Node.children_stored, Node.children_map, List.getElem?_map, hchild]
  rfl

end Expr

namespace References

variable {r : References} {clause : Clause} {ps qs : List BoundParameter} {ix : Nat} {name : String}
  {type : FieldType} {v d : Value}

/-- A literal beside a stored field passes in its stored form. -/
theorem passed_compared {op : BinaryOp} (comparison : op.isComparison = true)
    (typed : r.ctx.typeAt? r.sources ix name = some (some type))
    (hd : r.ctx.conversions.dump type v = .ok d) (opposite : Opposite) :
    (r.passed (.binary op (.field ix name) (.literal v)) opposite).at? [1] = some (.literal d) ∧
      (r.passed (.binary op (.literal v) (.field ix name)) opposite).at? [0] =
        some (.literal d) := by
  have hform := Context.literalForm_of_typeAt? v typed
  rw [hd] at hform
  have hliteral : r.passed (.literal v) (.operand (.field ix name)) = .literal d := by
    rw [passed, Expr.settle_mk]
    simp only [Node.against, Node.map, Node.stored, Expr.storedLiteral?, hform]
    rfl
  constructor <;>
  · rw [passed, Expr.settle_mk]
    simp only [Node.against, comparison, if_true]
    exact congrArg some hliteral

/-- A value that is read with a built-in type is bound in its stored form. -/
theorem value_of_reads {a : Expr} (builtin : type.Builtin r.ctx.conversions)
    (hd : r.ctx.conversions.dump type v = .ok d)
    (h : (r.scope clause).Reads (.pin v) type ps a qs) :
    ∃ p, a = .param ps.length ∧ qs = ps ++ [p] ∧ p.value = d := by
  rcases Scope.reads_stores h with
    ⟨w, p, hw, rfl, ⟨-, logical, hcast, hdump⟩, ha, hqs⟩ | ⟨_, _, _, _, _, hn, -⟩ | ⟨hplain, -⟩
  · obtain rfl := Node.pin.inj hw
    obtain ⟨logical', hcast', hdump'⟩ := builtin.cast_of_dump hd
    obtain rfl := Except.ok.inj (hcast.symm.trans hcast')
    exact ⟨p, ha, hqs, Except.ok.inj (hdump.symm.trans hdump')⟩
  · cases hn
  · cases hplain

/-- So it is as the child of a node that hands this type down. -/
theorem param_of_reads {n : Node Expr} {cs : List (Expr × FieldType)} {expected : FieldType}
    {a : Expr} {i : Nat} (hplain : n.Plain) (builtin : type.Builtin r.ctx.conversions)
    (hd : r.ctx.conversions.dump type v = .ok d) (h : (r.scope clause).Reads ⟨n⟩ expected ps a qs)
    (hcs : (r.scope clause).typedChildren n expected = some cs)
    (hi : cs[i]? = some (.pin v, type)) :
    ∃ k p, a.at? [i] = some (.param k) ∧ qs[k]? = some p ∧ p.value = d := by
  obtain ⟨rs, x, ts, hread, hx, hkept⟩ := Scope.reads_typedChild hplain h hcs hi
  obtain ⟨p, rfl, rfl, hvalue⟩ := value_of_reads builtin hd hread
  exact ⟨rs.length, p, Expr.at?_cons.mpr ⟨_, hx, rfl⟩,
    List.getElem?_of_prefix hkept (by simp), hvalue⟩

/-- **A literal and its interpolation have one stored form.**  Where an expression holds a literal
that is interpolated in another one, and the expression passes the check, the literal comes out as
the value of the parameter that is bound for it. -/
theorem interpolated_values {e e' : Expr} (h : e.Interpolated r.ctx r.sources e') :
    ∀ {path : List Nat} (opposite : Opposite) {v : Value} {expected ps a qs expected' ps' a' qs'},
      (r.scope clause).Reads e expected ps a qs → (r.scope clause).Reads e' expected' ps' a' qs' →
      r.Passes a → e.at? path = some (.literal v) → e'.at? path = some (.pin v) →
      ∃ d k p, (r.passed a opposite).at? path = some (.literal d) ∧
        a'.at? path = some (.param k) ∧ qs'[k]? = some p ∧ p.value = d := by
  induction h with
  | node n children ih =>
    intro path opposite v expected ps a qs expected' ps' a' qs' h h' hpasses hliteral hpin
    cases path with
    | nil =>
      have hn : n.map (·.1) = .literal v := congrArg Expr.node (Option.some.inj hliteral)
      have hn' : n.map (·.2) = .pin v := congrArg Expr.node (Option.some.inj hpin)
      cases n with
      | literal => cases hn'
      | _ => cases hn
    | cons i path =>
      obtain ⟨x, hx, hliteral⟩ := Expr.at?_cons.mp hliteral
      obtain ⟨x', hx', hpin⟩ := Expr.at?_cons.mp hpin
      rw [Node.children_map, List.getElem?_map] at hx hx'
      obtain ⟨c, hc, rfl⟩ := Option.map_eq_some_iff.mp hx
      obtain ⟨c', hc', rfl⟩ := Option.map_eq_some_iff.mp hx'
      obtain rfl := Option.some.inj (hc.symm.trans hc')
      have hmem := List.mem_of_getElem? hc
      -- where the original is a literal, neither child is interpolated as it stands
      have hplain : ∀ w, c.1 ≠ .pin w := by
        intro w hw
        obtain ⟨-, hleaf⟩ := Expr.eq_of_at?_leaf (by rw [hw]; rfl) hliteral
        cases congrArg Expr.node (hw.symm.trans hleaf)
      have hplain' : ∀ w, c.2 ≠ .pin w := fun w hw =>
        hplain w (hw ▸ children c hmem : c.1.Interpolated r.ctx r.sources (.pin w)).eq_pin
      have hi : (n.map (·.1)).children[i]? = some c.1 := by
        rw [Node.children_map, List.getElem?_map, hc]
        rfl
      have hi' : (n.map (·.2)).children[i]? = some c.2 := by
        rw [Node.children_map, List.getElem?_map, hc]
        rfl
      obtain ⟨type, rs, b, ts, hread, hb, -⟩ := Scope.reads_child h hi hplain
      obtain ⟨type', rs', b', ts', hread', hb', hkept⟩ := Scope.reads_child h' hi' hplain'
      obtain ⟨opposite', hsettled⟩ :=
        Expr.settle_child (Clauses.literalForm r.ctx r.sources) hb opposite
      have hpasses' : r.Passes b := by
        obtain ⟨m⟩ := a
        exact (passes_mk.mp hpasses).2 b (List.mem_of_getElem? hb)
      obtain ⟨d, k, p, hd, hk, hp, hvalue⟩ := ih c hmem opposite' hread hread' hpasses'
        hliteral hpin
      exact ⟨d, k, p, Expr.at?_cons.mpr ⟨_, hsettled, hd⟩, Expr.at?_cons.mpr ⟨_, hb', hk⟩,
        List.getElem?_of_prefix hkept hp, hvalue⟩
  | @right op ix name type v comparison typed builtin value =>
    intro path opposite w expected ps a qs expected' ps' a' qs' h h' hpasses hliteral hpin
    obtain rfl := Scope.reads_leaves (n := .binary op (.field ix name) (.literal v)) trivial
      (by simp [Node.children, Node.Plain]) h
    obtain rfl : path = [1] := by
      rcases Expr.at?_binary hliteral with heq | ⟨rest, rfl, hx⟩ | ⟨rest, rfl, hx⟩
      · cases congrArg Expr.node heq
      · cases congrArg Expr.node (Expr.eq_of_at?_leaf (e := .field ix name) rfl hx).2
      · rw [(Expr.eq_of_at?_leaf (e := .literal v) rfl hx).1]
    obtain ⟨d, hd⟩ := (Comparison.stored_of_typeAt? typed).mp <| (passes_mk.mp hpasses).1.2
      ⟨ix, name, v⟩ (by simp [Node.comparisons, comparison, Expr.opposed])
    obtain ⟨k, p, hk, hp, hvalue⟩ := param_of_reads (i := 1)
      (n := .binary op (.field ix name) (.pin v)) trivial builtin hd h'
      (Scope.typedChildren_compared comparison typed v expected').1 rfl
    exact ⟨d, k, p, (passed_compared comparison typed hd opposite).1, hk, hp, hvalue⟩
  | @left op ix name type v comparison typed builtin value =>
    intro path opposite w expected ps a qs expected' ps' a' qs' h h' hpasses hliteral hpin
    obtain rfl := Scope.reads_leaves (n := .binary op (.literal v) (.field ix name)) trivial
      (by simp [Node.children, Node.Plain]) h
    obtain rfl : path = [0] := by
      rcases Expr.at?_binary hliteral with heq | ⟨rest, rfl, hx⟩ | ⟨rest, rfl, hx⟩
      · cases congrArg Expr.node heq
      · rw [(Expr.eq_of_at?_leaf (e := .literal v) rfl hx).1]
      · cases congrArg Expr.node (Expr.eq_of_at?_leaf (e := .field ix name) rfl hx).2
    obtain ⟨d, hd⟩ := (Comparison.stored_of_typeAt? typed).mp <| (passes_mk.mp hpasses).1.2
      ⟨ix, name, v⟩ (by simp [Node.comparisons, comparison, Expr.opposed])
    obtain ⟨k, p, hk, hp, hvalue⟩ := param_of_reads (i := 0)
      (n := .binary op (.pin v) (.field ix name)) trivial builtin hd h'
      (Scope.typedChildren_compared comparison typed v expected').2 rfl
    exact ⟨d, k, p, (passed_compared comparison typed hd opposite).2, hk, hp, hvalue⟩

end References

end QueryPlanner
