import QueryPlanner.Normal.References
import QueryPlanner.Proofs.CacheKey.Expr
import QueryPlanner.Proofs.Plan.Resolution

/-!
# What checking an expression comes to

An expression passes the check if everything it names is there and every literal that it compares
with a stored field has a stored form.  What comes out then is the expression with these literals
in their stored forms: the one that its key is written from.

* `Context.typeAt?` — the type of a field, where the field is there
* `Node.comparisons` — the literals of a node that are compared with fields
* `References.guarded_checked` — when an expression passes, and what comes out
-/

namespace QueryPlanner

variable {α β γ : Type}

/-! ### Traversals that may fail -/

theorem Except.toOption_map (f : β → γ) (x : Except PlanError β) :
    (f <$> x).toOption = x.toOption.map f := by
  cases x <;> rfl

/-- A chain of two steps succeeds if the first does and then the second. -/
theorem Except.exists_bind_iff {x : Except PlanError β} {f : β → Except PlanError γ} :
    (∃ c, (x >>= f) = .ok c) ↔ ∃ b, x = .ok b ∧ ∃ c, f b = .ok c := by
  cases x <;> simp [bind, Except.bind]

namespace Guarded

variable {p p' : Prop} {b : β} {c : γ}

/-- A guarded step succeeds with one result only. -/
theorem eq_ok_iff {x : Except PlanError β} (h : Guarded p b x.toOption) {a : β} :
    x = .ok a ↔ p ∧ a = b :=
  Except.toOption_eq_some_iff.symm.trans (h a)

/-- A step after a guarded one. -/
theorem andThen {x : Except PlanError β} {f : β → Except PlanError γ}
    (h : Guarded p b x.toOption) (hf : Guarded p' c (f b).toOption) :
    Guarded (p ∧ p') c (x >>= f).toOption := by
  rw [Except.toOption_bind]
  exact h.bind hf

theorem ok (b : β) : Guarded True b (Except.ok b : Except PlanError β).toOption := some b

theorem andThen_ok {x : Except PlanError β} (h : Guarded p b x.toOption) (f : β → γ) :
    Guarded p (f b) (x >>= fun k => .ok (f k)).toOption :=
  (h.andThen (ok (f b))).of_eq (iff_of_eq (and_true p)) rfl

theorem map_ok {x : Except PlanError β} (h : Guarded p b x.toOption) (f : β → γ) :
    Guarded p (f b) (f <$> x).toOption := by
  rw [Except.toOption_map]
  exact h.map f

theorem mapM_ok {f : α → Except PlanError β} {P : α → Prop} {g : α → β} {xs : List α}
    (h : ∀ x ∈ xs, Guarded (P x) (g x) (f x).toOption) :
    Guarded (∀ x ∈ xs, P x) (xs.map g) (xs.mapM f).toOption := by
  induction xs with
  | nil => exact (ok []).of_eq (by simp) rfl
  | cons x xs ih =>
    have hx := h x List.mem_cons_self
    have hxs := ih fun y hy => h y (List.mem_cons_of_mem x hy)
    rw [List.mapM_cons]
    exact (hx.andThen (hxs.andThen_ok (g x :: ·))).of_eq (by simp) rfl

end Guarded

section

variable {P : α → Prop} {g : α → β} {f : α → Except PlanError β}

theorem Part.guarded_mapM {ps : List (Part α)}
    (h : ∀ e ∈ ps.flatMap children, Guarded (P e) (g e) (f e).toOption) :
    Guarded (∀ e ∈ ps.flatMap children, P e) (ps.map (map g)) (ps.mapM (Part.mapM f)).toOption := by
  have hpart : ∀ p ∈ ps, Guarded (∀ e ∈ p.children, P e) (p.map g) (p.mapM f).toOption := by
    intro p hp
    cases p with
    | raw text => exact (Guarded.ok _).of_eq (by simp [children]) rfl
    | term e =>
      have he := h e (List.mem_flatMap.mpr ⟨_, hp, List.mem_singleton_self e⟩)
      exact (he.map_ok term).of_eq (by simp [children]) rfl
  refine (Guarded.mapM_ok hpart).of_eq ?_ rfl
  simp only [List.mem_flatMap]
  exact ⟨fun hall e ⟨p, hp, he⟩ => hall p hp e he, fun hall p hp e he => hall e ⟨p, hp, he⟩⟩

theorem Ordered.guarded_mapM {os : List (Ordered α)}
    (h : ∀ o ∈ os, Guarded (P o.term) (g o.term) (f o.term).toOption) :
    Guarded (∀ o ∈ os, P o.term) (os.map (map g)) (os.mapM (Ordered.mapM f)).toOption :=
  Guarded.mapM_ok fun o ho => (h o ho).andThen_ok (Ordered.mk o.direction)

theorem Window.guarded_mapM {w : Window α}
    (h : ∀ e ∈ w.children, Guarded (P e) (g e) (f e).toOption) :
    Guarded (∀ e ∈ w.children, P e) (w.map g) (w.mapM f).toOption := by
  obtain ⟨partition, order, frame⟩ := w
  simp only [children, List.mem_append] at h ⊢
  have hpartition := Guarded.mapM_ok fun e (he : e ∈ partition) => h e (.inl (.inl he))
  have horder := Ordered.guarded_mapM fun o (ho : o ∈ order) =>
    h o.term (.inl (.inr (List.mem_map_of_mem ho)))
  cases frame with
  | none =>
    refine Guarded.of_eq (hpartition.andThen (horder.andThen ((Guarded.ok none).andThen_ok
      (Window.mk (partition.map g) (order.map (Ordered.map g)))))) ?_ rfl
    simp [or_imp, forall_and]
  | some parts =>
    have hparts := (Part.guarded_mapM fun e he => h e (.inr he)).map_ok some
    refine Guarded.of_eq (hpartition.andThen (horder.andThen (hparts.andThen_ok
      (Window.mk (partition.map g) (order.map (Ordered.map g)))))) ?_ rfl
    simp [or_imp, forall_and, and_assoc]

/-- Where the step on each child is guarded, so is the traversal of the node. -/
theorem Node.guarded_mapM {n : Node α}
    (h : ∀ c ∈ n.children, Guarded (P c) (g c) (f c).toOption) :
    Guarded (∀ c ∈ n.children, P c) (n.map g) (n.mapM f).toOption := by
  cases n <;> simp only [children, map, mapM] at h ⊢
  case field | binding | literal | pin | keywords | param | paramRange | structOf | mapOf
      | selectedRef =>
    exact (Guarded.ok _).of_eq (by simp) rfl
  case dynamic inner | not inner | isNil inner =>
    exact ((h inner (by simp)).map_ok _).of_eq (by simp) rfl
  case typed inner type => exact ((h inner (by simp)).andThen_ok (typed · type)).of_eq (by simp) rfl
  case selectedAs inner name =>
    exact ((h inner (by simp)).andThen_ok (selectedAs · name)).of_eq (by simp) rfl
  case binary op left right =>
    have hright := (h right (by simp)).andThen_ok (binary op (g left))
    exact ((h left (by simp)).andThen hright).of_eq (by simp) rfl
  case isIn left right =>
    have hright := (h right (by simp)).andThen_ok (isIn (g left))
    exact ((h left (by simp)).andThen hright).of_eq (by simp) rfl
  case list items => exact (Guarded.mapM_ok h).map_ok list
  case tuple items => exact (Guarded.mapM_ok h).map_ok tuple
  case call name items => exact (Guarded.mapM_ok h).map_ok (call name)
  case mapping entries =>
    have hentries := Guarded.mapM_ok fun entry (hentry : entry ∈ entries) =>
      (h entry.2 (List.mem_map_of_mem hentry)).andThen_ok (Prod.mk entry.1)
    exact (hentries.map_ok mapping).of_eq List.forall_mem_map.symm rfl
  case fragment parts => exact (Part.guarded_mapM h).map_ok fragment
  case windowed inner window =>
    have hinner := h inner List.mem_cons_self
    cases window with
    | named name =>
      have hwindow := (Guarded.ok (WindowRef.named name)).andThen_ok (windowed (g inner))
      exact (hinner.andThen hwindow).of_eq (by simp [WindowRef.children]) rfl
    | inline w =>
      have hwindow := Window.guarded_mapM fun c hc => h c (List.mem_cons_of_mem inner hc)
      have hcall := (hwindow.map_ok WindowRef.inline).andThen_ok (windowed (g inner))
      exact (hinner.andThen hcall).of_eq (by simp [WindowRef.children]) rfl

end

/-! ### Fields and literals -/

namespace Context

variable {ctx : Context} {sources : List BoundSource} {ix : Nat} {name : String}

/-- The type of a field of a binding: nothing if the field is not there or not stored, and no type
on a source without schema. -/
def typeAt? (ctx : Context) (sources : List BoundSource) (ix : Nat) (name : String) :
    Option (Option FieldType) := do
  let source ← sources[ix]?
  if source.schema?.isNone then some none
  else (ctx.storedField? source name).map (some ·.type)

theorem typeAt?_eq_some_some {type : FieldType} :
    ctx.typeAt? sources ix name = some (some type) ↔ ∃ source field, sources[ix]? = some source ∧
      ctx.storedField? source name = some field ∧ field.type = type := by
  unfold typeAt?
  cases sources[ix]? with
  | none => simp
  | some source =>
    cases hschema : source.schema? with
    | none => simp [storedField?, hschema]
    | some schemaName => simp [hschema]

theorem typeAt?_eq_some_none : ctx.typeAt? sources ix name = some none ↔
    ∃ source, sources[ix]? = some source ∧ source.schema? = none := by
  unfold typeAt?
  cases sources[ix]? with
  | none => simp
  | some source => cases hschema : source.schema? <;> simp [hschema]

/-- The stored form that a literal opposite a field of a type is keyed in. -/
theorem literalForm_of_typeAt? {type : FieldType} (value : Value)
    (h : ctx.typeAt? sources ix name = some (some type)) :
    Clauses.literalForm ctx sources ix name value =
      (ctx.conversions.dump type value).toOption := by
  obtain ⟨source, field, hsource, hfield, rfl⟩ := typeAt?_eq_some_some.mp h
  simp [Clauses.literalForm, dumpLiteral?, hsource, hfield]

theorem literalForm_of_untyped (value : Value) (h : ctx.typeAt? sources ix name = some none) :
    Clauses.literalForm ctx sources ix name value = none := by
  obtain ⟨source, hsource, hschema⟩ := typeAt?_eq_some_none.mp h
  simp [Clauses.literalForm, dumpLiteral?, storedField?, hsource, hschema]

end Context

/-- A literal that is compared with a field, or listed against one. -/
structure Comparison where
  binding : Nat
  field : String
  value : Value

/-- The literal has a stored form, if the field is stored. -/
def Comparison.Stored (ctx : Context) (sources : List BoundSource) (l : Comparison) : Prop :=
  ∀ source field, sources[l.binding]? = some source →
    ctx.storedField? source l.field = some field →
      ∃ stored, ctx.conversions.dump field.type l.value = .ok stored

section

variable {ctx : Context} {sources : List BoundSource} {ix : Nat} {name : String} {value : Value}

theorem Comparison.stored_of_typeAt? {type : FieldType}
    (h : ctx.typeAt? sources ix name = some (some type)) :
    Stored ctx sources ⟨ix, name, value⟩ ↔
      ∃ stored, ctx.conversions.dump type value = .ok stored := by
  obtain ⟨source, field, hsource, hfield, rfl⟩ := Context.typeAt?_eq_some_some.mp h
  constructor
  · exact fun hstored => hstored source field hsource hfield
  · rintro hstored source' field' hsource' hfield'
    obtain rfl : source = source' := Option.some.inj (hsource.symm.trans hsource')
    obtain rfl : field = field' := Option.some.inj (hfield.symm.trans hfield')
    exact hstored

theorem Comparison.stored_of_untyped (h : ctx.typeAt? sources ix name = some none) :
    Stored ctx sources ⟨ix, name, value⟩ := by
  obtain ⟨source, hsource, hschema⟩ := Context.typeAt?_eq_some_none.mp h
  intro source' field hsource' hfield
  obtain rfl : source = source' := Option.some.inj (hsource.symm.trans hsource')
  simp [Context.storedField?, hschema] at hfield

end

/-- The literal that the first expression is, if the second is a field. -/
def Expr.opposed : Expr → Expr → List Comparison
  | .literal value, .field ix name => [⟨ix, name, value⟩]
  | _, _ => []

/-- The literals of a node that are compared with fields, or listed against one. -/
def Node.comparisons : Node Expr → List Comparison
  | .binary op left right =>
    if op.isComparison then left.opposed right ++ right.opposed left else []
  | .isIn (.field ix name) (.list items) => items.flatMap (·.opposed (.field ix name))
  | _ => []

namespace Expr

variable {form : LiteralForm}

/-- Only a literal opposite a field takes another form. -/
theorem settle_operand {left right : Expr}
    (h : ∀ value ix name, left = .literal value → right = .field ix name → False) :
    left.settle form (.operand right) = left.settle form .nothing := by
  obtain ⟨n⟩ := left
  rw [settle_mk, settle_mk]
  cases n with
  | literal value =>
    have hraw : storedLiteral? form value (.operand right) = none := by
      unfold storedLiteral?
      split
      · exact (h value _ _ rfl (Opposite.operand.inj ‹_›)).elim
      · rfl
    simp only [Node.against, Node.map, Node.stored, hraw]
    rfl
  | binary op => cases h : op.isComparison <;> simp [Node.against, h, Node.stored, Node.map]
  | _ => rfl

/-- Only a list tested against a field takes another form. -/
theorem settle_collection {left right : Expr}
    (h : ∀ ix name items, left = .field ix name → right = .list items → False) :
    right.settle form (.collection left) = right.settle form .nothing := by
  obtain ⟨n⟩ := right
  rw [settle_mk, settle_mk]
  cases n with
  | list items =>
    simp only [Node.against, Node.map, Node.stored, List.map_map, itemOpposite, mk.injEq,
      Node.list.injEq]
    refine List.map_congr_left fun item _ => settle_operand fun value ix name _ hleft => ?_
    exact h ix name items hleft rfl
  | _ => rfl

end Expr

/-! ### The check -/

namespace References

variable (r : References)

/-- Whether what a node names is there. -/
def finds {α : Type} : Node α → Bool
  | .field ix name => (r.ctx.typeAt? r.sources ix name).isSome
  | .binding ix | .structOf ix _ | .mapOf ix _ => ix < r.sources.length
  | .selectedRef name => r.aliases.contains name
  | .windowed _ (.named name) => r.windows.contains name
  | _ => true

/-- An expression that passes the check. -/
def Passes (e : Expr) : Prop :=
  ∀ x ∈ e.walk, r.finds x.node = true ∧ ∀ l ∈ x.node.comparisons, l.Stored r.ctx r.sources

variable {r}

theorem passes_mk {n : Node Expr} : r.Passes ⟨n⟩ ↔
    (r.finds n = true ∧ ∀ l ∈ n.comparisons, l.Stored r.ctx r.sources) ∧
      ∀ c ∈ n.children, r.Passes c := Expr.forall_walk_mk

theorem guarded_source (ix : Nat) :
    ∃ b, Guarded (ix < r.sources.length) b (r.source ix).toOption := by
  unfold source
  cases h : r.sources[ix]? with
  | none => exact ⟨default, Guarded.none (by simpa using h)⟩
  | some source =>
    have hlt : ix < r.sources.length := (List.getElem?_eq_some_iff.mp h).1
    exact ⟨source, (Guarded.ok source).of_eq (by simpa using hlt) rfl⟩

theorem toOption_fieldType (ix : Nat) (name : String) :
    (r.fieldType ix name).toOption = r.ctx.typeAt? r.sources ix name := by
  unfold fieldType source Context.typeAt?
  cases r.sources[ix]? with
  | none => rfl
  | some source =>
    cases hname : source.schema? with
    | none => simp [hname, bind, Except.bind, Except.toOption]
    | some schemaName =>
      cases hschema : r.ctx.registry.lookup? schemaName with
      | none =>
        simp [hname, hschema, Context.schema, Context.storedField?, bind, Except.bind,
          Except.toOption]
      | some schema =>
        cases hfield : schema.field? name with
        | none =>
          simp [hname, hschema, hfield, fail, Context.schema, Context.storedField?, bind,
            Except.bind, Except.toOption]
        | some field =>
          cases hvirtual : field.isVirtual <;>
            simp [hname, hschema, hfield, hvirtual, fail, Context.schema, Context.storedField?,
              bind, Except.bind, Except.toOption]

theorem toOption_dump (value : Value) (type : FieldType) :
    (r.dump value type).toOption = (r.ctx.conversions.dump type value).toOption := by
  unfold dump
  cases value with
  | null => cases type <;> rfl
  | _ =>
    simp only [Value.isNull, Bool.false_eq_true, if_false]
    cases r.ctx.conversions.dump type _ <;> rfl

/-- An expression checked, given the type that it is tested against if it is a list. -/
def checked (r : References) : Expr → Checked := Expr.fold r.checkNode

theorem checked_mk (n : Node Expr) :
    r.checked ⟨n⟩ = r.checkNode (n.map fun e => (e, r.checked e)) := by
  rw [checked, Expr.fold_mk]

/-- The form in which an expression passes. -/
abbrev passed (r : References) (e : Expr) (opposite : Opposite) : Expr :=
  e.settle (Clauses.literalForm r.ctx r.sources) opposite

/-- An expression that passes the check, and comes out in its stored form, if it passes at all. -/
abbrev Sound (r : References) (e : Expr) : Prop :=
  Guarded (r.Passes e) (r.passed e .nothing) (r.checked e none).toOption

theorem passes_literal (value : Value) : r.Passes (.literal value) :=
  passes_mk.mpr ⟨⟨rfl, fun _ h => nomatch h⟩, fun _ h => nomatch h⟩

/-- A literal that is put in the stored form of a type. -/
theorem guarded_dump (value : Value) (type : FieldType) :
    Guarded (∃ stored, r.ctx.conversions.dump type value = .ok stored)
      (Expr.literal ((r.ctx.conversions.dump type value).toOption.getD value))
      (r.dump value type >>= fun stored => .ok (.literal stored)).toOption := by
  rw [Except.toOption_bind, toOption_dump]
  cases hdump : r.ctx.conversions.dump type value with
  | error e => exact Guarded.none (by simp)
  | ok stored => exact (Guarded.ok _).of_eq (by simp) rfl

theorem guarded_dump_opposed {type : FieldType} {ix : Nat} {name : String} (value : Value)
    (h : r.ctx.typeAt? r.sources ix name = some (some type)) :
    Guarded (Comparison.Stored r.ctx r.sources ⟨ix, name, value⟩)
      (r.passed (.literal value) (.operand (.field ix name)))
      (r.dump value type >>= fun stored => .ok (.literal stored)).toOption := by
  have hpassed : r.passed (.literal value) (.operand (.field ix name)) = .literal
      ((Clauses.literalForm r.ctx r.sources ix name value).getD value) := by
    rw [passed, Expr.settle_mk]
    rfl
  rw [hpassed, Context.literalForm_of_typeAt? value h]
  exact (guarded_dump value type).of_eq (Comparison.stored_of_typeAt? h).symm rfl

theorem passed_nothing (n : Node Expr) : r.passed ⟨n⟩ .nothing =
    ⟨(n.against id .nothing).map fun child => r.passed child.1 child.2⟩ := by
  have hstored : ∀ m : Node Expr,
      m.stored (Clauses.literalForm r.ctx r.sources) .nothing = m := by
    intro m
    cases m <;> rfl
  rw [passed, Expr.settle_mk, hstored]

/-- On a source without schema a literal opposite a field stays as it is. -/
theorem passed_literal_untyped {ix : Nat} {name : String} (value : Value)
    (h : r.ctx.typeAt? r.sources ix name = some none) :
    r.passed (.literal value) (.operand (.field ix name)) = .literal value := by
  rw [passed, Expr.settle_mk]
  simp only [Node.against, Node.map, Node.stored, Expr.storedLiteral?,
    Context.literalForm_of_untyped value h, Option.getD_none]

/-- An expression is a literal opposite a field, or what it is opposed to makes no difference. -/
theorem opposed_cases (left right : Expr) :
    (∃ value ix name, left = .literal value ∧ right = .field ix name) ∨
      left.opposed right = [] ∧ r.passed left (.operand right) = r.passed left .nothing ∧
        ∀ value ix name, left = .literal value → right = .field ix name → False := by
  by_cases h : ∃ value ix name, left = .literal value ∧ right = .field ix name
  · exact .inl h
  · have hplain : ∀ value ix name, left = .literal value → right = .field ix name → False :=
      fun value ix name hleft hright => h ⟨value, ix, name, hleft, hright⟩
    refine .inr ⟨?_, Expr.settle_operand hplain, hplain⟩
    unfold Expr.opposed
    split
    · exact (hplain _ _ _ rfl rfl).elim
    · rfl

/-- A literal that is opposed to an expression that passes is opposed to a field that is there. -/
theorem Passes.isSome_typeAt? {left right : Expr} (h : r.Passes right) :
    ∀ l ∈ left.opposed right, (r.ctx.typeAt? r.sources l.binding l.field).isSome := by
  intro l hl
  unfold Expr.opposed at hl
  split at hl
  · rw [List.mem_singleton.mp hl]
    exact (passes_mk.mp h).1.1
  · cases hl

/-- An operand of a comparison. -/
theorem guarded_checkOperand {left right : Expr} (hleft : r.Sound left) :
    Guarded (r.Passes left ∧ ∀ l ∈ left.opposed right,
        (r.ctx.typeAt? r.sources l.binding l.field).isSome ∧ l.Stored r.ctx r.sources)
      (r.passed left (.operand right))
      (r.checkOperand (left, r.checked left) (right, r.checked right)).toOption := by
  rcases r.opposed_cases left right with ⟨value, ix, name, rfl, rfl⟩ | ⟨hopposed, hpassed, hplain⟩
  · have hpasses := r.passes_literal value
    simp only [checkOperand, Except.toOption_bind, toOption_fieldType]
    cases htype : r.ctx.typeAt? r.sources ix name with
    | none => exact Guarded.none (by simp [Expr.opposed, htype])
    | some type =>
      cases type with
      | none =>
        have hstored : Comparison.Stored r.ctx r.sources ⟨ix, name, value⟩ :=
          Comparison.stored_of_untyped htype
        exact hleft.of_eq (by simp [hpasses, Expr.opposed, htype, hstored])
          (r.passed_literal_untyped value htype).symm
      | some type =>
        exact (guarded_dump_opposed value htype).of_eq (by simp [hpasses, Expr.opposed, htype]) rfl
  · rw [hpassed, hopposed]
    unfold checkOperand
    split
    · exact (hplain _ _ _ ‹_› ‹_›).elim
    · exact hleft.of_eq (by simp) rfl

theorem checkItem_none (item : Expr × Checked) : r.checkItem none item = item.2 none := by
  unfold checkItem
  split
  · exact absurd ‹none = some _› (by simp)
  · rfl

/-- An item of a list that is tested against a field. -/
theorem guarded_checkItem {item : Expr} {type : Option FieldType} {ix : Nat} {name : String}
    (h : r.ctx.typeAt? r.sources ix name = some type) (hitem : r.Sound item) :
    Guarded (r.Passes item ∧ ∀ l ∈ item.opposed (.field ix name), l.Stored r.ctx r.sources)
      (r.passed item (.operand (.field ix name)))
      (r.checkItem type (item, r.checked item)).toOption := by
  rcases r.opposed_cases item (.field ix name) with ⟨value, _, _, rfl, hfield⟩ |
    ⟨hopposed, hpassed, hplain⟩
  · have hpasses := r.passes_literal value
    cases type with
    | none =>
      have hstored : Comparison.Stored r.ctx r.sources ⟨ix, name, value⟩ :=
        Comparison.stored_of_untyped h
      exact hitem.of_eq (by simp [hpasses, Expr.opposed, hstored])
        (r.passed_literal_untyped value h).symm
    | some type => exact (guarded_dump_opposed value h).of_eq (by simp [hpasses, Expr.opposed]) rfl
  · rw [hpassed, hopposed]
    unfold checkItem
    split
    · exact (hplain _ _ _ ‹_› rfl).elim
    · exact hitem.of_eq (by simp) rfl

/-- A node whose children are checked on their own. -/
theorem guarded_checkChildren {n : Node Expr} (h : ∀ c ∈ n.children, r.Sound c) :
    Guarded (∀ c ∈ n.children, r.Passes c) ⟨n.map fun c => r.passed c .nothing⟩
      (checkChildren (n.map fun e => (e, r.checked e))).toOption := by
  have hchildren := Node.guarded_mapM (n := n.map fun e => (e, r.checked e))
    (P := fun child => r.Passes child.1) (g := fun child => r.passed child.1 .nothing)
    (f := fun child => child.2 none) (by
      rw [Node.children_map]
      exact List.forall_mem_map.mpr h)
  refine (hchildren.andThen_ok Expr.mk).of_eq ?_ ?_
  · rw [Node.children_map, List.forall_mem_map]
  · rw [Node.map_map]
    rfl

/-- A list that is tested against a field. -/
theorem guarded_checkItems {items : List Expr} {type : Option FieldType} {ix : Nat} {name : String}
    (h : r.ctx.typeAt? r.sources ix name = some type) (hitems : ∀ item ∈ items, r.Sound item) :
    Guarded (∀ item ∈ items, r.Passes item ∧
        ∀ l ∈ item.opposed (.field ix name), l.Stored r.ctx r.sources)
      (r.passed (.list items) (.collection (.field ix name)))
      (r.checked (.list items) type).toOption := by
  have hchecked := Guarded.mapM_ok fun item hitem => guarded_checkItem h (hitems item hitem)
  rw [Expr.list, checked_mk]
  simp only [Node.map, checkNode, List.mapM_map]
  refine (hchecked.andThen_ok Expr.list).of_eq Iff.rfl ?_
  rw [passed, Expr.settle_mk]
  simp only [Node.against, Node.map, Node.stored, List.map_map, Expr.itemOpposite]
  rfl

/-! ### One node -/

/-- A node without comparisons passes if what it names is there and its children pass. -/
theorem sound_plain {n : Node Expr} (hcomparisons : n.comparisons = [])
    (hagainst : n.against id .nothing = n.map fun c => (c, .nothing))
    (h : Guarded (r.finds n = true ∧ ∀ c ∈ n.children, r.Passes c)
      ⟨n.map fun c => r.passed c .nothing⟩ (r.checked ⟨n⟩ none).toOption) :
    r.Sound ⟨n⟩ := by
  rw [Sound, passed_nothing, passes_mk, hagainst, Node.map_map, hcomparisons]
  exact h.of_eq (by simp) rfl

theorem sound_field (ix : Nat) (name : String) : r.Sound ⟨.field ix name⟩ := by
  refine sound_plain rfl rfl ?_
  rw [checked_mk]
  simp only [Node.map, checkNode, Except.toOption_bind, toOption_fieldType]
  cases htype : r.ctx.typeAt? r.sources ix name with
  | none => exact Guarded.none (by simp [finds, htype])
  | some type => exact Guarded.of_eq (Guarded.ok _) (by simp [finds, htype, Node.children]) rfl

theorem sound_selectedRef (name : String) : r.Sound ⟨.selectedRef name⟩ := by
  refine sound_plain rfl rfl ?_
  rw [checked_mk]
  simp only [Node.map, checkNode]
  by_cases h : r.aliases.contains name = true
  · rw [if_pos h]
    exact Guarded.of_eq (Guarded.ok _) (by simp only [finds, h]; simp [Node.children]) rfl
  · rw [if_neg h]
    exact Guarded.none fun hp => h hp.1

theorem sound_windowed {inner : Expr} {window : WindowRef Expr}
    (h : ∀ c ∈ (Node.windowed inner window).children, r.Sound c) :
    r.Sound ⟨.windowed inner window⟩ := by
  refine sound_plain rfl (by simp [Node.against]) ?_
  have hfound := guarded_checkChildren h
  rw [checked_mk]
  cases window with
  | inline w => exact Guarded.of_eq hfound (by simp [finds]) rfl
  | named name =>
    simp only [Node.map, WindowRef.map, checkNode] at hfound ⊢
    by_cases hname : r.windows.contains name = true
    · rw [if_pos hname]
      exact Guarded.of_eq hfound (by simp only [finds, hname]; simp) rfl
    · rw [if_neg hname]
      exact Guarded.none fun hp => hname hp.1

/-- A list that is tested against no field passes if its items do. -/
theorem sound_list {items : List Expr} (h : ∀ item ∈ items, r.Sound item) :
    r.Sound ⟨.list items⟩ := by
  refine sound_plain rfl rfl ?_
  rw [checked_mk]
  simp only [Node.map, checkNode, List.mapM_map, Function.comp_def, checkItem_none]
  exact Guarded.of_eq ((Guarded.mapM_ok h).andThen_ok Expr.list) (by simp [finds, Node.children])
    rfl

/-- The operands of a comparison pass, and a literal opposite a field has a stored form. -/
theorem sound_comparison {op : BinaryOp} {left right : Expr} (hop : op.isComparison = true)
    (hleft : r.Sound left) (hright : r.Sound right) : r.Sound ⟨.binary op left right⟩ := by
  rw [Sound, passed_nothing, passes_mk, checked_mk]
  simp only [Node.map, checkNode, hop, if_true]
  refine Guarded.of_eq ((guarded_checkOperand hleft).andThen
    ((guarded_checkOperand hright).andThen_ok (Expr.binary op _))) ?_ (by simp [Node.against, hop])
  simp only [finds, Node.comparisons, hop, if_true, Node.children, List.forall_mem_append,
    List.forall_mem_cons, List.not_mem_nil, false_imp_iff, implies_true, and_true, true_and]
  constructor
  · rintro ⟨⟨hleft, hl⟩, hright, hr⟩
    exact ⟨⟨fun l h => (hl l h).2, fun l h => (hr l h).2⟩, hleft, hright⟩
  · rintro ⟨⟨hl, hr⟩, hleft, hright⟩
    exact ⟨⟨hleft, fun l h => ⟨hright.isSome_typeAt? l h, hl l h⟩⟩, hright,
      fun l h => ⟨hleft.isSome_typeAt? l h, hr l h⟩⟩

theorem sound_binary {op : BinaryOp} {left right : Expr} (hleft : r.Sound left)
    (hright : r.Sound right) : r.Sound ⟨.binary op left right⟩ := by
  by_cases hop : op.isComparison = true
  · exact sound_comparison hop hleft hright
  have hchildren : ∀ c ∈ (Node.binary op left right).children, r.Sound c := by
    simp [Node.children, hleft, hright]
  refine sound_plain (by simp [Node.comparisons, hop]) (by simp [Node.against, hop, Node.map]) ?_
  have hfound := guarded_checkChildren hchildren
  rw [checked_mk]
  simp only [hop, Node.map, checkNode, Bool.false_eq_true, if_false] at hfound ⊢
  exact Guarded.of_eq hfound (by simp [finds]) rfl

/-- A list tested against a field: the items pass, and literals among them have stored forms. -/
theorem sound_listed {ix : Nat} {name : String} {items : List Expr}
    (hitems : ∀ item ∈ items, r.Sound item) :
    r.Sound ⟨.isIn (.field ix name) (.list items)⟩ := by
  have hfield : r.Passes (.field ix name) ↔ (r.ctx.typeAt? r.sources ix name).isSome = true :=
    passes_mk.trans (by simp [finds, Node.comparisons, Node.children])
  have hlist : r.Passes (.list items) ↔ ∀ item ∈ items, r.Passes item :=
    passes_mk.trans (by simp [finds, Node.comparisons, Node.children])
  have hcomparisons : (Node.isIn (Expr.field ix name) (Expr.list items)).comparisons =
      items.flatMap (·.opposed (.field ix name)) := rfl
  rw [Sound, passed_nothing, passes_mk, checked_mk, hcomparisons]
  simp only [Node.against, Node.map, checkNode, checkMembership, Except.toOption_bind,
    toOption_fieldType]
  cases htype : r.ctx.typeAt? r.sources ix name with
  | none => exact Guarded.none (by simp [Node.children, hfield, htype])
  | some type =>
    refine Guarded.of_eq ((guarded_checkItems htype hitems).bind_some
      (Expr.isIn (.field ix name))) ?_ rfl
    simp only [finds, Node.children, List.forall_mem_cons, hfield, hlist, htype]
    simp only [List.mem_flatMap, List.not_mem_nil, false_imp_iff, implies_true, and_true,
      true_and, Option.isSome_some, forall_exists_index, and_imp, forall_and]
    constructor
    · rintro ⟨hpasses, hl⟩
      exact ⟨fun l x hx h => hl x hx l h, hpasses⟩
    · rintro ⟨hl, hpasses⟩
      exact ⟨hpasses, fun x hx l h => hl l x hx h⟩

/-- A membership test of something else: its two sides are checked on their own. -/
theorem sound_membership {left right : Expr} (hleft : r.Sound left) (hright : r.Sound right)
    (hplain : ∀ ix name items, left = .field ix name → right = .list items → False) :
    r.Sound ⟨.isIn left right⟩ := by
  have hchildren : ∀ c ∈ (Node.isIn left right).children, r.Sound c := by
    simp [Node.children, hleft, hright]
  have hcomparisons : (Node.isIn left right).comparisons = [] := by
    unfold Node.comparisons
    split
    · cases ‹Node.isIn left right = .binary _ _ _›
    · cases ‹Node.isIn left right = .isIn _ _›
      exact (hplain _ _ _ rfl rfl).elim
    · rfl
  have hpassed : r.passed right (.collection left) = r.passed right .nothing :=
    Expr.settle_collection hplain
  have hchecked : r.checkMembership (left, r.checked left) (right, r.checked right) =
      checkChildren (.isIn (left, r.checked left) (right, r.checked right)) := by
    unfold checkMembership
    split
    · exact (hplain _ _ _ ‹_› ‹_›).elim
    · rfl
  have hfound := guarded_checkChildren hchildren
  rw [Sound, passed_nothing, passes_mk, hcomparisons, checked_mk]
  simp only [Node.against, Node.map, checkNode, id, hpassed, hchecked] at hfound ⊢
  exact Guarded.of_eq hfound (by simp [finds]) rfl

/-- A node of expressions that pass; of a list on the right of a membership test the items. -/
theorem sound_mk {n : Node Expr} (hchildren : ∀ c ∈ n.children, r.Sound c)
    (hitems : ∀ left items, n = .isIn left (.list items) → ∀ item ∈ items, r.Sound item) :
    r.Sound ⟨n⟩ := by
  have hfound := guarded_checkChildren hchildren
  cases n with
  | literal | pin | keywords | param | paramRange | dynamic | not | isNil | tuple | mapping
  | call | typed | fragment | selectedAs =>
    refine sound_plain rfl rfl ?_
    rw [checked_mk]
    exact Guarded.of_eq hfound (by simp [finds]) rfl
  | list items => exact sound_list hchildren
  | field ix name => exact sound_field ix name
  | binding ix | structOf ix take | mapOf ix take =>
    refine sound_plain rfl rfl ?_
    obtain ⟨source, hsource⟩ := r.guarded_source ix
    rw [checked_mk]
    exact Guarded.of_eq (hsource.andThen_ok fun _ => Expr.mk _) (by simp [finds, Node.children])
      rfl
  | selectedRef name => exact sound_selectedRef name
  | windowed inner window => exact sound_windowed hchildren
  | binary op left right =>
    exact sound_binary (hchildren left (by simp [Node.children]))
      (hchildren right (by simp [Node.children]))
  | isIn left right =>
    by_cases hlisted : ∃ ix name items, left = .field ix name ∧ right = .list items
    · obtain ⟨ix, name, items, rfl, rfl⟩ := hlisted
      exact sound_listed (hitems _ items rfl)
    · exact sound_membership (hchildren left (by simp [Node.children]))
        (hchildren right (by simp [Node.children]))
        fun ix name items hleft hright => hlisted ⟨ix, name, items, hleft, hright⟩

/-- **An expression passes the check** if what it names is there and what it compares with stored
fields has stored forms; it comes out with these in place. -/
theorem guarded_checked (e : Expr) : r.Sound e := by
  -- a membership test looks past its right child, at the items of the list that it may be
  suffices h : r.Sound e ∧ ∀ items, e = .list items → ∀ item ∈ items, r.Sound item from h.1
  refine Expr.induction (P := fun e =>
    r.Sound e ∧ ∀ items, e = .list items → ∀ item ∈ items, r.Sound item) ?_ e
  intro n ih
  have hchildren : ∀ c ∈ n.children, r.Sound c := fun c hc => (ih c hc).1
  refine ⟨sound_mk hchildren fun left items hn => ?_, fun items hitems item hitem => ?_⟩
  · subst hn
    exact (ih (.list items) (by simp [Node.children])).2 items rfl
  · obtain rfl : n = .list items := congrArg Expr.node hitems
    exact hchildren item hitem

end References

end QueryPlanner
