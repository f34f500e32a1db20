import QueryPlanner.Proofs.Plan.Agreement
import QueryPlanner.Proofs.Plan.Blocks
import QueryPlanner.Proofs.Plan.Nested

/-!
# What all steps of planning have in common

Planning is put together from few steps: values are interpolated, what is malformed is refused, and
one step follows another.  So a property of steps that these have, and that a step has whose parts
have it, is a property of planning as a whole.  What is proved in this way needs no look at the
single clauses.

* `Binder.Pervades` — a property that goes through all of planning
* `Scope.pervades_bindExpr`, `Level.pervades_bindClause` — expressions and clauses have it
* `Query.pervades_plan` — planning a query has it
-/

namespace QueryPlanner

variable {α β ι : Type}

/-- An error that says that a value has no stored form. -/
def PlanError.IsDump : PlanError → Prop
  | .dump .. => True
  | _ => False

/-- A property of steps that goes through all of planning with the given table of types: values that
are interpolated have it, refusals for anything but a stored form have it, and a step has it if what
it is made of does. -/
structure Binder.Pervades (conversions : Conversions) (P : (α : Type) → Binder α → Prop) :
    Prop where
  pure {α : Type} (a : α) : P α (pure a)
  bind {α β : Type} {m : Binder α} {f : α → Binder β} : P α m → (∀ a, P β (f a)) → P β (m >>= f)
  get : P (List BoundParameter) get
  refuse {α : Type} {err : PlanError} : ¬ err.IsDump → P α (throw err)
  value (s : Scope) (v : Value) (type : FieldType) :
    s.ctx.conversions = conversions → P Expr (s.bindValue v type)

/-! ### Refusals -/

section

variable {s : Scope}

theorem Scope.failsWith_fieldType (ix : Nat) (name : String) :
    FailsWith (¬ ·.IsDump) (s.fieldType ix name) := by
  unfold fieldType
  split
  · exact .error nofun
  · split
    · exact .ok _
    · refine (s.ctx.failsWith_schema (fun _ _ => nofun) _ _).bind fun schema _ => ?_
      cases schema.field? name with
      | none => exact .error nofun
      | some field => exact .ok _

theorem Scope.failsWith_infer (e : Expr) : FailsWith (¬ ·.IsDump) (s.infer e) := by
  refine Expr.induction (P := fun e => FailsWith (¬ ·.IsDump) (s.infer e)) ?_ e
  intro n ih
  rw [infer_mk]
  cases n with
  | field ix name => exact failsWith_fieldType ix name
  | selectedAs inner name => exact ih inner (List.mem_singleton_self inner)
  | binary op left right =>
    simp only [Node.map, inferNode]
    cases op.isArithmetic with
    | false => exact .ok _
    | true =>
      refine (ih left List.mem_cons_self).bind fun type _ => ?_
      cases type.isAny with
      | false => exact .ok _
      | true => exact ih right (List.mem_cons_of_mem _ List.mem_cons_self)
  | _ => exact .ok _

theorem Scope.failsWith_operandType (side other : Expr) (fallback : FieldType) :
    FailsWith (¬ ·.IsDump) (s.operandType side other fallback) := by
  unfold operandType
  cases side.hasPin with
  | false => exact .ok _
  | true => exact (failsWith_infer other).bind fun _ _ => .ok _

theorem Scope.failsWith_operandTypes (op : BinaryOp) (left right : Expr) (expected : FieldType) :
    FailsWith (¬ ·.IsDump) (s.operandTypes op left right expected) := by
  unfold operandTypes
  cases op.isLogical with
  | true => exact .ok _
  | false =>
    refine (failsWith_operandType left right _).bind fun _ _ => ?_
    exact (failsWith_operandType right left _).bind fun _ _ => .ok _

theorem Scope.failsWith_refuseNull (operand : Expr) (type : FieldType) :
    FailsWith (¬ ·.IsDump) (s.refuseNull operand type) := by
  unfold refuseNull
  split
  · exact .error nofun
  · exact .ok _

theorem Scope.failsWith_elementType (left right : Expr) :
    FailsWith (¬ ·.IsDump) (s.elementType left right) := by
  unfold elementType
  cases right.hasPin with
  | false => exact .ok _
  | true => exact failsWith_infer left

theorem Scope.failsWith_memberType (left right : Expr) :
    FailsWith (¬ ·.IsDump) (s.memberType left right) := by
  unfold memberType
  cases left.hasPin with
  | false => exact .ok _
  | true => exact (failsWith_infer right).bind fun _ _ => .ok _

theorem Clauses.failsWith_checkCapabilities {σ : Type} (caps : Capabilities) (c : Clauses σ) :
    FailsWith (¬ ·.IsDump) (c.checkCapabilities caps) := by
  unfold checkCapabilities
  cases c.joins.find? (!caps.supports ·.qualifier) <;> cases c.ctes.find? (·.recursive) <;>
    cases caps.recursiveCte <;> cases c.windows.head? <;> cases caps.namedWindows <;>
    cases (c.lock.isSome && !caps.rowLocks) <;> first | exact .ok () | exact .error id

end

/-! ### Steps in a row -/

namespace Binder.Pervades

variable {conversions : Conversions} {P : (α : Type) → Binder α → Prop}
  (h : Binder.Pervades conversions P)
include h

theorem map {m : Binder α} (f : α → β) (hm : P α m) : P β (f <$> m) := by
  rw [← bind_pure_comp]
  exact h.bind hm fun a => h.pure (f a)

theorem lift {x : Except PlanError α} (hx : FailsWith (¬ ·.IsDump) x) : P α (liftM x) := by
  cases x with
  | ok a => exact h.pure a
  | error err => exact h.refuse (hx err rfl)

/-- A check, and what follows if it succeeds. -/
theorem lift_bind {x : Except PlanError α} {f : α → Binder β} (hx : FailsWith (¬ ·.IsDump) x)
    (hf : ∀ a, x = .ok a → P β (f a)) : P β (liftM x >>= f) := by
  cases x with
  | ok a => exact hf a rfl
  | error err => exact h.refuse (hx err rfl)

theorem mapM {f : ι → Binder α} {xs : List ι} (hf : ∀ x ∈ xs, P α (f x)) :
    P (List α) (xs.mapM f) := by
  induction xs with
  | nil => exact h.pure []
  | cons x xs ih =>
    rw [List.mapM_cons]
    refine h.bind (hf x List.mem_cons_self) fun y => ?_
    exact h.bind (ih fun z hz => hf z (List.mem_cons_of_mem x hz)) fun ys => h.pure (y :: ys)

theorem foldlM {f : α → ι → Binder α} {xs : List ι} (hf : ∀ a, ∀ x ∈ xs, P α (f a x)) (a : α) :
    P α (xs.foldlM f a) := by
  induction xs generalizing a with
  | nil => exact h.pure a
  | cons x xs ih =>
    rw [List.foldlM_cons]
    exact h.bind (hf a x List.mem_cons_self) fun a' =>
      ih (fun b z hz => hf b z (List.mem_cons_of_mem x hz)) a'

theorem bindOption {f : α → Binder β} {x : Option α} (hf : ∀ a, x = some a → P β (f a)) :
    P (Option β) (Level.bindOption f x) := by
  cases x with
  | none => exact h.pure none
  | some a => exact h.map some (hf a rfl)

theorem parts {f : ι → Binder α} {ps : List (Part ι)}
    (hf : ∀ e ∈ ps.flatMap Part.children, P α (f e)) :
    P (List (Part α)) (ps.mapM (Part.mapM f)) := by
  refine h.mapM fun p hp => ?_
  cases p with
  | raw text => exact h.pure (Part.raw text)
  | term e =>
    have he := hf e (List.mem_flatMap.mpr ⟨_, hp, List.mem_singleton_self e⟩)
    exact h.map Part.term he

theorem ordered {f : ι → Binder α} {os : List (Ordered ι)} (hf : ∀ o ∈ os, P α (f o.term)) :
    P (List (Ordered α)) (os.mapM (Ordered.mapM f)) :=
  h.mapM fun o ho => h.bind (hf o ho) fun _ => h.pure _

theorem window {f : ι → Binder α} {w : Window ι} (hf : ∀ e ∈ w.children, P α (f e)) :
    P (Window α) (w.mapM f) := by
  obtain ⟨partition, order, frame⟩ := w
  simp only [Window.children, List.forall_mem_append, List.forall_mem_map] at hf
  refine h.bind (h.mapM hf.1.1) fun partition' => h.bind (h.ordered hf.1.2) fun order' => ?_
  cases frame with
  | none => exact h.bind (h.pure none) fun _ => h.pure _
  | some parts => exact h.bind (h.map some (h.parts hf.2)) fun _ => h.pure _

/-- A traversal of a node has what its steps on the children have. -/
theorem node {f : ι → Binder α} {n : Node ι} (hf : ∀ e ∈ n.children, P α (f e)) :
    P (Node α) (n.mapM f) := by
  cases n with
  | field | binding | literal | pin | keywords | param | paramRange | structOf | mapOf
  | selectedRef => exact h.pure _
  | dynamic inner | not inner | isNil inner =>
    exact h.map _ (hf inner (List.mem_singleton_self inner))
  | typed inner | selectedAs inner =>
    exact h.bind (hf inner (List.mem_singleton_self inner)) fun _ => h.pure _
  | binary op left right | isIn left right =>
    refine h.bind (hf left List.mem_cons_self) fun left' => ?_
    exact h.bind (hf right (List.mem_cons_of_mem _ List.mem_cons_self)) fun _ => h.pure _
  | list items | tuple items | call name items => exact h.map _ (h.mapM hf)
  | mapping entries =>
    refine h.map Node.mapping (h.mapM fun entry hentry => ?_)
    exact h.bind (hf entry.2 (List.mem_map_of_mem hentry)) fun _ => h.pure _
  | fragment parts => exact h.map Node.fragment (h.parts hf)
  | windowed inner window =>
    refine h.bind (hf inner List.mem_cons_self) fun inner' => ?_
    cases window with
    | named name => exact h.bind (h.pure (WindowRef.named name)) fun _ => h.pure _
    | inline w =>
      have hw := h.window fun e he => hf e (List.mem_cons_of_mem _ he)
      exact h.bind (h.map WindowRef.inline hw) fun _ => h.pure _

end Binder.Pervades

/-! ### Expressions -/

namespace Scope

variable {s : Scope} {P : (α : Type) → Binder α → Prop}
  (h : Binder.Pervades s.ctx.conversions P)
include h

theorem pervades_bindCollection {element : FieldType} {e : Expr} {read : FieldType → Binder Expr}
    (hread : ∀ type, P Expr (read type)) : P Expr (s.bindCollection element (e, read)) := by
  unfold bindCollection
  simp only
  split
  · refine h.bind h.get fun bound => ?_
    exact h.bind (h.mapM fun v _ => h.value s v element rfl) fun _ => h.pure _
  · exact h.refuse id
  · exact hread _
  · exact hread _

theorem pervades_bindNode {n : Node Expr} {read : Expr → FieldType → Binder Expr}
    (hread : ∀ c ∈ n.children, ∀ type, P Expr (read c type)) (expected : FieldType) :
    P Expr (s.bindNode (n.map fun e => (e, read e)) expected) := by
  have hdefault : P Expr (do
      let m ← (n.map fun e => (e, read e)).mapM fun child => child.2 .any
      pure ⟨m⟩) := by
    rw [Node.mapM_map]
    exact h.bind (h.node fun c hc => hread c hc .any) fun _ => h.pure _
  cases n with
  | pin v => exact h.value s v expected rfl
  | dynamic | keywords => exact h.refuse id
  | binary op left right =>
    have hoperands : ∀ types : FieldType × FieldType, P Expr (do
        let left' ← read left types.1
        let right' ← read right types.2
        pure (Expr.binary op left' right')) := fun types =>
      h.bind (hread left List.mem_cons_self types.1) fun _ =>
        h.bind (hread right (List.mem_cons_of_mem _ List.mem_cons_self) types.2) fun _ => h.pure _
    simp only [Node.map, bindNode]
    refine h.bind (h.lift (failsWith_operandTypes op left right expected)) fun types => ?_
    cases op.isComparison with
    | false => simpa only [Bool.false_eq_true, if_false] using hoperands types
    | true =>
      simp only [if_true]
      refine h.bind (h.lift (failsWith_refuseNull left _)) fun _ => ?_
      exact h.bind (h.lift (failsWith_refuseNull right _)) fun _ => hoperands types
  | isIn left right =>
    simp only [Node.map, bindNode]
    refine h.bind (h.lift (failsWith_elementType left right)) fun element => ?_
    refine h.bind (h.lift (failsWith_memberType left right)) fun leftType => ?_
    refine h.bind (hread left List.mem_cons_self leftType) fun left' => ?_
    have hright := hread right (List.mem_cons_of_mem _ List.mem_cons_self)
    exact h.bind (pervades_bindCollection h hright) fun _ => h.pure _
  | not inner | typed inner | selectedAs inner =>
    exact h.bind (hread inner (List.mem_singleton_self inner) _) fun _ => h.pure _
  | list items =>
    simp only [Node.map, bindNode, List.mapM_map]
    exact h.bind (h.mapM fun c hc => hread c hc _) fun _ => h.pure _
  | _ => exact hdefault

/-- What goes through planning goes through reading an expression. -/
theorem pervades_bindExpr (e : Expr) : ∀ expected, P Expr (s.bindExpr e expected) := by
  refine Expr.induction (P := fun e => ∀ expected, P Expr (s.bindExpr e expected)) ?_ e
  intro n ih expected
  rw [bindExpr_mk]
  exact pervades_bindNode h ih expected

theorem pervades_bindCondition (ix : Nat) (e : Expr) : P Expr (s.bindCondition ix e) := by
  rw [bindCondition_eq]
  exact pervades_bindExpr h _ .boolean

end Scope

/-! ### Levels -/

namespace Level

variable {l : Level} {P : (α : Type) → Binder α → Prop} {clause : Clause}
  (h : Binder.Pervades l.ctx.conversions P)
include h

theorem pervades_bindTop {expected : FieldType} (e : Expr) :
    P Expr (l.bindTop clause expected e) :=
  Scope.pervades_bindExpr (s := l.scope clause e.render) h e expected

theorem pervades_bindCondition {ix : Nat} (e : Expr) : P Expr (l.bindCondition clause ix e) :=
  Scope.pervades_bindCondition (s := l.scope clause e.render) h ix e

theorem pervades_bindParts (parts : List (Part Expr)) :
    P (List (Part Expr)) (l.bindParts clause parts) :=
  h.parts fun e _ =>
    Scope.pervades_bindExpr (s := l.scope clause (Expr.renderFragment parts)) h e .any

theorem pervades_bindItems (items : List (Ordered Expr)) :
    P (List (Ordered Expr)) (l.bindItems clause items) :=
  h.ordered fun _ _ => pervades_bindTop h _

theorem pervades_bindConditions (conditions : List Condition) :
    P (List Condition) (l.bindConditions clause conditions) :=
  h.mapM fun c _ => h.bind (pervades_bindCondition h c.expr) fun _ => h.pure _

theorem pervades_bindGroupBy (entry : GroupBy) : P GroupBy (l.bindGroupBy entry) := by
  cases entry with
  | exprs es => exact h.map GroupBy.exprs (h.mapM fun e _ => pervades_bindTop h e)
  | pinned names => exact h.pure _

theorem pervades_bindOrderBy (entry : OrderBy) : P OrderBy (l.bindOrderBy entry) := by
  cases entry with
  | items items => exact h.map OrderBy.items (pervades_bindItems h items)
  | pinned names => exact h.pure _

theorem pervades_bindDistinct (distinct : Distinct) : P Distinct (l.bindDistinct distinct) := by
  cases distinct with
  | all => exact h.pure _
  | on items => exact h.map Distinct.on (pervades_bindItems h items)

theorem pervades_bindWindow (declared : String × Window Expr) :
    P (String × Window Expr) (l.bindWindow declared) :=
  h.bind (h.window fun e _ => pervades_bindTop h e) fun _ => h.pure _

theorem pervades_bindLock (lock : Lock) : P Lock (l.bindLock lock) := by
  cases lock with
  | literal text => exact h.pure _
  | fragment parts => exact h.map Lock.fragment (pervades_bindParts h parts)

theorem pervades_bindAssignment (op : UpdateOp) (field : String × Expr) :
    P (String × Expr) (l.bindAssignment op field) := by
  unfold bindAssignment
  refine h.bind (h.lift (Scope.failsWith_fieldType 0 field.1)) fun type => ?_
  exact h.bind (Scope.pervades_bindExpr (s := l.scope .update _) h field.2 _) fun _ => h.pure _

theorem pervades_bindUpdate (u : Update) : P Update (l.bindUpdate u) :=
  h.bind (h.mapM fun field _ => pervades_bindAssignment h u.op field) fun _ => h.pure _

/-! Entries that nest queries. -/

theorem pervades_bindSource {s : Source NestedPlan}
    (hnested : ∀ plan, .nested plan ∈ s.items → P Query (l.bindNested plan)) :
    P (Source Query) (l.bindSource clause s) := by
  cases s with
  | table | schema => exact h.pure _
  | subquery plan => exact h.map Source.subquery (hnested plan (List.mem_singleton_self _))
  | fragment parts => exact h.map Source.fragment (pervades_bindParts h parts)

theorem pervades_bindCte {cte : Cte NestedPlan}
    (hnested : ∀ plan, .nested plan ∈ cte.body.items → P Query (l.bindNested plan)) :
    P (Cte Query) (l.bindCte cte) := by
  obtain ⟨name, body, recursive⟩ := cte
  cases body with
  | query plan =>
    have hplan := hnested plan (List.mem_singleton_self _)
    exact h.bind (h.map CteBody.query hplan) fun _ => h.pure _
  | fragment parts =>
    exact h.bind (h.map CteBody.fragment (pervades_bindParts h parts)) fun _ => h.pure _

theorem pervades_bindJoin {j : Join NestedPlan}
    (hnested : ∀ plan, .nested plan ∈ j.items → P Query (l.bindNested plan)) :
    P (Join Query) (l.bindJoin j) := by
  rw [bindJoin_eq]
  refine h.bind (h.bindOption fun s hs => pervades_bindSource h fun plan hplan => ?_) fun _ => ?_
  · refine hnested plan (List.mem_append_left _ (List.mem_flatMap.mpr ⟨s, ?_, hplan⟩))
    exact Option.mem_toList.mpr hs
  · refine h.bind (h.bindOption fun e _ => pervades_bindCondition h e) fun _ => ?_
    exact h.bind (h.bindOption fun e _ => pervades_bindCondition h e) fun _ => h.pure _

section

variable (hnested : ∀ clause plan, .nested plan ∈ l.prepared.items clause →
  P Query (l.bindNested plan))
include hnested

theorem pervades_bindClause (out : Clauses Query) (clause : Clause) :
    P (Clauses Query) (l.bindClause out clause) := by
  cases clause with
  | withCte =>
    refine h.bind (h.mapM fun cte hcte => pervades_bindCte h fun plan hplan => ?_) fun _ => h.pure _
    exact hnested .withCte plan (List.mem_flatMap.mpr ⟨cte, hcte, hplan⟩)
  | combination =>
    refine h.bind (h.mapM fun c hc => h.bind ?_ fun _ => h.pure _) fun _ => h.pure _
    exact hnested .combination c.query (List.mem_map_of_mem hc)
  | fromSource =>
    refine h.bind (h.bindOption fun root hroot => ?_) fun _ => h.pure _
    refine h.bind (pervades_bindSource h fun plan hplan => ?_) fun _ => h.pure _
    exact hnested .fromSource plan
      (List.mem_flatMap.mpr ⟨root, Option.mem_toList.mpr hroot, hplan⟩)
  | join =>
    refine h.bind (h.mapM fun j hj => pervades_bindJoin h fun plan hplan => ?_) fun _ => h.pure _
    refine hnested .join plan (List.mem_flatMap.mpr
      ⟨j.prepared l.bindings.conditions, List.mem_map_of_mem hj, ?_⟩)
    -- preparing a join touches its condition only
    rcases List.mem_append.mp hplan with hsource | hon
    · exact List.mem_append_left _ hsource
    · obtain ⟨e, -, he⟩ := List.mem_map.mp hon
      cases he
  | distinct => exact h.bind (h.bindOption fun x _ => pervades_bindDistinct h x) fun _ => h.pure _
  | select =>
    refine h.bind (h.bindOption fun x _ => ?_) fun _ => h.pure _
    exact h.bind (pervades_bindTop h x.expr) fun _ => h.pure _
  | filter => exact h.bind (pervades_bindConditions h l.clauses.wheres) fun _ => h.pure _
  | having => exact h.bind (pervades_bindConditions h l.clauses.havings) fun _ => h.pure _
  | groupBy => exact h.bind (h.mapM fun x _ => pervades_bindGroupBy h x) fun _ => h.pure _
  | orderBy => exact h.bind (h.mapM fun x _ => pervades_bindOrderBy h x) fun _ => h.pure _
  | windows => exact h.bind (h.mapM fun x _ => pervades_bindWindow h x) fun _ => h.pure _
  | limit | offset => exact h.bind (h.bindOption fun x _ => pervades_bindTop h x) fun _ => h.pure _
  | lock => exact h.bind (h.bindOption fun x _ => pervades_bindLock h x) fun _ => h.pure _
  | update => exact h.bind (h.mapM fun x _ => pervades_bindUpdate h x) fun _ => h.pure _
  | preload => exact h.pure out

theorem pervades_bind : P Query l.bind :=
  h.bind (h.foldlM (fun out clause _ => pervades_bindClause h hnested out clause) _) fun _ =>
    h.pure _

end

end Level

/-! ### Queries -/

/-- **What goes through planning** holds of planning any query in any context with the given table
of types. -/
theorem Query.pervades_plan {conversions : Conversions} {P : (α : Type) → Binder α → Prop}
    (h : Binder.Pervades conversions P) (q : Query) : ∀ ctx : Context,
    ctx.conversions = conversions → P Query (q.plan ctx) := by
  refine Query.induction (P := fun q => ∀ ctx : Context,
    ctx.conversions = conversions → P Query (q.plan ctx)) ?_ q
  intro c ih ctx hctx
  rw [plan_mk, Clauses.plan]
  have hlevel : P Query (do
      let _ ← (c.edit id Query.plan).checkCapabilities ctx.capabilities
      let bindings ← (c.edit id Query.plan).resolve ctx
      Level.bind ⟨ctx, c.edit id Query.plan, bindings⟩) := by
    refine h.lift_bind (Clauses.failsWith_checkCapabilities _ _) fun _ _ => ?_
    refine h.lift_bind (Clauses.failsWith_resolve (fun _ _ _ => id) _) fun bindings hbindings => ?_
    obtain ⟨b, hb, rfl⟩ := Clauses.resolve_edit.mp hbindings
    refine Level.pervades_bind (l := c.level ctx b) (hctx ▸ h) fun clause plan hplan => ?_
    obtain ⟨inner, hinner, rfl⟩ := Clauses.nested_level hplan
    have hconsidered := (Clauses.mem_considered_nested hb).mpr ⟨clause, hinner⟩
    exact ih inner (Clauses.considered_nested_subset hconsidered) (ctx.nested c.queryPrefix) hctx
  cases (c.edit id Query.plan).root.isNone with
  | true => exact h.bind (h.refuse id) fun _ => hlevel
  | false => exact hlevel

end QueryPlanner
