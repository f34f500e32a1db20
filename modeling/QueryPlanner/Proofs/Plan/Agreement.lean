import QueryPlanner.Proofs.Plan.Query

/-!
# Planning in another context

The context of a level shows in few places.  Its operation shows in the order of the clauses and in
a message, its database in the check of the shape, its registry in the schemas of the bound sources.
Contexts that convert values alike and know the same schemas of these sources read a clause alike:
with the same parameters and the same result, or not at all.

* `Binder.Refines` — what one step yields, another one yields, with one lemma for each way to make a
  step
* `Context.Alike` — contexts that are the same to given sources
* `Scope.refines_bindExpr`, `Scope.refines_bindCondition` — expressions and whole conditions
* `Level.refines_bindClause` — one clause, given that its nested queries are read alike
-/

namespace QueryPlanner

variable {α β ι : Type}

namespace Binder

/-- Whatever comes out of the first step comes out of the second one. -/
def Refines (m m' : Binder α) : Prop := ∀ ⦃ps a qs⦄, m.Yields ps a qs → m'.Yields ps a qs

/-- Two steps that succeed on the same parameters, with the same result; why they fail is left
open. -/
def Agree (m m' : Binder α) : Prop := ∀ ps, (m.run ps).toOption = (m'.run ps).toOption

namespace Refines

variable {m m' : Binder α}

theorem refl (m : Binder α) : Refines m m := fun _ _ _ h => h

theorem throw (e : PlanError) (m : Binder α) : Refines (throw e) m :=
  fun _ _ _ h => absurd h yields_throw

theorem bind {f f' : α → Binder β} (hm : Refines m m') (hf : ∀ a, Refines (f a) (f' a)) :
    Refines (m >>= f) (m' >>= f') := by
  intro ps b qs h
  obtain ⟨a, rs, ha, hb⟩ := yields_bind.mp h
  exact yields_bind.mpr ⟨a, rs, hm ha, hf a hb⟩

theorem map (f : α → β) (h : Refines m m') : Refines (f <$> m) (f <$> m') := by
  rw [← bind_pure_comp, ← bind_pure_comp]
  exact h.bind fun a => refl (pure (f a))

theorem mapM {f f' : ι → Binder α} {xs : List ι} (h : ∀ x ∈ xs, Refines (f x) (f' x)) :
    Refines (xs.mapM f) (xs.mapM f') := by
  induction xs with
  | nil => exact refl _
  | cons x xs ih =>
    rw [List.mapM_cons, List.mapM_cons]
    refine (h x List.mem_cons_self).bind fun y => ?_
    exact (ih fun z hz => h z (List.mem_cons_of_mem x hz)).map (y :: ·)

theorem foldlM {f f' : α → ι → Binder α} {xs : List ι}
    (h : ∀ a, ∀ x ∈ xs, Refines (f a x) (f' a x)) (a : α) :
    Refines (xs.foldlM f a) (xs.foldlM f' a) := by
  induction xs generalizing a with
  | nil => exact refl _
  | cons x xs ih =>
    rw [List.foldlM_cons, List.foldlM_cons]
    exact (h a x List.mem_cons_self).bind fun a' =>
      ih (fun b z hz => h b z (List.mem_cons_of_mem x hz)) a'

end Refines

namespace Agree

variable {m m' : Binder α}

theorem yields_iff (h : Agree m m') {ps qs : List BoundParameter} {a : α} :
    m.Yields ps a qs ↔ m'.Yields ps a qs := by
  rw [Yields, Yields, ← Except.toOption_eq_some_iff, ← Except.toOption_eq_some_iff, h ps]

theorem of_refines (h : Refines m m') (h' : Refines m' m) : Agree m m' := by
  intro ps
  refine Option.ext fun ⟨a, qs⟩ => ?_
  rw [Except.toOption_eq_some_iff, Except.toOption_eq_some_iff]
  exact ⟨@h ps a qs, @h' ps a qs⟩

end Agree

end Binder

open Binder

/-! ### Traversals -/

section

variable {f f' : ι → Binder α}

theorem Part.refines_mapM {p : Part ι} (h : ∀ c ∈ p.children, Refines (f c) (f' c)) :
    Refines (p.mapM f) (p.mapM f') := by
  cases p with
  | raw text => exact .refl _
  | term e => exact (h e (List.mem_singleton_self e)).map Part.term

theorem Part.refines_mapM_list {ps : List (Part ι)}
    (h : ∀ c ∈ ps.flatMap Part.children, Refines (f c) (f' c)) :
    Refines (ps.mapM (Part.mapM f)) (ps.mapM (Part.mapM f')) :=
  .mapM fun p hp => Part.refines_mapM fun c hc => h c (List.mem_flatMap.mpr ⟨p, hp, hc⟩)

theorem Ordered.refines_mapM {o : Ordered ι} (h : Refines (f o.term) (f' o.term)) :
    Refines (o.mapM f) (o.mapM f') := h.bind fun _ => .refl _

theorem Window.refines_mapM {w : Window ι} (h : ∀ c ∈ w.children, Refines (f c) (f' c)) :
    Refines (w.mapM f) (w.mapM f') := by
  obtain ⟨partition, order, frame⟩ := w
  simp only [children, List.forall_mem_append, List.forall_mem_map] at h
  refine (Refines.mapM h.1.1).bind fun partition' => ?_
  refine (Refines.mapM fun o ho => Ordered.refines_mapM (h.1.2 o ho)).bind fun order' => ?_
  cases frame with
  | none => exact .refl _
  | some parts => exact ((Part.refines_mapM_list h.2).map some).bind fun _ => .refl _

theorem WindowRef.refines_mapM {w : WindowRef ι} (h : ∀ c ∈ w.children, Refines (f c) (f' c)) :
    Refines (w.mapM f) (w.mapM f') := by
  cases w with
  | named name => exact .refl _
  | inline window => exact (Window.refines_mapM h).map WindowRef.inline

/-- A traversal of a node refines another one if its steps on the children do. -/
theorem Node.refines_mapM {n : Node ι} (h : ∀ c ∈ n.children, Refines (f c) (f' c)) :
    Refines (n.mapM f) (n.mapM f') := by
  cases n with
  | dynamic inner | not inner | isNil inner => exact (h inner (List.mem_singleton_self inner)).map _
  | typed inner | selectedAs inner =>
    exact (h inner (List.mem_singleton_self inner)).bind fun _ => .refl _
  | binary op left right | isIn left right =>
    refine (h left List.mem_cons_self).bind fun left' => ?_
    exact (h right (List.mem_cons_of_mem _ List.mem_cons_self)).bind fun _ => .refl _
  | list items | tuple items | call name items => exact (Refines.mapM h).map _
  | mapping entries =>
    refine (Refines.mapM fun entry hmem => ?_).map Node.mapping
    exact (h entry.2 (List.mem_map_of_mem hmem)).bind fun _ => .refl _
  | windowed inner window =>
    refine (h inner List.mem_cons_self).bind fun inner' => ?_
    have hwindow := WindowRef.refines_mapM fun c hc => h c (List.mem_cons_of_mem _ hc)
    exact hwindow.bind fun _ => .refl _
  | fragment parts => exact (Part.refines_mapM_list h).map Node.fragment
  | field | binding | literal | pin | keywords | param | paramRange | structOf | mapOf
  | selectedRef => exact .refl _

end

/-! ### Expressions -/

/-- The context for another operation on another database. -/
def Context.under (ctx : Context) (operation : Operation) (caps : Capabilities) : Context :=
  { ctx with operation, capabilities := caps }

/-- Contexts that convert values alike and know the same schemas of the given sources. -/
structure Context.Alike (sources : List BoundSource) (ctx ctx' : Context) : Prop where
  conversions : ctx'.conversions = ctx.conversions
  schemas : ∀ source ∈ sources, ∀ name, source.schema? = some name →
    ctx'.registry.lookup? name = ctx.registry.lookup? name

/-- Operations and databases make no difference to what values and sources are. -/
theorem Context.alike_under (sources : List BoundSource) (ctx : Context) (operation : Operation)
    (caps : Capabilities) : Alike sources ctx (ctx.under operation caps) :=
  ⟨rfl, fun _ _ _ _ => rfl⟩

namespace Scope

variable {s : Scope} {ctx' : Context}

/-- The scope in another context. -/
def inside (s : Scope) (ctx' : Context) : Scope := { s with ctx := ctx' }

section

variable (halike : s.ctx.Alike s.sources ctx')
include halike

theorem fieldType_inside : (s.inside ctx').fieldType = s.fieldType := by
  funext ix name
  have hsources : (s.inside ctx').sources = s.sources := rfl
  unfold fieldType
  rw [hsources]
  cases hsource : s.sources[ix]? with
  | none => rfl
  | some source =>
    cases hname : source.schema? with
    | none => simp only [hname]
    | some schemaName =>
      have hlookup := halike.schemas source (List.mem_of_getElem? hsource) schemaName hname
      simp only [hname, Context.schema, inside, hlookup]
      rfl

theorem infer_inside : (s.inside ctx').infer = s.infer := by
  have hnode : (s.inside ctx').inferNode = s.inferNode := by
    funext n
    cases n with
    | field ix name => exact congrFun (congrFun (fieldType_inside halike) ix) name
    | _ => rfl
  unfold infer
  rw [hnode]

theorem operandTypes_inside (op : BinaryOp) (left right : Expr) (expected : FieldType) :
    (s.inside ctx').operandTypes op left right expected =
      s.operandTypes op left right expected := by
  simp only [operandTypes, operandType, infer_inside halike]

theorem elementType_inside (left right : Expr) :
    (s.inside ctx').elementType left right = s.elementType left right := by
  simp only [elementType, infer_inside halike]

theorem memberType_inside (left right : Expr) :
    (s.inside ctx').memberType left right = s.memberType left right := by
  simp only [memberType, infer_inside halike]

theorem refines_bindValue (v : Value) (type : FieldType) :
    Refines (s.bindValue v type) ((s.inside ctx').bindValue v type) := by
  have hctx : (s.inside ctx').ctx.conversions = s.ctx.conversions := halike.conversions
  unfold bindValue
  rw [hctx]
  cases s.ctx.conversions.cast type v with
  | error e => exact .throw _ _
  | ok logical =>
    simp only
    -- the message of a value that has no stored form is the one that shows the operation
    cases s.ctx.conversions.dump type logical with
    | error e => exact .throw _ _
    | ok stored => exact .refl _

theorem refines_bindCollection {element : FieldType} {e : Expr}
    {read read' : FieldType → Binder Expr} (h : ∀ type, Refines (read type) (read' type)) :
    Refines (s.bindCollection element (e, read))
      ((s.inside ctx').bindCollection element (e, read')) := by
  unfold bindCollection
  simp only
  split
  · exact (Refines.refl _).bind fun _ =>
      (Refines.mapM fun v _ => refines_bindValue halike v element).bind fun _ => .refl _
  · exact .throw _ _
  · exact h _
  · exact h _

/-- A node is read alike if its children are. -/
theorem refines_bindNode {n : Node Expr} {read read' : Expr → FieldType → Binder Expr}
    (h : ∀ c ∈ n.children, ∀ type, Refines (read c type) (read' c type)) (expected : FieldType) :
    Refines (s.bindNode (n.map fun e => (e, read e)) expected)
      ((s.inside ctx').bindNode (n.map fun e => (e, read' e)) expected) := by
  have hdefault : Refines
      (do
        let m ← (n.map fun e => (e, read e)).mapM fun child => child.2 .any
        pure (⟨m⟩ : Expr))
      (do
        let m ← (n.map fun e => (e, read' e)).mapM fun child => child.2 .any
        pure ⟨m⟩) := by
    rw [Node.mapM_map, Node.mapM_map]
    exact (Node.refines_mapM fun c hc => h c hc .any).bind fun _ => .refl _
  cases n with
  | pin v => exact refines_bindValue halike v expected
  | dynamic | keywords => exact .throw _ _
  | binary op left right =>
    have hoperands : ∀ types : FieldType × FieldType, Refines
        (do
          let left' ← read left types.1
          let right' ← read right types.2
          pure (Expr.binary op left' right'))
        (do
          let left' ← read' left types.1
          let right' ← read' right types.2
          pure (Expr.binary op left' right')) := fun types =>
      (h left List.mem_cons_self types.1).bind fun _ =>
        (h right (List.mem_cons_of_mem _ List.mem_cons_self) types.2).bind fun _ => .refl _
    simp only [Node.map, bindNode, operandTypes_inside halike]
    refine (Refines.refl _).bind fun types => ?_
    cases op.isComparison with
    | false => simpa only [Bool.false_eq_true, if_false] using hoperands types
    | true =>
      simp only [if_true]
      exact (Refines.refl _).bind fun _ => (Refines.refl _).bind fun _ => hoperands types
  | isIn left right =>
    simp only [Node.map, bindNode, elementType_inside halike, memberType_inside halike]
    refine (Refines.refl _).bind fun element => (Refines.refl _).bind fun leftType => ?_
    refine (h left List.mem_cons_self leftType).bind fun left' => ?_
    have hright := h right (List.mem_cons_of_mem _ List.mem_cons_self)
    exact (refines_bindCollection halike hright).bind fun _ => .refl _
  | not inner | typed inner | selectedAs inner =>
    exact (h inner (List.mem_singleton_self inner) _).bind fun _ => .refl _
  | list items =>
    simp only [Node.map, bindNode, List.mapM_map]
    exact (Refines.mapM fun c hc => h c hc _).bind fun _ => .refl _
  | _ => exact hdefault

/-- **An expression** is read in one context as in the other. -/
theorem refines_bindExpr (e : Expr) : ∀ expected,
    Refines (s.bindExpr e expected) ((s.inside ctx').bindExpr e expected) := by
  refine Expr.induction (P := fun e => ∀ expected,
    Refines (s.bindExpr e expected) ((s.inside ctx').bindExpr e expected)) ?_ e
  intro n ih expected
  rw [bindExpr_mk, bindExpr_mk]
  exact refines_bindNode halike ih expected

/-- **A whole condition** is read in one context as in the other. -/
theorem refines_bindCondition {ix : Nat} (e : Expr) :
    Refines (s.bindCondition ix e) ((s.inside ctx').bindCondition ix e) := by
  rw [bindCondition_eq, bindCondition_eq]
  exact refines_bindExpr halike _ .boolean

end

end Scope

/-! ### Entries of clauses -/

namespace Level

variable {l : Level} {ctx' : Context} {clause : Clause}

/-- The level in another context. -/
def inside (l : Level) (ctx' : Context) : Level := { l with ctx := ctx' }

theorem refines_bindOption {f f' : α → Binder β} {x : Option α}
    (h : ∀ a, x = some a → Refines (f a) (f' a)) : Refines (bindOption f x) (bindOption f' x) := by
  cases x with
  | none => exact .refl _
  | some a => exact (h a rfl).map some

section

variable (halike : l.ctx.Alike l.bindings.sources ctx')
include halike

theorem refines_bindTop {expected : FieldType} (e : Expr) :
    Refines (l.bindTop clause expected e) ((l.inside ctx').bindTop clause expected e) :=
  Scope.refines_bindExpr halike e expected

theorem refines_bindCondition {ix : Nat} (e : Expr) :
    Refines (l.bindCondition clause ix e) ((l.inside ctx').bindCondition clause ix e) :=
  Scope.refines_bindCondition halike e

theorem refines_bindParts (parts : List (Part Expr)) :
    Refines (l.bindParts clause parts) ((l.inside ctx').bindParts clause parts) :=
  Part.refines_mapM_list fun e _ => Scope.refines_bindExpr halike e .any

theorem refines_bindItems (items : List (Ordered Expr)) :
    Refines (l.bindItems clause items) ((l.inside ctx').bindItems clause items) :=
  .mapM fun _ _ => Ordered.refines_mapM (refines_bindTop halike _)

theorem refines_bindConditions (conditions : List Condition) :
    Refines (l.bindConditions clause conditions)
      ((l.inside ctx').bindConditions clause conditions) :=
  .mapM fun c _ => (refines_bindCondition halike c.expr).bind fun _ => .refl _

theorem refines_bindGroupBy (entry : GroupBy) :
    Refines (l.bindGroupBy entry) ((l.inside ctx').bindGroupBy entry) := by
  cases entry with
  | exprs es => exact (Refines.mapM fun e _ => refines_bindTop halike e).map GroupBy.exprs
  | pinned names => exact .refl _

theorem refines_bindOrderBy (entry : OrderBy) :
    Refines (l.bindOrderBy entry) ((l.inside ctx').bindOrderBy entry) := by
  cases entry with
  | items items => exact (refines_bindItems halike items).map OrderBy.items
  | pinned names => exact .refl _

theorem refines_bindDistinct (distinct : Distinct) :
    Refines (l.bindDistinct distinct) ((l.inside ctx').bindDistinct distinct) := by
  cases distinct with
  | all => exact .refl _
  | on items => exact (refines_bindItems halike items).map Distinct.on

theorem refines_bindWindow (declared : String × Window Expr) :
    Refines (l.bindWindow declared) ((l.inside ctx').bindWindow declared) :=
  (Window.refines_mapM fun e _ => refines_bindTop halike e).bind fun _ => .refl _

theorem refines_bindSelect (select : Select) :
    Refines (l.bindSelect select) ((l.inside ctx').bindSelect select) :=
  (refines_bindTop halike select.expr).bind fun _ => .refl _

theorem refines_bindLock (lock : Lock) :
    Refines (l.bindLock lock) ((l.inside ctx').bindLock lock) := by
  cases lock with
  | literal text => exact .refl _
  | fragment parts => exact (refines_bindParts halike parts).map Lock.fragment

theorem refines_bindAssignment (op : UpdateOp) (field : String × Expr) :
    Refines (l.bindAssignment op field) ((l.inside ctx').bindAssignment op field) := by
  have hscope : ∀ text, (l.inside ctx').scope .update text = (l.scope .update text).inside ctx' :=
    fun _ => rfl
  simp only [bindAssignment, hscope, Scope.fieldType_inside (s := l.scope .update _) halike]
  refine (Refines.refl _).bind fun _ => ?_
  exact (Scope.refines_bindExpr halike field.2 _).bind fun _ => .refl _

theorem refines_bindUpdate (u : Update) :
    Refines (l.bindUpdate u) ((l.inside ctx').bindUpdate u) :=
  (Refines.mapM fun field _ => refines_bindAssignment halike u.op field).bind fun _ => .refl _

/-! ### Entries that nest queries -/

/-- A nested query that the level plans in another context as it does in its own. -/
def PlansAlike (l : Level) (ctx' : Context) (plan : NestedPlan) : Prop :=
  Refines (l.bindNested plan) ((l.inside ctx').bindNested plan)

theorem refines_bindSource {s : Source NestedPlan}
    (h : ∀ plan, .nested plan ∈ s.items → l.PlansAlike ctx' plan) :
    Refines (l.bindSource clause s) ((l.inside ctx').bindSource clause s) := by
  cases s with
  | table | schema => exact .refl _
  | subquery plan => exact (h plan (List.mem_singleton_self _)).map Source.subquery
  | fragment parts => exact (refines_bindParts halike parts).map Source.fragment

theorem refines_bindRoot {root : FromClause NestedPlan}
    (h : ∀ plan, .nested plan ∈ root.source.items → l.PlansAlike ctx' plan) :
    Refines (l.bindRoot root) ((l.inside ctx').bindRoot root) :=
  (refines_bindSource halike h).bind fun _ => .refl _

theorem refines_bindCte {cte : Cte NestedPlan}
    (h : ∀ plan, .nested plan ∈ cte.body.items → l.PlansAlike ctx' plan) :
    Refines (l.bindCte cte) ((l.inside ctx').bindCte cte) := by
  obtain ⟨name, body, recursive⟩ := cte
  cases body with
  | query plan =>
    exact (Refines.map CteBody.query (h plan (List.mem_singleton_self _))).bind fun _ => .refl _
  | fragment parts =>
    exact ((refines_bindParts halike parts).map CteBody.fragment).bind fun _ => .refl _

theorem refines_bindJoin {j : Join NestedPlan}
    (h : ∀ plan, .nested plan ∈ j.items → l.PlansAlike ctx' plan) :
    Refines (l.bindJoin j) ((l.inside ctx').bindJoin j) := by
  rw [bindJoin_eq, bindJoin_eq]
  refine (refines_bindOption fun s hs =>
    refines_bindSource halike fun plan hplan => ?_).bind fun _ => ?_
  · refine h plan (List.mem_append_left _ (List.mem_flatMap.mpr ⟨s, ?_, hplan⟩))
    exact Option.mem_toList.mpr hs
  · refine (refines_bindOption fun e _ => refines_bindCondition halike e).bind fun _ => ?_
    exact (refines_bindOption fun e _ => refines_bindCondition halike e).bind fun _ => .refl _

/-! ### Clauses -/

/-- **One clause** is read in one context as in the other, if the nested queries of the prepared
level are planned so. -/
theorem refines_bindClause
    (h : ∀ clause plan, .nested plan ∈ l.prepared.items clause → l.PlansAlike ctx' plan)
    (out : Clauses Query) (clause : Clause) :
    Refines (l.bindClause out clause) ((l.inside ctx').bindClause out clause) := by
  cases clause with
  | withCte =>
    refine (Refines.mapM fun cte hcte =>
      refines_bindCte halike fun plan hplan => ?_).bind fun _ => .refl _
    exact h .withCte plan (List.mem_flatMap.mpr ⟨cte, hcte, hplan⟩)
  | combination =>
    refine (Refines.mapM fun c hc => ?_).bind fun _ => .refl _
    have hplan := h .combination c.query (List.mem_map_of_mem hc)
    exact Refines.bind hplan fun _ => .refl _
  | fromSource =>
    refine (refines_bindOption fun root hroot => refines_bindRoot halike fun plan hplan => ?_).bind
      fun _ => .refl _
    exact h .fromSource plan (List.mem_flatMap.mpr ⟨root, Option.mem_toList.mpr hroot, hplan⟩)
  | join =>
    refine (Refines.mapM fun j hj =>
      refines_bindJoin halike fun plan hplan => ?_).bind fun _ => .refl _
    refine h .join plan (List.mem_flatMap.mpr
      ⟨j.prepared l.bindings.conditions, List.mem_map_of_mem hj, ?_⟩)
    rcases List.mem_append.mp hplan with hsource | hon
    · exact List.mem_append_left _ hsource
    · obtain ⟨e, -, he⟩ := List.mem_map.mp hon
      cases he
  | distinct =>
    exact (refines_bindOption fun x _ => refines_bindDistinct halike x).bind fun _ => .refl _
  | select =>
    exact (refines_bindOption fun x _ => refines_bindSelect halike x).bind fun _ => .refl _
  | filter => exact (refines_bindConditions halike l.clauses.wheres).bind fun _ => .refl _
  | having => exact (refines_bindConditions halike l.clauses.havings).bind fun _ => .refl _
  | groupBy => exact (Refines.mapM fun x _ => refines_bindGroupBy halike x).bind fun _ => .refl _
  | orderBy => exact (Refines.mapM fun x _ => refines_bindOrderBy halike x).bind fun _ => .refl _
  | windows => exact (Refines.mapM fun x _ => refines_bindWindow halike x).bind fun _ => .refl _
  | limit => exact (refines_bindOption fun x _ => refines_bindTop halike x).bind fun _ => .refl _
  | offset => exact (refines_bindOption fun x _ => refines_bindTop halike x).bind fun _ => .refl _
  | lock => exact (refines_bindOption fun x _ => refines_bindLock halike x).bind fun _ => .refl _
  | update => exact (Refines.mapM fun x _ => refines_bindUpdate halike x).bind fun _ => .refl _
  | preload => exact .refl _

/-- **A whole level** is read for the same operation in one context as in the other, if its nested
queries are. -/
theorem refines_bind (hoperation : ctx'.operation = l.ctx.operation)
    (h : ∀ clause plan, .nested plan ∈ l.prepared.items clause → l.PlansAlike ctx' plan) :
    Refines l.bind (l.inside ctx').bind := by
  have horder : (l.inside ctx').ctx.operation.clauseOrder = l.ctx.operation.clauseOrder :=
    congrArg Operation.clauseOrder hoperation
  unfold bind
  rw [horder]
  exact (Refines.foldlM (fun out clause _ => refines_bindClause halike h out clause) _).bind
    fun _ => .refl _

end

end Level

/-! ### Nested queries -/

/-- The nested queries of the prepared level are those of the level as it is prepared. -/
theorem Clauses.nested_level {c : Clauses Query} {ctx : Context} {b : Bindings Query}
    {clause : Clause} {plan : NestedPlan}
    (h : .nested plan ∈ (c.level ctx b).prepared.items clause) :
    ∃ q, .nested q ∈ (c.prepared b).items clause ∧ plan = q.plan := by
  rw [prepared_level, items_edit] at h
  obtain ⟨i, hi, heq⟩ := List.mem_map.mp h
  cases i with
  | expr e => cases heq
  | nested q => exact ⟨q, hi, (Item.nested.inj heq).symm⟩

end QueryPlanner
