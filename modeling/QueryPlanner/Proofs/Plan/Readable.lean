import QueryPlanner.Proofs.Plan.Query

/-!
# Steps of planning that cannot fail

Whether planning succeeds does not depend on the parameters bound before, and of an expression it
can be told without running anything: the values in it are accepted as the types of their places,
every operand has a type, and no comparison is with null.  A level is planned if each of its tasks
can be performed.

* `Binder.Total` — a step that succeeds, with one lemma for each way to make a step
* `Scope.Readable` — an expression that can be read with a type
* `Scope.Readable.total` — it is read
* `Level.total_bind`, `Query.total_plan` — a level is planned if every task of it is feasible
-/

namespace QueryPlanner

open HasExprs

variable {α β ι σ : Type}

namespace Binder

/-- The step succeeds, whatever parameters are bound before it. -/
def Total (m : Binder α) : Prop := ∀ ps, ∃ a qs, m.Yields ps a qs

namespace Total

variable {m : Binder α}

theorem pure (a : α) : Total (pure a) := fun ps => ⟨a, ps, yields_pure.mpr ⟨rfl, rfl⟩⟩

theorem bind {f : α → Binder β} (hm : m.Total) (hf : ∀ a, (f a).Total) : (m >>= f).Total := by
  intro ps
  obtain ⟨a, rs, ha⟩ := hm ps
  obtain ⟨b, qs, hb⟩ := hf a rs
  exact ⟨b, qs, yields_bind.mpr ⟨a, rs, ha, hb⟩⟩

theorem map (f : α → β) (hm : m.Total) : (f <$> m).Total := by
  rw [← bind_pure_comp]
  exact hm.bind fun a => pure (f a)

/-- A check that yields a value, and what follows it. -/
theorem lift_bind {x : Except PlanError α} {f : α → Binder β} {a : α} (hx : x = .ok a)
    (hf : (f a).Total) : Total (liftM x >>= f) := by
  intro ps
  obtain ⟨b, qs, hb⟩ := hf ps
  exact ⟨b, qs, yields_lift_bind.mpr ⟨a, hx, hb⟩⟩

theorem mapM {f : ι → Binder α} {xs : List ι} (h : ∀ x ∈ xs, (f x).Total) :
    Total (xs.mapM f) := by
  induction xs with
  | nil => exact pure []
  | cons x xs ih =>
    rw [List.mapM_cons]
    refine (h x List.mem_cons_self).bind fun y => ?_
    exact (ih fun z hz => h z (List.mem_cons_of_mem x hz)).map (y :: ·)

theorem foldlM {f : α → ι → Binder α} {xs : List ι} (h : ∀ a, ∀ x ∈ xs, (f a x).Total) (a : α) :
    Total (xs.foldlM f a) := by
  induction xs generalizing a with
  | nil => exact pure a
  | cons x xs ih =>
    rw [List.foldlM_cons]
    exact (h a x List.mem_cons_self).bind fun b =>
      ih (fun c z hz => h c z (List.mem_cons_of_mem x hz)) b

end Total

end Binder

open Binder

/-! ### Traversals -/

section

variable {f : ι → Binder α}

theorem Part.total_mapM_list {ps : List (Part ι)}
    (h : ∀ c ∈ ps.flatMap Part.children, (f c).Total) : Total (ps.mapM (Part.mapM f)) := by
  refine .mapM fun p hp => ?_
  cases p with
  | raw text => exact .pure _
  | term e => exact (h e (List.mem_flatMap.mpr ⟨_, hp, List.mem_singleton_self e⟩)).map Part.term

theorem Ordered.total_mapM {o : Ordered ι} (h : (f o.term).Total) : Total (o.mapM f) :=
  h.bind fun _ => .pure _

theorem Window.total_mapM {w : Window ι} (h : ∀ c ∈ w.children, (f c).Total) :
    Total (w.mapM f) := by
  obtain ⟨partition, order, frame⟩ := w
  simp only [children, List.forall_mem_append, List.forall_mem_map] at h
  refine (Total.mapM h.1.1).bind fun partition' => ?_
  refine (Total.mapM fun o ho => Ordered.total_mapM (h.1.2 o ho)).bind fun order' => ?_
  cases frame with
  | none => exact (Total.pure none).bind fun _ => .pure _
  | some parts => exact ((Part.total_mapM_list h.2).map some).bind fun _ => .pure _

theorem WindowRef.total_mapM {w : WindowRef ι} (h : ∀ c ∈ w.children, (f c).Total) :
    Total (w.mapM f) := by
  cases w with
  | named name => exact .pure _
  | inline window => exact (Window.total_mapM h).map WindowRef.inline

/-- A traversal of a node succeeds if its steps on the children do. -/
theorem Node.total_mapM {n : Node ι} (h : ∀ c ∈ n.children, (f c).Total) : Total (n.mapM f) := by
  cases n with
  | dynamic inner | not inner | isNil inner => exact (h inner (List.mem_singleton_self inner)).map _
  | typed inner | selectedAs inner =>
    exact (h inner (List.mem_singleton_self inner)).bind fun _ => .pure _
  | binary op left right | isIn left right =>
    refine (h left List.mem_cons_self).bind fun left' => ?_
    exact (h right (List.mem_cons_of_mem _ List.mem_cons_self)).bind fun _ => .pure _
  | list items | tuple items | call name items => exact (Total.mapM h).map _
  | mapping entries =>
    refine (Total.mapM fun entry hmem => ?_).map Node.mapping
    exact (h entry.2 (List.mem_map_of_mem hmem)).bind fun _ => .pure _
  | windowed inner window =>
    refine (h inner List.mem_cons_self).bind fun inner' => ?_
    exact (WindowRef.total_mapM fun c hc => h c (List.mem_cons_of_mem _ hc)).bind fun _ => .pure _
  | fragment parts => exact (Part.total_mapM_list h).map Node.fragment
  | field | binding | literal | pin | keywords | param | paramRange | structOf | mapOf
  | selectedRef => exact .pure _

end

/-! ### Expressions -/

/-- A node that compares nothing with an interpolated null. -/
def Node.Unrefused : Node Expr → Prop
  | .binary op left right => op.isComparison = true → left ≠ .pin .null ∧ right ≠ .pin .null
  | _ => True

namespace Scope

variable {s : Scope} {expected : FieldType}

/-- A value that can be cast to a type and then dumped. -/
def Accepts (s : Scope) (type : FieldType) (v : Value) : Prop :=
  ∃ logical stored, s.ctx.conversions.cast type v = .ok logical ∧
    s.ctx.conversions.dump type logical = .ok stored

/-- An expression that can be read with a type, whatever is bound before it and whatever messages
would show. -/
inductive Readable (s : Scope) : Expr → FieldType → Prop
  | pin {v type} (accepts : s.Accepts type v) : Readable s (.pin v) type
  | collection {left values element expected}
      (types : (s.elementType left (.pin (.list values))).toOption = some element)
      (accepts : ∀ v ∈ values, s.Accepts element v) (side : Readable s left .any) :
      Readable s (.isIn left (.pin (.list values))) expected
  | node {n expected cs} (plain : n.Plain) (unrefused : n.Unrefused)
      (types : s.typedChildren n expected = some cs)
      (children : ∀ c ∈ cs, Readable s c.1 c.2) : Readable s ⟨n⟩ expected

theorem total_bindValue {v : Value} {type : FieldType} (h : s.Accepts type v) (text : String) :
    Total ((s.showing text).bindValue v type) := by
  obtain ⟨logical, stored, hcast, hdump⟩ := h
  have hctx : (s.showing text).ctx = s.ctx := rfl
  intro ps
  refine ⟨.param ps.length, ps ++ [⟨stored, type, s.site.clause⟩], ?_⟩
  unfold bindValue
  rw [hctx, hcast]
  simp only [hdump]
  rfl

/-- A check that yields a value yields it whatever messages would show. -/
theorem ok_of_toOption {x y : Except PlanError α} {a : α} (hxy : x.toOption = y.toOption)
    (hy : y.toOption = some a) : x = .ok a :=
  Except.toOption_eq_some_iff.mp (hxy.trans hy)

/-- The left side of a membership test of an interpolated collection gets a type, but none that
tells anything. -/
theorem memberType_collection (left : Expr) (v : Value) :
    (s.memberType left (.pin v)).toOption = some .any := by
  have hany : s.infer (.pin v) = .ok .any := by
    rw [infer_mk]
    rfl
  unfold memberType
  cases left.hasPin with
  | false => rfl
  | true => rw [if_pos rfl, hany]; rfl

theorem refuseNull_of_ne {e : Expr} (h : e ≠ .pin .null) (type : FieldType) :
    s.refuseNull e type = .ok () := by
  unfold refuseNull
  split
  · exact absurd rfl h
  · rfl

/-- A node is read if its children are, with the types that it hands down. -/
theorem total_bindNode {n : Node Expr} {cs : List (Expr × FieldType)} (plain : n.Plain)
    (unrefused : n.Unrefused) (types : s.typedChildren n expected = some cs) (text : String)
    (children : ∀ c ∈ cs, Total ((s.showing text).bindExpr c.1 c.2)) :
    Total ((s.showing text).bindExpr ⟨n⟩ expected) := by
  rw [bindExpr_mk]
  have huniform : ∀ m : Node Expr, cs = m.children.map (fun child => (child, .any)) →
      Total (do
        let m ← (m.map fun e => (e, (s.showing text).bindExpr e)).mapM fun child => child.2 .any
        pure (⟨m⟩ : Expr)) := by
    rintro m rfl
    refine (Node.total_mapM fun c hc => ?_).bind fun _ => .pure _
    rw [Node.children_map] at hc
    obtain ⟨e, he, rfl⟩ := List.mem_map.mp hc
    exact children _ (List.mem_map_of_mem he)
  cases n with
  | pin | dynamic | keywords => cases plain
  | binary op left right =>
    obtain ⟨⟨leftType, rightType⟩, htypes, rfl⟩ := Option.map_eq_some_iff.mp types
    refine .lift_bind (ok_of_toOption (operandTypes_showing text op left right expected) htypes) ?_
    have hoperands : Total (do
        let left' ← (s.showing text).bindExpr left leftType
        let right' ← (s.showing text).bindExpr right rightType
        pure (Expr.binary op left' right')) :=
      (children _ List.mem_cons_self).bind fun _ =>
        (children _ (List.mem_cons_of_mem _ List.mem_cons_self)).bind fun _ => .pure _
    cases hop : op.isComparison with
    | false =>
      simp only [Bool.false_eq_true, if_false]
      exact hoperands
    | true =>
      obtain ⟨hleft, hright⟩ := unrefused hop
      simp only [if_true]
      refine .lift_bind (refuseNull_of_ne hleft _) (.lift_bind (refuseNull_of_ne hright _) ?_)
      exact hoperands
  | isIn left right =>
    obtain ⟨element, helement, hrest⟩ := Option.bind_eq_some_iff.mp types
    obtain ⟨leftType, hmember, rfl⟩ := Option.map_eq_some_iff.mp hrest
    refine .lift_bind (ok_of_toOption (elementType_showing text left right) helement) ?_
    refine .lift_bind (ok_of_toOption (memberType_showing text left right) hmember) ?_
    refine (children _ List.mem_cons_self).bind fun left' => ?_
    have hright := children _ (List.mem_cons_of_mem _ List.mem_cons_self)
    refine Total.bind ?_ fun right' => .pure _
    obtain ⟨m⟩ := right
    cases m with
    | pin v => cases plain
    | _ => exact hright
  | not inner | typed inner type | selectedAs inner name =>
    cases types
    exact (children _ (List.mem_singleton_self _)).bind fun _ => .pure _
  | list items =>
    cases types
    simp only [Node.map, bindNode, List.mapM_map]
    exact (Total.mapM fun e he => children _ (List.mem_map_of_mem he)).bind fun _ => .pure _
  | _ =>
    cases types
    exact huniform _ rfl

/-- **What can be read is read.** -/
theorem Readable.total {e : Expr} (h : s.Readable e expected) (text : String) :
    Total ((s.showing text).bindExpr e expected) := by
  induction h with
  | pin accepts =>
    rw [bindExpr_mk]
    exact total_bindValue accepts text
  | @collection left values element expected types accepts _ ih =>
    rw [bindExpr_mk]
    refine .lift_bind (ok_of_toOption (elementType_showing text left _) types) ?_
    refine .lift_bind (ok_of_toOption (memberType_showing text left _)
      (memberType_collection left (.list values))) ?_
    refine Total.bind ih fun left' => Total.bind ?_ fun right' => .pure _
    refine Total.bind (fun ps => ⟨ps, ps, yields_get.mpr ⟨rfl, rfl⟩⟩) fun start => ?_
    exact (Total.mapM fun v hv => total_bindValue (accepts v hv) text).bind fun _ => .pure _
  | @node n expected cs plain unrefused types _ ih =>
    exact total_bindNode plain unrefused types text ih

/-! ### Conditions -/

/-- Both sides of a conjunction can be read. -/
theorem Readable.sides {left right : Expr} (h : s.Readable (left.and right) .boolean) :
    s.Readable left .boolean ∧ s.Readable right .boolean := by
  cases h with
  | @node _ _ cs _ _ types children =>
    obtain rfl : [(left, .boolean), (right, .boolean)] = cs := Option.some.inj types
    exact ⟨children _ List.mem_cons_self, children _ (List.mem_cons_of_mem _ List.mem_cons_self)⟩

/-- **A condition** that can be read written out is read as it stands. -/
theorem total_bindCondition {ix : Nat} {e : Expr} (h : s.Readable (e.opened ix) .boolean)
    (text : String) : Total ((s.showing text).bindCondition ix e) := by
  rw [bindCondition_eq]
  exact h.total text

end Scope

/-! ### Levels -/

/-- A task that can be performed: its expression can be read, or its query planned. -/
def Task.Feasible (place : Clause → Scope) (plan : σ → Binder Query) (t : Task σ) : Prop :=
  match t.item with
  | .expr e => ∃ type, t.expected = some type ∧ (place t.clause).Readable e type
  | .nested q => (plan q).Total

namespace Level

variable {l : Level} {clause : Clause}

/-- A task of the level that can be performed. -/
abbrev Feasible (l : Level) : Task NestedPlan → Prop := Task.Feasible l.place l.bindNested

/-- The expressions of a feasible clause can be read with the type of the clause. -/
theorem readable_of_feasible {X : Type} [HasExprs X] {x : X} {expected : FieldType}
    (h : ∀ t ∈ (Item.ofExprs x).map (Item.task clause expected), l.Feasible t) :
    ∀ e ∈ exprs x, (l.place clause).Readable e expected := by
  intro e he
  obtain ⟨type, htype, hread⟩ := h _ (List.mem_map_of_mem (List.mem_map_of_mem he))
  obtain rfl := Option.some.inj htype
  exact hread

theorem total_bindOption {f : α → Binder β} {x : Option α} (h : ∀ a, x = some a → (f a).Total) :
    (bindOption f x).Total := by
  cases x with
  | none => exact .pure none
  | some a => exact (h a rfl).map some

theorem total_bindTop {e : Expr} {expected : FieldType}
    (h : (l.place clause).Readable e expected) : (l.bindTop clause expected e).Total :=
  h.total e.render

theorem total_bindCondition {ix : Nat} {e : Expr}
    (h : (l.place clause).Readable (e.opened ix) .boolean) : (l.bindCondition clause ix e).Total :=
  Scope.total_bindCondition h e.render

theorem total_bindParts {parts : List (Part Expr)}
    (h : ∀ e ∈ exprs parts, (l.place clause).Readable e .any) : (l.bindParts clause parts).Total :=
  Part.total_mapM_list fun e he => (h e he).total _

theorem total_bindItems {items : List (Ordered Expr)}
    (h : ∀ e ∈ exprs items, (l.place clause).Readable e .any) :
    (l.bindItems clause items).Total :=
  .mapM fun o ho => Ordered.total_mapM <| total_bindTop <|
    h o.term (List.mem_flatMap.mpr ⟨o, ho, List.mem_singleton_self _⟩)

theorem total_bindConditions {conditions : List Condition}
    (h : ∀ e ∈ exprs (rewrite (Expr.opened 0) conditions), (l.place clause).Readable e .boolean) :
    (l.bindConditions clause conditions).Total := by
  rw [exprs_rewrite, List.forall_mem_map] at h
  refine .mapM fun c hc => (total_bindCondition ?_).bind fun _ => .pure _
  exact h c.expr (List.mem_flatMap.mpr ⟨c, hc, List.mem_singleton_self _⟩)

theorem total_bindGroupBy {entry : GroupBy}
    (h : ∀ e ∈ exprs entry.written, (l.place .groupBy).Readable e .any) :
    (l.bindGroupBy entry).Total := by
  cases entry with
  | exprs es => exact (Total.mapM fun e he => total_bindTop (h e he)).map GroupBy.exprs
  | pinned names => exact .pure _

theorem total_bindOrderBy {entry : OrderBy}
    (h : ∀ e ∈ exprs entry.written, (l.place .orderBy).Readable e .any) :
    (l.bindOrderBy entry).Total := by
  cases entry with
  | items items => exact (total_bindItems h).map OrderBy.items
  | pinned names => exact .pure _

theorem total_bindDistinct {distinct : Distinct}
    (h : ∀ e ∈ exprs distinct, (l.place .distinct).Readable e .any) :
    (l.bindDistinct distinct).Total := by
  cases distinct with
  | all => exact .pure _
  | on items => exact (total_bindItems h).map Distinct.on

theorem total_bindLock {lock : Lock} (h : ∀ e ∈ exprs lock, (l.place .lock).Readable e .any) :
    (l.bindLock lock).Total := by
  cases lock with
  | literal text => exact .pure _
  | fragment parts => exact (total_bindParts h).map Lock.fragment

theorem total_bindUpdate {u : Update} (h : ∀ t ∈ u.tasks l.typeOf, l.Feasible t) :
    (l.bindUpdate u).Total := by
  refine (Total.mapM fun field hfield => ?_).bind fun _ => .pure _
  obtain ⟨type, htype, hread⟩ := h _ (List.mem_map_of_mem hfield)
  obtain ⟨declared, hdeclared, rfl⟩ := Option.map_eq_some_iff.mp htype
  refine .lift_bind (Scope.ok_of_toOption
    (Scope.fieldType_showing (s := l.place .update) _ 0 field.1) hdeclared) ?_
  exact (hread.total _).bind fun _ => .pure _

/-! ### Entries that nest queries -/

theorem total_bindSource {s : Source NestedPlan}
    (h : ∀ t ∈ s.items.map (Item.task clause .any), l.Feasible t) :
    (l.bindSource clause s).Total := by
  cases s with
  | table | schema => exact .pure _
  | subquery plan => exact Total.map _ (h _ (List.mem_singleton_self _))
  | fragment parts => exact (total_bindParts (readable_of_feasible h)).map Source.fragment

theorem total_bindCte {cte : Cte NestedPlan}
    (h : ∀ t ∈ cte.body.items.map (Item.task .withCte .any), l.Feasible t) :
    (l.bindCte cte).Total := by
  obtain ⟨name, body, recursive⟩ := cte
  cases body with
  | query plan =>
    exact (Total.map CteBody.query (h _ (List.mem_singleton_self _))).bind fun _ => .pure _
  | fragment parts =>
    exact ((total_bindParts (readable_of_feasible h)).map CteBody.fragment).bind fun _ => .pure _

/-- Of two conditions that may be there, each can be read if both together can. -/
theorem readable_sides {left right : Option Expr} {s : Scope}
    (h : ∀ e ∈ exprs (Expr.conjunction? left right), s.Readable e .boolean) :
    (∀ e, left = some e → s.Readable e .boolean) ∧ ∀ e, right = some e → s.Readable e .boolean := by
  cases left with
  | none =>
    refine ⟨fun _ he => (nomatch he), fun e he => h e ?_⟩
    subst he
    exact List.mem_singleton_self e
  | some l =>
    cases right with
    | none =>
      refine ⟨fun e he => h e ?_, fun _ he => (nomatch he)⟩
      rw [he]
      exact List.mem_singleton_self e
    | some r =>
      obtain ⟨hleft, hright⟩ := (h (l.and r) (List.mem_singleton_self _)).sides
      exact ⟨fun e he => Option.some.inj he ▸ hleft, fun e he => Option.some.inj he ▸ hright⟩

theorem total_bindJoin {j : Join NestedPlan}
    (h : ∀ t ∈ (j.prepared l.bindings.conditions).tasks, l.Feasible t) : (l.bindJoin j).Total := by
  obtain ⟨hsource, hon⟩ := List.forall_mem_append.mp h
  obtain ⟨hdeclared, hbeside⟩ := readable_sides (readable_of_feasible hon)
  rw [bindJoin_eq]
  refine (total_bindOption fun s hs => total_bindSource fun t ht => ?_).bind fun _ => ?_
  · obtain ⟨i, hi, rfl⟩ := List.mem_map.mp ht
    exact hsource _ (List.mem_map_of_mem (List.mem_flatMap.mpr ⟨s, Option.mem_toList.mpr hs, hi⟩))
  · refine (total_bindOption fun e he => total_bindCondition ?_).bind fun _ => ?_
    · exact hdeclared _ (Option.map_eq_some_iff.mpr ⟨e, he, rfl⟩)
    · refine (total_bindOption fun e he => total_bindCondition ?_).bind fun _ => .pure _
      exact hbeside _ (Option.map_eq_some_iff.mpr ⟨e, he, rfl⟩)

/-! ### Clauses -/

/-- One clause is read if each of its tasks is feasible. -/
theorem total_bindClause (out : Clauses Query)
    (h : ∀ t ∈ l.prepared.tasks l.typeOf clause, l.Feasible t) :
    (l.bindClause out clause).Total := by
  cases clause with
  | withCte =>
    refine (Total.mapM fun cte hcte => total_bindCte fun t ht => h t ?_).bind fun _ => .pure _
    obtain ⟨i, hi, rfl⟩ := List.mem_map.mp ht
    exact List.mem_map_of_mem (List.mem_flatMap.mpr ⟨cte, hcte, hi⟩)
  | combination =>
    refine (Total.mapM fun c hc => Total.bind ?_ fun _ => .pure _).bind fun _ => .pure _
    exact h _ (List.mem_map_of_mem (List.mem_map_of_mem hc))
  | fromSource =>
    refine (total_bindOption fun root hroot => Total.bind ?_ fun _ => .pure _).bind fun _ => .pure _
    refine total_bindSource fun t ht => h t ?_
    obtain ⟨i, hi, rfl⟩ := List.mem_map.mp ht
    exact List.mem_map_of_mem (List.mem_flatMap.mpr ⟨root, Option.mem_toList.mpr hroot, hi⟩)
  | join =>
    refine (Total.mapM fun j hj => total_bindJoin fun t ht => h t ?_).bind fun _ => .pure _
    exact List.mem_flatMap.mpr ⟨_, List.mem_map_of_mem hj, ht⟩
  | update =>
    refine (Total.mapM fun u hu => total_bindUpdate fun t ht => h t ?_).bind fun _ => .pure _
    exact List.mem_flatMap.mpr ⟨u, hu, ht⟩
  | distinct =>
    refine (total_bindOption fun d hd => total_bindDistinct fun e he => ?_).bind fun _ => .pure _
    exact readable_of_feasible h e (List.mem_flatMap.mpr ⟨d, Option.mem_toList.mpr hd, he⟩)
  | select =>
    refine (total_bindOption fun s hs => Total.bind ?_ fun _ => .pure _).bind fun _ => .pure _
    refine total_bindTop (readable_of_feasible h s.expr ?_)
    exact List.mem_flatMap.mpr ⟨{ expr := s.expr }, Option.mem_toList.mpr
      (Option.map_eq_some_iff.mpr ⟨s, hs, rfl⟩), List.mem_singleton_self _⟩
  | filter | having => exact (total_bindConditions (readable_of_feasible h)).bind fun _ => .pure _
  | groupBy =>
    refine (Total.mapM fun g hg => total_bindGroupBy fun e he => ?_).bind fun _ => .pure _
    exact readable_of_feasible h e (List.mem_flatMap.mpr ⟨_, List.mem_map_of_mem hg, he⟩)
  | orderBy =>
    refine (Total.mapM fun o ho => total_bindOrderBy fun e he => ?_).bind fun _ => .pure _
    exact readable_of_feasible h e (List.mem_flatMap.mpr ⟨_, List.mem_map_of_mem ho, he⟩)
  | windows =>
    refine (Total.mapM fun w hw => Total.bind ?_ fun _ => .pure _).bind fun _ => .pure _
    refine Window.total_mapM fun e he => total_bindTop (readable_of_feasible h e ?_)
    exact List.mem_flatMap.mpr ⟨w, hw, he⟩
  | limit | offset =>
    refine (total_bindOption fun e he => total_bindTop (readable_of_feasible h e ?_)).bind fun _ =>
      .pure _
    exact List.mem_flatMap.mpr ⟨e, Option.mem_toList.mpr he, List.mem_singleton_self _⟩
  | lock =>
    refine (total_bindOption fun k hk => total_bindLock fun e he => ?_).bind fun _ => .pure _
    exact readable_of_feasible h e (List.mem_flatMap.mpr ⟨k, Option.mem_toList.mpr hk, he⟩)
  | preload => exact .pure _

/-- **A level is planned** if each of its tasks is feasible. -/
theorem total_bind (h : ∀ clause, ∀ t ∈ l.prepared.tasks l.typeOf clause, l.Feasible t) :
    l.bind.Total :=
  (Total.foldlM (fun out clause _ => total_bindClause out (h clause)) _).bind fun _ => .pure _

end Level

/-! ### Queries -/

/-- **A query is planned** if its shape is supported, its sources are bound and each of its tasks
can be performed. -/
theorem Query.total_plan {c : Clauses Query} {ctx : Context} {b : Bindings Query}
    (hcheck : (c.edit id Query.plan).checkCapabilities ctx.capabilities = .ok ())
    (hb : c.resolve ctx = .ok b)
    (h : ∀ clause, ∀ t ∈ (c.prepared b).tasks (ctx.typeOf b.sources) clause,
      t.Feasible (ctx.place b.sources) fun q => q.plan (ctx.nested c.queryPrefix)) :
    (Query.plan ⟨c⟩ ctx).Total := by
  have hlevel : (c.level ctx b).bind.Total := by
    refine Level.total_bind fun clause t ht => ?_
    rw [Clauses.prepared_level, Clauses.tasks_edit] at ht
    obtain ⟨task, htask, rfl⟩ := List.mem_map.mp ht
    have hfeasible := h clause task htask
    obtain ⟨_, _, item⟩ := task
    cases item <;> exact hfeasible
  intro ps
  obtain ⟨t, qs, ht⟩ := hlevel ps
  exact ⟨t, qs, Query.yields_plan_iff.mpr ⟨hcheck, b, hb, ht⟩⟩

end QueryPlanner
