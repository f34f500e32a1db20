import QueryPlanner.Proofs.Plan.Considered
import QueryPlanner.Proofs.Plan.Placeholders
import QueryPlanner.Proofs.Plan.Shift

/-!
# Extraction loses nothing

Planning takes the interpolated values of a query out, one parameter for each, in reading order.
With every value put back where its placeholder stands, the plan is the query again, apart from its
bound joins and from interpolations that are written out.

* `Expr.scalars`, `Query.scalars` — the values that are taken out
* `Expr.restored`, `Query.restored` — values put back
* `Extraction` — what a step takes out, and what comes of putting it back
* `Scope.reads_extraction` — an expression
* `Planner.plan_scalars` — a plan
-/

namespace QueryPlanner

open HasExprs Binder

variable {α β γ σ τ : Type} {ps qs rs : List BoundParameter}

/-! ### The values of an expression -/

/-- The values that a node interpolates one by one, given those of its children: a value as it is,
the elements of a collection that is tested for membership, and the values of a keyword list. -/
def Node.scalars : Node (Expr × List Value) → List Value
  | .pin v => [v]
  | .keywords pairs => pairs.map (·.2)
  | .isIn left (.pin (.list values), _) => left.2 ++ values
  | n => n.children.flatMap (·.2)

/-- The values that an expression interpolates one by one, in reading order. -/
def Expr.scalars : Expr → List Value := fold Node.scalars

namespace Expr

theorem scalars_mk (n : Node Expr) : scalars ⟨n⟩ = (n.map fun e => (e, e.scalars)).scalars :=
  fold_mk _ n

/-- A node without interpolation of its own has the values of its children. -/
theorem scalars_plain {n : Node Expr} (hn : n.Plain) :
    scalars ⟨n⟩ = n.children.flatMap scalars := by
  have hchildren : (n.map fun e => (e, e.scalars)).children.flatMap (·.2) =
      n.children.flatMap scalars := by
    rw [Node.children_map, List.flatMap_map]
  rw [scalars_mk, ← hchildren]
  cases n with
  | isIn left right =>
    obtain ⟨m⟩ := right
    cases m with
    | pin v => cases hn
    | _ => rfl
  | pin | dynamic | keywords => cases hn
  | _ => rfl

theorem scalars_pin (v : Value) : scalars (.pin v) = [v] := scalars_mk _

theorem scalars_dynamic (inner : Expr) : scalars (.dynamic inner) = inner.scalars := by
  rw [scalars_mk]
  exact List.append_nil _

theorem scalars_keywords (pairs : List (String × Value)) :
    scalars (.keywords pairs) = pairs.map (·.2) := scalars_mk _

theorem scalars_isIn_list (left : Expr) (values : List Value) :
    scalars (.isIn left (.pin (.list values))) = left.scalars ++ values := scalars_mk _

theorem scalars_binary (op : BinaryOp) (left right : Expr) :
    scalars (.binary op left right) = left.scalars ++ right.scalars := by
  rw [scalars_plain (n := .binary op left right) trivial]
  simp [Node.children]

theorem scalars_conjunction (es : List Expr) :
    (Scope.conjunction es).scalars = es.flatMap scalars := by
  have hfold : ∀ (es : List Expr) (first : Expr),
      (es.foldl Expr.and first).scalars = first.scalars ++ es.flatMap scalars := by
    intro es
    induction es with
    | nil => simp
    | cons e es ih =>
      intro first
      rw [List.foldl_cons, ih, Expr.and, scalars_binary, List.flatMap_cons, List.append_assoc]
  cases es with
  | nil => exact scalars_mk _
  | cons e es => exact hfold es e

theorem scalars_keywordTest (ix : Nat) (pair : String × Value) :
    (keywordTest ix pair).scalars = [pair.2] := by
  rw [keywordTest, Expr.eq, scalars_binary, scalars_pin, scalars_plain (n := .field ix _) trivial]
  rfl

theorem scalars_of_inert (e : Expr) : e.Inert → e.scalars = [] := by
  refine Expr.induction (P := fun e => e.Inert → e.scalars = []) ?_ e
  intro n ih hinert
  obtain ⟨hn, hchildren⟩ := inert_mk.mp hinert
  have hplain : n.Plain := by
    cases n with
    | isIn left right =>
      obtain ⟨m⟩ := right
      have hright := (inert_mk.mp (hchildren ⟨m⟩ (List.mem_cons_of_mem _ List.mem_cons_self))).1
      cases m <;> trivial
    | _ => trivial
  rw [scalars_plain hplain]
  exact List.flatMap_eq_nil_iff.mpr fun c hc => ih c hc (hchildren c hc)

/-- The values of a condition stay when it is written out. -/
theorem gathers_scalars (clause : Clause) :
    Gathers fun e => e.scalars.map fun v => (v, clause) where
  opened ix e := by
    congr 1
    obtain ⟨n⟩ := e
    cases n with
    | dynamic inner => exact (scalars_dynamic inner).symm
    | keywords pairs =>
      rw [scalars_keywords, opened, scalars_conjunction, List.flatMap_map, List.map_eq_flatMap]
      simp only [scalars_keywordTest]
    | _ => rfl
  and left right := by rw [Expr.and, scalars_binary, List.map_append]
  inert e he := by rw [scalars_of_inert e he, List.map_nil]

end Expr

/-! ### Putting values back -/

/-- A placeholder with the values in its place. -/
def Node.restored (vs : List Value) : Node α → Node α
  | .param ix =>
    match vs[ix]? with
    | some v => .pin v
    | none => .param ix
  | .paramRange start length => .pin (.list ((vs.drop start).take length))
  | n => n

/-- The expression with the values `vs` in the places of its placeholders. -/
def Expr.restored (vs : List Value) : Expr → Expr := relabel (Node.restored vs)

/-- The query with the values `vs` in the places of its placeholders. -/
def Query.restored (vs : List Value) : Query → Query := edit (Expr.restored vs)

theorem Expr.restored_mk (vs : List Value) (n : Node Expr) :
    restored vs ⟨n⟩ = ⟨(n.map (restored vs)).restored vs⟩ := relabel_mk _ n

theorem Node.restored_of_unplaced {n : Node α} (hn : Detail.numbers.data n = [])
    (vs : List Value) : n.restored vs = n := by
  cases n <;> first | rfl | cases hn

/-! ### What a step takes out -/

/-- From `ps` to `qs` the values `given` are added as parameters, in this order; and `P` holds of
every list of values that has them where these parameters stand. -/
structure Extraction (conversions : Conversions) (given : List (Value × Clause))
    (ps qs : List BoundParameter) (P : List Value → Prop) : Prop where
  added : ∃ own, qs = ps ++ own ∧ List.Forall₂ (BoundParameter.Stores conversions) given own
  restored : ∀ before after : List Value, before.length = ps.length →
    P (before ++ given.map (·.1) ++ after)

namespace Extraction

variable {conversions : Conversions} {given given' : List (Value × Clause)}
  {P P' : List Value → Prop}

theorem nil (h : ∀ vs, P vs) : Extraction conversions [] ps ps P :=
  ⟨⟨[], (List.append_nil _).symm, .nil⟩, fun _ _ _ => h _⟩

theorem imp (h : Extraction conversions given ps qs P) (hP : ∀ vs, P vs → P' vs) :
    Extraction conversions given ps qs P' :=
  ⟨h.added, fun before after hbefore => hP _ (h.restored before after hbefore)⟩

/-- Two steps in a row take out what each of them does. -/
theorem append (h : Extraction conversions given ps rs P)
    (h' : Extraction conversions given' rs qs P') :
    Extraction conversions (given ++ given') ps qs fun vs => P vs ∧ P' vs := by
  obtain ⟨⟨own, rfl, hown⟩, hP⟩ := h
  obtain ⟨⟨own', rfl, hown'⟩, hP'⟩ := h'
  refine ⟨⟨own ++ own', List.append_assoc .., List.rel_append hown hown'⟩, ?_⟩
  intro before after hbefore
  refine ⟨?_, ?_⟩
  · simpa using hP before (given'.map (·.1) ++ after) hbefore
  · have hlength : (before ++ given.map (·.1)).length = (ps ++ own).length := by
      simp [hbefore, hown.length_eq]
    simpa using hP' (before ++ given.map (·.1)) after hlength

end Extraction

/-- Steps in a row take out what each of them does. -/
theorem Chain.extraction {conversions : Conversions}
    {R : α → List BoundParameter → β → List BoundParameter → Prop} {xs : List α} {ys : List β}
    {given : α → List (Value × Clause)} (back : List Value → β → γ) (goal : α → γ)
    (h : Chain R xs ps ys qs)
    (hR : ∀ x ∈ xs, ∀ ps y qs, R x ps y qs →
      Extraction conversions (given x) ps qs fun vs => back vs y = goal x) :
    Extraction conversions (xs.flatMap given) ps qs
      fun vs => ys.map (back vs) = xs.map goal := by
  induction h with
  | nil => exact .nil fun _ => rfl
  | cons head _ ih =>
    have hhead := hR _ List.mem_cons_self _ _ _ head
    have htail := ih fun x hx => hR x (List.mem_cons_of_mem _ hx)
    exact (hhead.append htail).imp fun vs ⟨hy, hys⟩ => congrArg₂ List.cons hy hys

/-! ### Expressions -/

namespace Scope

variable {s : Scope}

theorem extraction_pin {v : Value} {p : BoundParameter}
    (hp : p.Stores s.ctx.conversions (v, s.site.clause)) :
    Extraction s.ctx.conversions [(v, s.site.clause)] ps (ps ++ [p])
      fun vs => (Expr.param ps.length).restored vs = .pin v := by
  refine ⟨⟨[p], rfl, .cons hp .nil⟩, fun before after hbefore => ?_⟩
  rw [Expr.restored_mk]
  simp [Node.map, Node.restored, ← hbefore]

theorem extraction_collection {values : List Value} {added : List BoundParameter}
    (hadded : List.Forall₂ (BoundParameter.Stores s.ctx.conversions)
      (values.map fun v => (v, s.site.clause)) added) :
    Extraction s.ctx.conversions (values.map fun v => (v, s.site.clause)) ps (ps ++ added)
      fun vs => (Expr.paramRange ps.length values.length).restored vs = .pin (.list values) := by
  refine ⟨⟨added, rfl, hadded⟩, fun before after hbefore => ?_⟩
  rw [Expr.restored_mk]
  simp [Node.map, Node.restored, ← hbefore, Function.comp_def]

/-- **Reading an expression** takes its values out, and putting them back yields the expression. -/
theorem reads_extraction (e : Expr) : e.Unplaced →
    ∀ expected ps a qs, s.Reads e expected ps a qs →
      Extraction s.ctx.conversions (e.scalars.map fun v => (v, s.site.clause)) ps qs
        fun vs => a.restored vs = e := by
  refine Expr.induction (P := fun e => e.Unplaced →
    ∀ expected ps a qs, s.Reads e expected ps a qs →
      Extraction s.ctx.conversions (e.scalars.map fun v => (v, s.site.clause)) ps qs
        fun vs => a.restored vs = e) ?_ e
  intro n ih hnone expected ps a qs hread
  obtain ⟨hdata, hchildren⟩ := Expr.unplaced_mk.mp hnone
  rcases reads_stores hread with
    ⟨v, p, rfl, -, hp, rfl, rfl⟩ | ⟨left, values, left', rs, added, rfl, hleft, hadded, rfl, rfl⟩ |
    ⟨hplain, cs, m, hcs, rfl, hshape, hreads⟩
  · exact Expr.scalars_pin v ▸ extraction_pin hp
  · have hmem : left ∈ (Node.isIn left (.pin (.list values))).children := List.mem_cons_self
    have hside := ih left hmem (hchildren left hmem) _ _ _ _ hleft
    rw [Expr.scalars_isIn_list, List.map_append]
    refine (hside.append (extraction_collection hadded)).imp fun vs ⟨hl, hr⟩ => ?_
    rw [Expr.restored_mk]
    exact congrArg₂ Expr.isIn hl hr
  · have hcs' := children_of_typedChildren hcs
    have hall := hreads.extraction Expr.restored (·.1) fun c hc ps a qs hread =>
      have hmem : c.1 ∈ n.children := hcs' ▸ List.mem_map_of_mem hc
      ih c.1 hmem (hchildren c.1 hmem) _ _ _ _ hread
    have hscalars : (Expr.scalars ⟨n⟩).map (fun v => (v, s.site.clause)) =
        cs.flatMap fun c => c.1.scalars.map fun v => (v, s.site.clause) := by
      rw [Expr.scalars_plain hplain, ← hcs', List.flatMap_map, List.map_flatMap]
    rw [hscalars]
    refine hall.imp fun vs hback => ?_
    have hmdata : Detail.numbers.data (m.map (Expr.restored vs)) = [] := by
      rw [Detail.data_map, Detail.data_of_shape_eq _ hshape, hdata]
    rw [Expr.restored_mk, Node.restored_of_unplaced hmdata]
    refine congrArg Expr.mk (Node.ext_children ((Node.shape_map _ m).trans hshape) ?_)
    rw [Node.children_map, hback, hcs']

end Scope

/-! ### Queries -/

/-- The values that a level interpolates, each with its clause, in the order of an operation; nested
queries are given by theirs. -/
def Clauses.scalars (c : Clauses (Operation → List (Value × Clause))) (operation : Operation) :
    List (Value × Clause) :=
  operation.clauseOrder.flatMap fun clause => (c.considered.items clause).flatMap <|
    Item.gather (fun e => e.scalars.map fun v => (v, clause)) fun nested => nested .all

/-- The values that a query interpolates, as an operation reads them, each with the clause that
holds it in the innermost query around it.  The source of an association join and the fields of a
selection are left out. -/
def Query.scalars : Query → Operation → List (Value × Clause) := fold Clauses.scalars

/-- A bound join of a level with its condition written out, and with it the one that is declared
beside the association of its binding. -/
def Clauses.writtenJoin (c : Clauses σ) (j : Join σ) : Join σ :=
  let ix := j.ix.getD 0
  { j with
    on := Expr.conjunction? (j.on.map (Expr.opened ix))
      ((c.besideAssociation ix).map (Expr.opened ix)) }

/-- A level with the given bindings, as its plan shows it apart from placeholders.  Its joins are
the bound ones; interpolated conditions, orderings and groupings are written out. -/
def Clauses.writtenOut (c : Clauses σ) (b : Bindings σ) : Clauses σ :=
  { c.prepared b with joins := b.joins.map c.writtenJoin }

/-- A level as its plan shows it, apart from placeholders. -/
def Clauses.expanded (c : Clauses (Context → Query)) (ctx : Context) : Query :=
  match c.resolve ctx with
  | .ok b => ⟨(c.writtenOut b).edit id fun nested => nested (ctx.nested c.queryPrefix)⟩
  | .error _ => .empty

/-- A query as its plan shows it, apart from placeholders. -/
def Query.expanded : Query → Context → Query := fold Clauses.expanded

theorem Clauses.considered_edit (f : Expr → Expr) (g : σ → τ) (c : Clauses σ) :
    (c.edit f g).considered = c.considered.edit f g := by
  have hjoin : (Join.considered ∘ Join.edit f g) = (Join.edit f g ∘ Join.considered : Join σ → _) := by
    funext j
    cases hassociation : j.association <;> simp [Join.considered, Join.edit, hassociation]
  simp only [considered, edit, List.map_map, hjoin, Clauses.mk.injEq, true_and, and_true]
  cases c.select <;> rfl

theorem Item.gather_map {δ : Type} (ρ : Expr → List δ) (κ : τ → List δ) (g : σ → τ) (i : Item σ) :
    (i.map id g).gather ρ κ = i.gather ρ (κ ∘ g) := by
  cases i <;> rfl

theorem Query.scalars_mk (c : Clauses Query) (operation : Operation) :
    scalars ⟨c⟩ operation =
      operation.clauseOrder.flatMap fun clause => (c.considered.items clause).flatMap <|
        Item.gather (fun e => e.scalars.map fun v => (v, clause)) fun q => q.scalars .all := by
  rw [scalars, fold_mk, Clauses.map_eq_edit, Clauses.scalars, Clauses.considered_edit]
  simp only [Clauses.items_edit, List.flatMap_map, Item.gather_map]
  rfl

/-- What is written out is what is prepared. -/
theorem Clauses.writtenOut_eq_prepared {ctx : Context} {c : Clauses σ} {b : Bindings σ}
    (h : c.resolve ctx = .ok b) : c.writtenOut b = c.prepared b := by
  have hjoins : b.joins.map c.writtenJoin = b.joins.map (Join.prepared b.conditions) := by
    refine List.map_congr_left fun j _ => ?_
    simp only [writtenJoin, Join.prepared, Join.condition, lookup_conditions h]
  rw [writtenOut, hjoins]
  rfl

theorem Query.expanded_mk {ctx : Context} {c : Clauses Query} {b : Bindings Query}
    (h : c.resolve ctx = .ok b) :
    expanded ⟨c⟩ ctx =
      ⟨(c.prepared b).edit id fun q => q.expanded (ctx.nested c.queryPrefix)⟩ := by
  have hresolve : (c.edit id expanded).resolve ctx = .ok (b.edit id expanded) :=
    Clauses.resolve_edit.mpr ⟨b, h, rfl⟩
  have hfold : expanded ⟨c⟩ = Clauses.expanded (c.edit id expanded) := by
    rw [← Clauses.map_eq_edit]
    exact fold_mk _ c
  rw [hfold, Clauses.expanded, hresolve]
  simp only [Clauses.writtenOut_eq_prepared hresolve, Clauses.prepared_edit Expr.transparent_id,
    Clauses.edit_edit]
  rfl

theorem Clauses.clause_of_mem_tasks {typeOf : String → Option FieldType} {c : Clauses σ}
    {clause : Clause} : ∀ task ∈ c.tasks typeOf clause, task.clause = clause := by
  intro task htask
  cases clause with
  | join =>
    obtain ⟨j, -, htask⟩ := List.mem_flatMap.mp htask
    rcases List.mem_append.mp htask with htask | htask
    · obtain ⟨i, -, rfl⟩ := List.mem_map.mp htask
      rfl
    · obtain ⟨i, -, rfl⟩ := List.mem_map.mp htask
      rfl
  | update =>
    obtain ⟨u, -, htask⟩ := List.mem_flatMap.mp htask
    obtain ⟨field, -, rfl⟩ := List.mem_map.mp htask
    rfl
  | _ =>
    obtain ⟨i, -, rfl⟩ := List.mem_map.mp htask
    rfl

/-- Planning the query takes its values out, and putting them back yields what is planned. -/
def Query.Extracts (q : Query) : Prop :=
  ∀ (ctx : Context) ps t qs, (q.plan ctx).Yields ps t qs →
    Extraction ctx.conversions (q.scalars ctx.operation) ps qs
      fun vs => t.restored vs = q.expanded ctx

theorem Task.Performs.extraction {ctx : Context} {sources : List BoundSource}
    {queryPrefix : Option String} {t : Task Query} {i : Item Query}
    (h : t.Performs (ctx.place sources) (fun q => q.plan (ctx.nested queryPrefix)) ps i qs)
    (ht : t.item.Holds Expr.Unplaced Query.Extracts) :
    Extraction ctx.conversions
      (t.item.gather (fun e => e.scalars.map fun v => (v, t.clause)) fun q => q.scalars .all) ps qs
      fun vs => i.map (Expr.restored vs) (Query.restored vs) =
        t.item.map id fun q => q.expanded (ctx.nested queryPrefix) := by
  obtain ⟨clause, expected, item⟩ := t
  cases item with
  | expr e =>
    cases i with
    | nested planned => cases h
    | expr a =>
      obtain ⟨type, -, hread⟩ := h
      exact (Scope.reads_extraction e ht type ps a qs hread).imp fun vs => congrArg Item.expr
  | nested q =>
    cases i with
    | expr a => cases h
    | nested planned =>
      exact (ht (ctx.nested queryPrefix) ps planned qs h).imp fun vs => congrArg Item.nested

/-- The tasks of a level are for the values that the level interpolates. -/
theorem Query.scalars_of_tasks {ctx : Context} {c : Clauses Query} {b : Bindings Query}
    (hb : c.resolve ctx = .ok b) (typeOf : String → Option FieldType) (operation : Operation) :
    (operation.clauseOrder.flatMap ((c.prepared b).tasks typeOf)).flatMap (fun t =>
        t.item.gather (fun e => e.scalars.map fun v => (v, t.clause)) fun q => q.scalars .all) =
      scalars ⟨c⟩ operation := by
  rw [scalars_mk, List.flatMap_assoc]
  refine List.flatMap_congr fun clause _ => ?_
  rw [← Clauses.gather_prepared (Expr.gathers_scalars clause) hb clause,
    ← Clauses.map_item_tasks typeOf, List.flatMap_map]
  refine List.flatMap_congr fun t ht => ?_
  rw [Clauses.clause_of_mem_tasks t ht]

/-- **Planning a query** that has no placeholder yet takes its values out. -/
theorem Query.plan_extraction (q : Query) : q.slots .all = [] → q.Extracts := by
  refine Query.induction_items (P := fun q => q.slots .all = [] → q.Extracts) ?_ q
  intro c ih hnone ctx ps t qs h
  obtain ⟨b, hb, hframe, hchain⟩ := Query.plan_cases h
  have hknown := Query.prepared_unplaced hb hnone ih
  have hall := hchain.extraction
    (fun vs i => i.map (Expr.restored vs) (Query.restored vs))
    (fun t => t.item.map id fun q => q.expanded (ctx.nested c.queryPrefix))
    fun task htask ps i qs hperforms =>
      hperforms.extraction (Clauses.forall_tasks hknown _ task htask)
  rw [Query.scalars_of_tasks hb] at hall
  refine hall.imp fun vs hback => ?_
  obtain ⟨d⟩ := t
  rw [Query.restored, Query.edit_mk, Query.expanded_mk hb]
  refine congrArg Query.mk (Clauses.ext_read_items ctx.operation ?_ ?_)
  · rw [Clauses.frame_edit, Clauses.frame_edit]
    exact hframe
  · have hitems : ∀ (f : Expr → Expr) (g : Query → Query) (c : Clauses Query),
        ctx.operation.clauseOrder.flatMap (c.edit f g).items =
          (ctx.operation.clauseOrder.flatMap c.items).map (Item.map f g) := by
      intro f g c
      rw [List.map_flatMap]
      exact List.flatMap_congr fun clause _ => c.items_edit f g clause
    have htasks : ctx.operation.clauseOrder.flatMap (c.prepared b).items =
        (ctx.operation.clauseOrder.flatMap
          ((c.prepared b).tasks (ctx.typeOf b.sources))).map Task.item := by
      rw [List.map_flatMap]
      exact List.flatMap_congr fun clause _ =>
        (Clauses.map_item_tasks _ (c.prepared b) clause).symm
    rw [hitems, hitems, htasks, List.map_map]
    exact hback

/-- **Extraction loses nothing.**  Take a query without placeholders and a plan of it.  The
parameters are the values that the query interpolates one by one, in the order of the operation,
each cast to the type of its parameter and dumped, and each with the clause that holds it in the
innermost query around it.  With every value put back in the place of its placeholder, and a list
of values in the place of a run of them, the plan is the query again at every level: its joins are
bound, an interpolated condition stands as its inner expression or as the conjunction of its
keywords, interpolated orderings and groupings stand as fields of binding 0, and nothing else is
changed. -/
theorem Planner.plan_scalars (p : Planner) (q : Query) (operation : Operation)
    (caps : Capabilities) (plan : Plan) (hquery : q.slots .all = [])
    (hplan : p.plan q operation caps = .ok plan) :
    List.Forall₂ (BoundParameter.Stores p.conversions) (q.scalars operation) plan.parameters ∧
    plan.query.restored ((q.scalars operation).map (·.1)) =
      q.expanded (p.context operation caps) := by
  obtain ⟨hyields, -⟩ := Planner.plan_cases hplan
  obtain ⟨⟨own, hparameters, hown⟩, hrestored⟩ := q.plan_extraction hquery _ _ _ _ hyields
  refine ⟨?_, ?_⟩
  · rw [hparameters]
    exact hown
  · have hback := hrestored [] [] rfl
    rw [List.nil_append, List.append_nil] at hback
    exact hback

/-- Posts of a title by one of two authors, joined with the users of some age. -/
def Query.titledByAuthors : Query :=
  (((Query.ofTable "posts").innerJoin
    (.subquery ((Query.ofTable "users").filter ((Expr.field 0 "age").gt (.pin (.int 18)))))
    (.isIn (.field 0 "author") (.pin (.list [.int 3, .int 5])))).filter
      (.dynamic ((Expr.field 0 "title").eq (.pin (.string "t"))))).limit (.pin (.int 9))

/-- The age is taken out first, in the filter of the subquery; then the authors, in the join, each
by itself. -/
theorem Planner.plan_scalars_joined :
    ∃ plan, (⟨.empty, .builtin, none, {}⟩ : Planner).plan .titledByAuthors .all
        Dialect.postgres.capabilities = .ok plan ∧
      Query.titledByAuthors.scalars .all = [(.int 18, .filter), (.int 3, .join), (.int 5, .join),
        (.string "t", .filter), (.int 9, .limit)] ∧
      plan.parameters.map (·.value) = [.int 18, .int 3, .int 5, .string "t", .int 9] ∧
      List.Forall₂ (BoundParameter.Stores .builtin) (Query.titledByAuthors.scalars .all)
        plan.parameters := by
  have hvalues : ((⟨.empty, .builtin, none, {}⟩ : Planner).plan .titledByAuthors .all
      Dialect.postgres.capabilities).toOption.map (·.parameters.map (·.value)) =
        some [.int 18, .int 3, .int 5, .string "t", .int 9] := by
    decide +kernel
  obtain ⟨plan, hplan, hparameters⟩ := Option.map_eq_some_iff.mp hvalues
  have hok := Except.toOption_eq_some_iff.mp hplan
  exact ⟨plan, hok, by decide +kernel, hparameters,
    (Planner.plan_scalars _ _ .all _ plan (by decide +kernel) hok).1⟩

end QueryPlanner
