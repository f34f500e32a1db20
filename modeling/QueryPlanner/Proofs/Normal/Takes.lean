import QueryPlanner.Proofs.Normal.Rows

/-!
# The fields that a selection takes

A `struct` or a `map` of a binding may be narrowed to some of its fields, and to some fields of the
associations that are preloaded from joins.  The expansion of a selection looks every such field up:
in what the selection selects itself, and within tuples, lists and map literals there.  A take that
stands anywhere else, below a call or an alias or in another clause, is passed on as it is.

* `Clauses.Narrows` — a take of which every field is declared and stored
* `Expr.Component` — what a selection is made of
* `Selection.needs_flatten_components` — where a selection is expanded, its takes are such
* `Planner.prepare_takes` — the takes of an accepted query
* `Planner.prepare_take_aliased` — a take below an alias names a field that is not there
-/

namespace QueryPlanner

variable {σ τ : Type}

/-! ### Takes that are stored -/

/-- Every field that a take names is declared and stored: its own ones in `schema`, and those of an
association, which one of the preloads `forest` reads from a binding, in the schema there. -/
inductive Clauses.Narrows (r : Registry) (c : Clauses σ) : List Preload → Schema → List Take → Prop
  | nil {forest : List Preload} {schema : Schema} : Narrows r c forest schema []
  | field {forest : List Preload} {schema : Schema} {name : String} {take : List Take}
    (stored : schema.Stores name) (rest : Narrows r c forest schema take) :
    Narrows r c forest schema (.field name :: take)
  | association {forest : List Preload} {schema related : Schema} {entry : Preload} {ix : Nat}
    {nested take : List Take} (mem : entry ∈ forest) (binding : entry.binding = some ix)
    (held : c.HoldsSchema r ix related) (within : Narrows r c entry.children related nested)
    (rest : Narrows r c forest schema take) :
    Narrows r c forest schema (.association entry.association nested :: take)

theorem Clauses.Narrows.congr {r : Registry} {c : Clauses σ} {d : Clauses τ}
    {forest : List Preload} {schema : Schema} {take : List Take} (hsources : c.sources = d.sources)
    (h : c.Narrows r forest schema take) : d.Narrows r forest schema take := by
  induction h with
  | nil => exact .nil
  | field stored _ ih => exact .field stored ih
  | association mem binding held _ _ within rest =>
    exact .association mem binding (held.congr hsources) within rest

/-- The own fields of such a take are declared and stored. -/
theorem Clauses.Narrows.stores {r : Registry} {c : Clauses σ} {forest : List Preload}
    {schema : Schema} {take : List Take} (h : c.Narrows r forest schema take) :
    ∀ name ∈ take.filterMap Take.fieldName?, schema.Stores name := by
  induction h with
  | nil => exact List.forall_mem_nil _
  | field stored _ ih => exact List.forall_mem_cons.mpr ⟨stored, ih⟩
  | association _ _ _ _ _ _ rest => exact rest

/-- The binding that an expression selects as a whole, with the take that narrows it. -/
def Expr.take? : Expr → Option (Nat × List Take)
  | .structOf ix take | .mapOf ix take => some (ix, take)
  | _ => none

/-- The take of an expression, if it selects a binding with a schema, is stored there. -/
def Clauses.TakesStored (r : Registry) (c : Clauses σ) (e : Expr) : Prop :=
  ∀ ix take schema, e.take? = some (ix, take) → c.HoldsSchema r ix schema →
    c.Narrows r c.preloads schema take

/-- What an expression is made of: itself, and what tuples, lists and map literals in it hold. -/
inductive Expr.Component : Expr → Expr → Prop
  | self (e : Expr) : Component e e
  | inside {n : Node Expr} {child e : Expr} (container : n.isContainer = true)
    (mem : child ∈ n.children) (component : Component child e) : Component ⟨n⟩ e

/-- A level that selects something, and the takes of which its selection is made are stored. -/
def Clauses.SelectsStored (r : Registry) (c : Clauses σ) : Prop :=
  ∃ select, c.select = some select ∧ ∀ e, select.expr.Component e → c.TakesStored r e

/-! ### The expansion -/

namespace Selection

open Projector Projector.Needs

variable (s : Selection)

/-- Of a take whose own fields are stored, those of its associations are as well. -/
theorem needs_takeAssociations_narrows (preloads : List Preload) (path : List String)
    (take : List Take) : Needs (s.takeAssociations preloads path take)
      (∀ schema : Schema, (∀ name ∈ take.filterMap Take.fieldName?, schema.Stores name) →
        s.clauses.Narrows s.ctx.registry preloads schema take) := by
  fun_induction Selection.takeAssociations s preloads path take with
  | case1 => exact .of fun _ _ => .nil
  | case2 preloads path name take ih =>
    refine ih.imp fun hrest schema hstores => ?_
    obtain ⟨hname, hothers⟩ := List.forall_mem_cons.mp hstores
    exact .field hname (hrest schema hothers)
  | case3 => exact .throw_bind _ _
  | case4 preloads path name nested take joined rest association ix children hjoined related
      hrelated ih ihnested =>
    have hfind : preloads.find? (fun p => p.association == name && p.binding.isSome) =
        some ⟨association, some ix, children⟩ := hjoined
    have hname := List.find?_some hfind
    obtain rfl : association = name := by simpa using hname
    have hfields : Needs (s.takeFields ix related nested) _ :=
      (s.needs_takenNames related nested).first
    refine (hfields.first.and (.andThen fun _ => ihnested.first.and
      (.andThen fun _ => .andThen fun _ => ih))).imp fun h schema hstores => ?_
    obtain ⟨hnestedStores, hwithin, hrest⟩ := h
    exact .association (List.mem_of_find?_eq_some hfind) rfl (schemaAt?_eq_some_iff.mp hrelated)
      (hwithin related hnestedStores) (hrest schema hstores)
  | case5 => exact .throw_bind _ _

/-- A take that is projected is stored. -/
theorem needs_take_narrows (ix : Nat) (schema : Schema) (take : List Take) :
    Needs (s.take ix schema take)
      (s.clauses.Narrows s.ctx.registry s.clauses.preloads schema take) := by
  have hfields : Needs (s.takeFields ix schema take) _ := (s.needs_takenNames schema take).first
  have hassociations := s.needs_takeAssociations_narrows s.clauses.preloads [] take
  have htake : Needs (s.take ix schema take) _ :=
    hfields.first.and (.andThen fun _ => hassociations)
  exact htake.imp fun ⟨hstores, hnarrows⟩ => hnarrows schema hstores

/-- An expression that is projected takes stored fields. -/
theorem needs_flatten_takesStored (e : Expr) :
    Needs (s.flatten e) (s.clauses.TakesStored s.ctx.registry e) := by
  have hstored : ∀ {m : Projector Unit} {ix schema take}, s.schemaAt? ix = some schema →
      e.take? = some (ix, take) →
      Needs m (s.clauses.Narrows s.ctx.registry s.clauses.preloads schema take) →
        Needs m (s.clauses.TakesStored s.ctx.registry e) := by
    intro m ix schema take hschema htake hm
    refine hm.imp fun hnarrows ix' take' schema' htake' held => ?_
    obtain ⟨rfl, rfl⟩ := Prod.mk.inj (Option.some.inj (htake.symm.trans htake'))
    exact Option.some.inj (hschema.symm.trans (schemaAt?_eq_some_iff.mpr held)) ▸ hnarrows
  obtain ⟨n⟩ := e
  unfold flatten
  rw [Expr.fold_mk]
  cases n with
  | structOf ix take =>
    simp only [Node.map, flattenNode]
    cases hschema : s.schemaAt? ix with
    | none => exact .throw _ _
    | some schema => exact hstored hschema rfl (s.needs_take_narrows ix schema take)
  | mapOf ix take =>
    simp only [Node.map, flattenNode, takeMap]
    cases hschema : s.schemaAt? ix with
    | none =>
      refine .of ?_
      rintro _ _ schema ⟨⟩ held
      cases hschema.symm.trans (schemaAt?_eq_some_iff.mpr held)
    | some schema => exact hstored hschema rfl (s.needs_take_narrows ix schema take)
  | _ =>
    refine .of fun _ _ _ htake => ?_
    cases htake

/-- **Where a selection is expanded, its takes are stored**: the one that it consists of, and those
within tuples, lists and map literals. -/
theorem needs_flatten_components (e : Expr) : Needs (s.flatten e)
    (∀ x, e.Component x → s.clauses.TakesStored s.ctx.registry x) := by
  refine Expr.induction (P := fun e => Needs (s.flatten e)
    (∀ x, e.Component x → s.clauses.TakesStored s.ctx.registry x)) ?_ e
  intro n ih
  have hchildren : Needs (s.flatten ⟨n⟩) (n.isContainer = true → ∀ child ∈ n.children, ∀ x,
      child.Component x → s.clauses.TakesStored s.ctx.registry x) := by
    cases hcontainer : n.isContainer with
    | true => exact (s.needs_flatten_children hcontainer ih).imp fun h _ => h
    | false => exact .of fun h => nomatch h
  refine ((s.needs_flatten_takesStored ⟨n⟩).and hchildren).imp ?_
  rintro ⟨hown, hbelow⟩ x (_ | ⟨hcontainer, hmem, hcomponent⟩)
  · exact hown
  · exact hbelow hcontainer _ hmem x hcomponent

end Selection

/-! ### Accepted queries -/

/-- The normal form of an accepted level that is read selects stored fields only. -/
theorem Clauses.Accepted.selectsStored {ctx : Context} {c : Clauses Query}
    (hoperation : ctx.operation = .all) (h : c.Accepted ctx) :
    ((c.nestedNormal ctx).normal ctx).SelectsStored ctx.registry := by
  have hproject := h.projects.2
  simp only [projectFor, hoperation] at hproject
  obtain ⟨-, r, hr⟩ := (project_ok ctx _).mp hproject
  have htakes := (Selection.needs_flatten_components _ _).first {} r hr
  have hselect : ((c.nestedNormal ctx).normal ctx).select =
      some ⟨((c.nestedNormal ctx).dumped ctx).selected,
        (((c.nestedNormal ctx).dumped ctx).columns ctx).fields⟩ := by
    simp only [normal, normalSelect, hoperation]
  have hsources : ((c.nestedNormal ctx).dumped ctx).sources =
    ((c.nestedNormal ctx).normal ctx).sources := rfl
  refine ⟨_, hselect, fun e he ix take schema htake held => ?_⟩
  exact (htakes e he ix take schema htake (held.congr hsources.symm)).congr hsources

namespace Query

variable {ctx : Context} {P P' : Context → Clauses Query → Prop}

/-- Nested queries are read, and so is a query with them if it is read itself. -/
theorem everywhere_read (q : Query) : ∀ ctx : Context, ctx.operation = .all →
    q.Everywhere (fun ctx _ => ctx.operation = .all) ctx := by
  refine Query.induction (P := fun q => ∀ ctx : Context, ctx.operation = .all →
    q.Everywhere (fun ctx _ => ctx.operation = .all) ctx) ?_ q
  exact fun c ih ctx hoperation => .mk hoperation fun inner hinner => ih inner hinner _ rfl

/-- What holds of the normal form of every level holds everywhere in the normal form. -/
theorem Everywhere.normal {q : Query} (h : q.Everywhere P ctx)
    (hP : ∀ ctx c, P ctx c → P' ctx ((c.nestedNormal ctx).normal ctx)) :
    (q.normal ctx).Everywhere P' ctx := by
  induction h with
  | @mk ctx c level _ ih =>
    rw [normal_mk]
    refine .mk (hP ctx c level) ?_
    rw [Clauses.nested_normal, List.forall_mem_map]
    exact ih

end Query

/-- **The fields that an accepted query takes.**  Take a query that is prepared for reading.  Every
level of what is prepared, however deep it is nested, has a selection.  Wherever this selects a
binding with a schema as a `struct` or a `map`, as a whole or within tuples, lists and map literals,
every field that the take names is declared in the schema and stored.  The same is true of the
fields that it takes of associations: each is read from the binding of a preload, and its fields are
declared and stored there. -/
theorem Planner.prepare_takes {p : Planner} {query : Query} {caps : Capabilities} {plan : Plan}
    {projection : Projection} (h : p.prepare query .all caps = .ok (plan, projection)) :
    plan.query.Everywhere (fun ctx c => c.SelectsStored ctx.registry) (p.context .all caps) := by
  obtain ⟨t, ps, -, -, haccepted, hquery, -⟩ := prepare_cases h
  rw [hquery]
  refine (haccepted.and (t.everywhere_read _ rfl)).normal ?_
  exact fun ctx c ⟨haccepted, hread⟩ => haccepted.selectsStored hread

/-- A selection of a field of the root, and of one of an association that is preloaded from a join,
is expanded if both fields are stored. -/
theorem Selection.run_expand_taken (s : Selection) {own taken association : String} {ix : Nat}
    {root related : Schema} {f g : FieldDef}
    (hpreloads : s.clauses.preloads = [⟨association, some ix, []⟩])
    (hroot : s.schemaAt? 0 = some root) (hrelated : s.schemaAt? ix = some related)
    (hown : root.field? own = some f) (hf : f.isVirtual = false)
    (htaken : related.field? taken = some g) (hg : g.isVirtual = false) :
    (s.expand (.structOf 0 [.field own, .association association [.field taken]])).run {} =
      pure ((), ⟨[.field 0 own, .field ix taken],
        [⟨[association], ix, related.name, [taken]⟩]⟩) := by
  have hselects : Expr.selectsRoot
      (.structOf 0 [.field own, .association association [.field taken]]) = true := rfl
  unfold expand flatten
  rw [Expr.fold_mk, hselects]
  simp [Node.map, flattenNode, hroot, hrelated, take, takeFields, takenNames, takeAssociations,
    hpreloads, joinedPreloads, joinedPreload, addFields, addAssociation, hown, hf, htaken, hg]

/-- Posts narrowed to their identifiers and to the bodies of their comments. -/
def Query.bodiedComments : Query :=
  (((Query.ofSchema "posts" "Post").joinAssociation .left 0 "comments").preload
    ⟨"comments", some 1, []⟩).select
      (.structOf 0 [.field "id", .association "comments" [.field "body"]])

/-- The bodies of the comments are declared and stored. -/
theorem Planner.prepare_takes_bodied :
    ∃ plan projection, (⟨.blog, .builtin, none, {}⟩ : Planner).prepare .bodiedComments .all
        Dialect.postgres.capabilities = .ok (plan, projection) ∧
      plan.query.clauses.SelectsStored .blog := by
  generalize hp : (⟨.blog, .builtin, none, {}⟩ : Planner) = p
  generalize hctx : p.context .all Dialect.postgres.capabilities = ctx
  have hoperation : ctx.operation = .all := hctx ▸ rfl
  have hregistry : ctx.registry = .blog := hctx ▸ hp ▸ rfl
  -- all but the projection is computed: the recursion over takes does not reduce
  have hchecks : (p.plan .bodiedComments .all Dialect.postgres.capabilities).toOption.map
      (fun plan => (plan.query.clauses.passes? ctx, plan.query.clauses.nested.isEmpty,
        [(0, "id"), (1, "body")].map fun taken =>
          ((plan.query.clauses.projectable ctx).schemaAt taken.1).bind fun schema =>
            (schema.field? taken.2).map (·.isVirtual))) =
      some (true, true, [some false, some false]) := by
    subst hctx hp
    decide +kernel
  obtain ⟨plan, hplan, hfacts⟩ := Option.map_eq_some_iff.mp hchecks
  simp only [List.map_cons, List.map_nil, Prod.mk.injEq, List.cons.injEq, and_true,
    Option.bind_eq_some_iff, Option.map_eq_some_iff] at hfacts
  obtain ⟨hpasses, hnested, ⟨root, hroot, f, hown, hf⟩, related, hrelated, g, htaken, hg⟩ := hfacts
  have hok := Except.toOption_eq_some_iff.mp hplan
  have hyields : (Query.bodiedComments.plan ctx).Yields [] plan.query plan.parameters :=
    hctx ▸ (plan_cases hok).1
  have hpreloads : plan.query.clauses.preloads = [⟨"comments", some 1, []⟩] := by
    obtain ⟨b, -, hframe, -⟩ := Query.plan_cases hyields
    exact congrArg (fun f : Clauses Unit => f.preloads) hframe
  have hselected : plan.query.clauses.selected =
      .structOf 0 [.field "id", .association "comments" [.field "body"]] :=
    Query.plan_selected hoperation rfl hyields
  have hproject : ∃ r, plan.query.clauses.projectFor ctx = .ok r := by
    have hrun := Selection.run_expand_taken
      ⟨ctx, plan.query.clauses, plan.query.clauses.selected.render⟩ hpreloads hroot hrelated hown
      hf htaken hg
    rw [← hselected] at hrun
    have hselectable : plan.query.clauses.checkSelectable ctx = .ok () := by
      have hschema : Selection.schemaAt? ⟨ctx, plan.query.clauses, "nil"⟩ 0 = some root := hroot
      simp [Clauses.checkSelectable, hschema]
    rw [Clauses.projectFor, hoperation]
    exact (Clauses.project_ok ctx _).mpr ⟨⟨(), hselectable⟩, _, hrun⟩
  have haccepted : plan.query.Everywhere Clauses.Accepted ctx :=
    (Query.bodiedComments.plan_planned _ _ _ _ hyields).everywhere_accepted
      (List.isEmpty_iff.mp hnested) hpasses hproject
  have hprepared := prepare_of_accepted hok (hctx ▸ haccepted)
  refine ⟨_, _, hprepared, hregistry ▸ ?_⟩
  exact hctx ▸ (Planner.prepare_takes hprepared).level

/-- Posts under an alias, narrowed to a field that they do not have. -/
def Query.aliasedPosts : Query :=
  (Query.ofSchema "posts" "Post").select (.selectedAs (.structOf 0 [.field "nope"]) "post")

/-- A take below an alias is passed on as it is: it may name a field that is not declared. -/
theorem Planner.prepare_take_aliased :
    ∃ plan projection, (⟨.blog, .builtin, none, {}⟩ : Planner).prepare .aliasedPosts .all
        Dialect.postgres.capabilities = .ok (plan, projection) ∧
      ∃ e, .expr e ∈ plan.query.clauses.items .select ∧
        ∃ x ∈ e.walk, ¬ plan.query.clauses.TakesStored .blog x := by
  have hprepared : ((⟨.blog, .builtin, none, {}⟩ : Planner).prepare .aliasedPosts .all
      Dialect.postgres.capabilities).toOption.map (fun prepared =>
        (prepared.1.query.clauses.select.map fun select =>
          (select.expr.walk.filterMap Expr.take?).map fun taken =>
            (taken.1, taken.2.filterMap Take.fieldName?),
          prepared.1.query.clauses.sources[0]?.bind (·.schema?))) =
        some (some [(0, ["nope"])], some "Post") := by
    decide +kernel
  obtain ⟨⟨plan, projection⟩, hprepare, hfacts⟩ := Option.map_eq_some_iff.mp hprepared
  obtain ⟨hselect, hsource⟩ := Prod.mk.inj hfacts
  obtain ⟨select, hselect, htaken⟩ := Option.map_eq_some_iff.mp hselect
  obtain ⟨⟨ix, take⟩, rest, htake, hnames, -⟩ := List.map_eq_cons_iff.mp htaken
  obtain ⟨rfl, hnames⟩ := Prod.mk.inj hnames
  obtain ⟨x, hx, hxtake⟩ := List.mem_filterMap.mp (htake ▸ List.mem_cons_self)
  have hpost : (Registry.blog.lookup? "Post").map (fun schema =>
      (schema.name, schema.fields.map (·.name))) = some ("Post", ["id"]) := by decide +kernel
  obtain ⟨schema, hlookup, hschema⟩ := Option.map_eq_some_iff.mp hpost
  obtain ⟨hname, hfields⟩ := Prod.mk.inj hschema
  refine ⟨plan, projection, Except.toOption_eq_some_iff.mp hprepare, select.expr, ?_, x, hx,
    fun hstored => ?_⟩
  · exact Item.expr_mem_ofExprs.mpr (by simpa [HasExprs.exprs] using ⟨select, hselect, .inl rfl⟩)
  · have hnarrows := hstored 0 take schema hxtake ⟨hname ▸ hsource, hname ▸ hlookup⟩
    obtain ⟨field, hfield, hnope, -⟩ := hnarrows.stores "nope" (hnames ▸ List.mem_singleton_self _)
    have hmem : "nope" ∈ schema.fields.map (·.name) := hnope ▸ List.mem_map_of_mem hfield
    rw [hfields] at hmem
    exact absurd hmem (by decide)

end QueryPlanner
