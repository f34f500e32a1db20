import QueryPlanner.Proofs.CacheKey.Query
import QueryPlanner.Proofs.Normal.Level
import QueryPlanner.Proofs.Plan.Blocks

/-!
# What normalization leaves no doubt about

A planned query that normalization accepts names nothing that is not there: bindings, fields,
aliases and windows all belong to the level that names them.  The one place that this does not hold
for are fragments in place of common table expressions, which normalization does not look into.

* `Clauses.Declares` — what a node names exists at a level
* `Query.Scoped` — that of every level of a query
* `Clauses.finds_iff_declares` — that is what the check of an expression looks for
* `Planner.normalize_scoped` — what normalization accepts is so
* `Planner.normalize_unscoped_cte` — the fragments that it passes over
-/

namespace QueryPlanner

variable {σ : Type}

/-! ### What a level declares -/

/-- A field that may be read of a source: any field of a source without schema, and the fields of a
schema that are stored. -/
def BoundSource.HasField (r : Registry) (source : BoundSource) (name : String) : Prop :=
  ∀ schemaName, source.schema? = some schemaName → ∃ schema field,
    r.lookup? schemaName = some schema ∧ schema.field? name = some field ∧ field.isVirtual = false

namespace Clauses

/-- What the node names exists at the level: its binding, and the field there if it names one, its
alias in the selection, or its window. -/
def Declares (r : Registry) (c : Clauses σ) : Node Expr → Prop
  | .field ix name => ∃ source, c.sources[ix]? = some source ∧ source.HasField r name
  | .binding ix | .structOf ix _ | .mapOf ix _ => ∃ source, c.sources[ix]? = some source
  | .selectedRef name => ∃ select inner, c.select = some select ∧
      .selectedAs inner name ∈ select.expr.walk
  | .windowed _ (.named name) => ∃ window, (name, window) ∈ c.windows
  | _ => True

/-- A level at which everything exists that its expressions name, fragments in place of common table
expressions aside, and all fields that it updates. -/
structure Scoped (r : Registry) (c : Clauses σ) : Prop where
  names : ∀ clause, clause ≠ .withCte → ∀ e, .expr e ∈ c.items clause → ∀ x ∈ e.walk,
    c.Declares r x.node
  updated : ∀ u ∈ c.updates, ∀ field ∈ u.fields, c.Declares r (.field 0 field.1)

end Clauses

/-- A query of which every level is scoped. -/
inductive Query.Scoped (r : Registry) : Query → Prop
  | mk {c : Clauses Query} (level : c.Scoped r)
    (nested : ∀ clause q, .nested q ∈ c.items clause → q.Scoped r) : Scoped r ⟨c⟩

/-! ### What is checked -/

/-- The fields that have a type, or need none, are those that may be read. -/
theorem Context.isSome_typeAt? {ctx : Context} {sources : List BoundSource} {ix : Nat}
    {name : String} : (ctx.typeAt? sources ix name).isSome ↔
      ∃ source, sources[ix]? = some source ∧ source.HasField ctx.registry name := by
  constructor
  · intro h
    obtain ⟨type, htype⟩ := Option.isSome_iff_exists.mp h
    cases type with
    | none =>
      obtain ⟨source, hsource, hnone⟩ := typeAt?_eq_some_none.mp htype
      refine ⟨source, hsource, fun schemaName hschema => ?_⟩
      rw [hnone] at hschema
      cases hschema
    | some type =>
      obtain ⟨source, field, hsource, hfield, -⟩ := typeAt?_eq_some_some.mp htype
      refine ⟨source, hsource, fun schemaName hschema => ?_⟩
      simp only [storedField?, hschema, Option.bind_eq_bind, Option.bind_some,
        Option.bind_eq_some_iff] at hfield
      obtain ⟨schema, hlookup, found, hfound, hstored⟩ := hfield
      refine ⟨schema, found, hlookup, hfound, ?_⟩
      cases hvirtual : found.isVirtual with
      | true => simp [hvirtual] at hstored
      | false => rfl
  · rintro ⟨source, hsource, hreadable⟩
    cases hschema : source.schema? with
    | none =>
      have htype : ctx.typeAt? sources ix name = some none :=
        typeAt?_eq_some_none.mpr ⟨source, hsource, hschema⟩
      exact Option.isSome_iff_exists.mpr ⟨_, htype⟩
    | some schemaName =>
      obtain ⟨schema, field, hlookup, hfound, hstored⟩ := hreadable schemaName hschema
      have hfield : ctx.storedField? source name = some field := by
        simp [storedField?, hschema, hlookup, hfound, hstored]
      have htype := typeAt?_eq_some_some.mpr ⟨source, field, hsource, hfield, rfl⟩
      exact Option.isSome_iff_exists.mpr ⟨_, htype⟩

namespace Clauses

variable {ctx : Context} {c : Clauses σ}

/-- The aliases of a level are those that its selection declares. -/
theorem mem_aliases_iff {name : String} : name ∈ c.aliases ↔
    ∃ select inner, c.select = some select ∧ .selectedAs inner name ∈ select.expr.walk := by
  unfold aliases
  cases hselect : c.select with
  | none => simp
  | some select =>
    simp only [List.mem_filterMap]
    constructor
    · rintro ⟨x, hx, hname⟩
      split at hname
      · cases hname
        exact ⟨select, _, rfl, hx⟩
      · cases hname
    · rintro ⟨_, inner, hsame, hmem⟩
      cases hsame
      exact ⟨_, hmem, rfl⟩

/-- What is found is what exists. -/
theorem finds_iff_declares {clause : Clause} {text : String} {n : Node Expr} :
    (c.references ctx clause text).finds n = true ↔ c.Declares ctx.registry n := by
  have hbinding : ∀ ix, decide (ix < c.sources.length) = true ↔
      ∃ source, c.sources[ix]? = some source := by
    intro ix
    rw [decide_eq_true_iff, ← Option.isSome_iff_exists, isSome_getElem?]
  cases n with
  | field ix name => exact Context.isSome_typeAt?
  | binding ix | structOf ix take | mapOf ix take => exact hbinding ix
  | selectedRef name => exact List.contains_iff_mem.trans mem_aliases_iff
  | windowed inner window =>
    cases window with
    | named name =>
      refine List.contains_iff_mem.trans (List.mem_map.trans ?_)
      exact ⟨fun ⟨⟨_, window⟩, hmem, hname⟩ => ⟨window, hname ▸ hmem⟩,
        fun ⟨window, hmem⟩ => ⟨_, hmem, rfl⟩⟩
    | inline window => exact ⟨fun _ => trivial, fun _ => rfl⟩
  | _ => exact ⟨fun _ => trivial, fun _ => rfl⟩

/-- The level whose references pass is scoped. -/
theorem Refers.scoped (h : c.Refers ctx) : c.Scoped ctx.registry where
  names clause hclause e he x hx := finds_iff_declares.mp (h.passes clause hclause e he x hx).1
  updated u hu field hfield := Context.isSome_typeAt?.mp (h.assigns u hu field hfield).1

end Clauses

/-- Every level of a planned query that normalization accepts is scoped. -/
theorem Query.Planned.scoped_of_normalize {q : Query} (hq : q.Planned) : ∀ ctx : Context,
    (∃ r, q.normalize ctx = .ok r) → q.Scoped ctx.registry := by
  induction hq with
  | mk level _ ih =>
    intro ctx h
    obtain ⟨haccepted, hnested⟩ := (normalize_ok level.select ctx).mp h
    exact .mk haccepted.references.scoped fun clause q hq =>
      ih clause q hq (ctx.nested _) (hnested clause q hq)

/-- **What is accepted is scoped.**  If a query is planned and its plan normalized, then at every
level of the plan, and in each of its clauses but for fragments in place of common table
expressions, what is named exists at that level: bindings, stored fields, aliases and windows. -/
theorem Planner.normalize_scoped (p : Planner) (query : Query) (operation : Operation)
    (caps : Capabilities) (plan : Plan) (normalized : Query × Projection)
    (hplan : p.plan query operation caps = .ok plan)
    (hnormalized : p.normalize plan.query operation caps = .ok normalized) :
    plan.query.Scoped p.registry := by
  have hplanned := query.plan_planned _ _ _ _ (plan_cases hplan).1
  exact hplanned.scoped_of_normalize (p.context operation caps) ⟨normalized, hnormalized⟩

/-- Posts with their labels. -/
def Planner.ofLabelled : Planner where
  registry := .labelled
  conversions := .builtin

/-- Whether what is planned of a query is accepted, if it is planned at all. -/
def Planner.accepts? (p : Planner) (query : Query) : Option Bool :=
  (p.plan query .all Dialect.postgres.capabilities).toOption.map fun plan =>
    (p.normalize plan.query .all Dialect.postgres.capabilities).toOption.isSome

theorem Planner.exists_of_accepts? {p : Planner} {query : Query}
    (h : p.accepts? query = some true) :
    ∃ plan normalized, p.plan query .all Dialect.postgres.capabilities = .ok plan ∧
      p.normalize plan.query .all Dialect.postgres.capabilities = .ok normalized := by
  obtain ⟨plan, hplan, haccepted⟩ := Option.map_eq_some_iff.mp h
  obtain ⟨normalized, hnormalized⟩ := Option.isSome_iff_exists.mp haccepted
  exact ⟨plan, normalized, Except.toOption_eq_some_iff.mp hplan,
    Except.toOption_eq_some_iff.mp hnormalized⟩

/-- The owners of labels in the order of their identifiers, which the selection gives a name. -/
def Query.orderedOwners : Query :=
  (((Query.ofSchema "labels" "Label").joinAssociation .inner 0 "owner").select
    (.selectedAs (.field 1 "id") "owner")).orderBy [⟨.asc, .selectedRef "owner"⟩]

theorem Planner.normalize_scoped_owners :
    ∃ plan normalized, ofLabelled.plan .orderedOwners .all Dialect.postgres.capabilities = .ok plan ∧
      ofLabelled.normalize plan.query .all Dialect.postgres.capabilities = .ok normalized ∧
      plan.query.Scoped .labelled := by
  have haccepts : ofLabelled.accepts? .orderedOwners = some true := by decide +kernel
  obtain ⟨plan, normalized, hplan, hnormalized⟩ := exists_of_accepts? haccepts
  exact ⟨plan, normalized, hplan, hnormalized,
    normalize_scoped ofLabelled _ _ _ plan normalized hplan hnormalized⟩

/-- Posts beside a common table expression whose text names a field of a binding that is not there.
-/
def Query.danglingCte : Query :=
  (Query.ofSchema "posts" "Post").modify ({ · with
    ctes := [⟨"c", .fragment [.raw "select ", .term (.field 7 "nope")], false⟩] })

/-- Whether an item is a field of a binding from `count` on. -/
def Item.isFieldBeyond (count : Nat) : Item σ → Bool
  | .expr (.field ix _) => count ≤ ix
  | _ => false

/-- The fragments of common table expressions are passed over: what they name need not exist. -/
theorem Planner.normalize_unscoped_cte :
    ∃ plan normalized, ofLabelled.plan .danglingCte .all Dialect.postgres.capabilities = .ok plan ∧
      ofLabelled.normalize plan.query .all Dialect.postgres.capabilities = .ok normalized ∧
      ∃ e, .expr e ∈ plan.query.clauses.items .withCte ∧
        ¬ plan.query.clauses.Declares .labelled e.node := by
  have haccepts : ofLabelled.accepts? .danglingCte = some true := by decide +kernel
  obtain ⟨plan, normalized, hplan, hnormalized⟩ := exists_of_accepts? haccepts
  refine ⟨plan, normalized, hplan, hnormalized, ?_⟩
  have hbeyond : ((ofLabelled.plan .danglingCte .all Dialect.postgres.capabilities).toOption.map
      fun plan => (plan.query.clauses.items .withCte).any
        (Item.isFieldBeyond plan.query.clauses.sources.length)) = some true := by
    decide +kernel
  rw [hplan] at hbeyond
  obtain ⟨i, hi, hfield⟩ := List.any_eq_true.mp (Option.some.inj hbeyond)
  unfold Item.isFieldBeyond at hfield
  split at hfield
  · rename_i ix name
    refine ⟨_, hi, ?_⟩
    rintro ⟨source, hsource, -⟩
    rw [List.getElem?_eq_none (of_decide_eq_true hfield)] at hsource
    cases hsource
  · cases hfield

end QueryPlanner
