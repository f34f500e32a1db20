import QueryPlanner.Proofs.Plan.Extension

/-!
# Preparing with more schemas

A query that is prepared never depends on a schema that is not there.  With any registry that has
the schemas of another one and more, it is prepared to the same.

* `Context.Alike.literalForm`, `Clauses.normal_alike` — what contexts agree on that are the same to
  the sources of a level
* `Query.accepted_knowing`, `Query.normal_knowing`, `Query.key_knowing` — whole queries
* `Planner.prepare_knowing` — all of it
-/

namespace QueryPlanner

variable {σ : Type}

/-! ### Levels -/

namespace Context.Alike

variable {ctx ctx' : Context} {sources : List BoundSource} (h : ctx.Alike sources ctx')
include h

theorem storedField? {source : BoundSource} (hsource : source ∈ sources) (name : String) :
    ctx'.storedField? source name = ctx.storedField? source name := by
  unfold Context.storedField?
  cases hschema : source.schema? with
  | none => rfl
  | some schemaName => simp [h.schemas source hsource schemaName hschema]

theorem typeAt? (ix : Nat) (name : String) :
    ctx'.typeAt? sources ix name = ctx.typeAt? sources ix name := by
  unfold Context.typeAt?
  cases hsource : sources[ix]? with
  | none => rfl
  | some source => simp [h.storedField? (List.mem_of_getElem? hsource)]

theorem literalForm : Clauses.literalForm ctx' sources = Clauses.literalForm ctx sources := by
  funext ix name value
  unfold Clauses.literalForm Context.dumpLiteral?
  cases hsource : sources[ix]? with
  | none => rfl
  | some source =>
    simp only [Option.bind_some, h.storedField? (List.mem_of_getElem? hsource), h.conversions]

theorem stored_iff (l : Comparison) : l.Stored ctx' sources ↔ l.Stored ctx sources := by
  have hfield : ∀ source, sources[l.binding]? = some source →
      ctx'.storedField? source l.field = ctx.storedField? source l.field :=
    fun source hsource => h.storedField? (List.mem_of_getElem? hsource) l.field
  unfold Comparison.Stored
  refine forall₂_congr fun source field => forall_congr' fun hsource => ?_
  rw [hfield source hsource, h.conversions]

end Context.Alike

namespace Clauses

section

variable {c : Clauses σ} {ctx ctx' : Context} (h : ctx.Alike c.sources ctx')
include h

theorem passes_alike (e : Expr) : c.Passes ctx' e ↔ c.Passes ctx e := by
  have hfinds : ∀ n : Node Expr, (c.references ctx' .select "").finds n =
      (c.references ctx .select "").finds n := by
    intro n
    cases n with
    | field ix name => exact congrArg Option.isSome (h.typeAt? ix name)
    | windowed inner window => cases window <;> rfl
    | _ => rfl
  unfold Passes References.Passes
  refine forall₂_congr fun x _ => ?_
  rw [hfinds]
  exact and_congr_right fun _ => forall₂_congr fun l _ => h.stored_iff l

theorem passed_alike : c.passed ctx' = c.passed ctx := by
  funext e
  exact congrArg (fun form => e.settle form .nothing) h.literalForm

theorem assignedAt?_alike (op : UpdateOp) (name : String) :
    c.assignedAt? ctx' op name = c.assignedAt? ctx op name := by
  unfold assignedAt?
  rw [h.typeAt?]

theorem assigned_alike : c.assigned ctx' = c.assigned ctx := by
  funext type? e
  unfold assigned
  rw [h.conversions, passed_alike h]

theorem assigns_alike (op : UpdateOp) (field : String × Expr) :
    c.Assigns ctx' op field ↔ c.Assigns ctx op field := by
  unfold Assigns
  rw [h.typeAt?, assignedAt?_alike h, h.conversions]

theorem refers_alike : c.Refers ctx' ↔ c.Refers ctx := by
  constructor
  · exact fun hrefers => ⟨fun clause hclause e he =>
      (passes_alike h e).mp (hrefers.passes clause hclause e he), fun u hu field hfield =>
      (assigns_alike h u.op field).mp (hrefers.assigns u hu field hfield)⟩
  · exact fun hrefers => ⟨fun clause hclause e he =>
      (passes_alike h e).mpr (hrefers.passes clause hclause e he), fun u hu field hfield =>
      (assigns_alike h u.op field).mpr (hrefers.assigns u hu field hfield)⟩

theorem dumped_alike : c.dumped ctx' = c.dumped ctx := by
  unfold dumped
  simp only [passed_alike h, assigned_alike h, assignedAt?_alike h]

end

section

variable {c : Clauses Query} {ctx ctx' : Context} (h : ctx.Alike c.sources ctx')
include h

theorem schemaAt?_alike (text text' : String) :
    (⟨ctx', c, text⟩ : Selection).schemaAt? = (⟨ctx, c, text'⟩ : Selection).schemaAt? := by
  funext ix
  unfold Selection.schemaAt?
  cases hsource : c.sources[ix]? with
  | none => rfl
  | some source =>
    cases hname : source.schema? with
    | none => simp [hname]
    | some name => simp [hname, h.schemas source (List.mem_of_getElem? hsource) name hname]

theorem columns_alike : c.columns ctx' = c.columns ctx := by
  have hprojectable : c.projectable ctx' = c.projectable ctx := by
    unfold projectable Selection.projectable
    rw [schemaAt?_alike h "" ""]
    rfl
  unfold columns
  rw [hprojectable]

theorem projection_alike : c.projection ctx' = c.projection ctx := by
  have hshape : ∀ text e, (⟨ctx', c, text⟩ : Selection).shape e =
      (⟨ctx, c, text⟩ : Selection).shape e := by
    intro text e
    unfold Selection.shape
    rw [schemaAt?_alike h text text]
  unfold projection
  rw [columns_alike h, hshape]

theorem projectionFor_alike (hoperation : ctx'.operation = ctx.operation) :
    c.projectionFor ctx' = c.projectionFor ctx := by
  unfold projectionFor
  rw [hoperation, projection_alike h]

theorem normal_alike (hoperation : ctx'.operation = ctx.operation) :
    c.normal ctx' = c.normal ctx := by
  have hdumped : (c.dumped ctx).columns ctx' = (c.dumped ctx).columns ctx :=
    columns_alike (c := c.dumped ctx) h
  unfold normal normalSelect
  simp only [passed_alike h, assigned_alike h, assignedAt?_alike h, dumped_alike h, hdumped,
    hoperation]

/-- What can be projected in one context can be projected in the other. -/
theorem projectFor_alike (hoperation : ctx'.operation = ctx.operation) :
    (∃ r, c.projectFor ctx' = .ok r) ↔ ∃ r, c.projectFor ctx = .ok r := by
  have hselection : ∀ text, Selection.Alike ⟨ctx', c, text⟩ ⟨ctx, c, text⟩ := fun text =>
    ⟨congrFun (schemaAt?_alike h text text), fun _ => rfl, rfl⟩
  have hself : ∀ text, Selection.Alike ⟨ctx, c, text⟩ ⟨ctx, c, text⟩ := fun _ =>
    ⟨fun _ => rfl, fun _ => rfl, rfl⟩
  have hselectable : c.checkSelectable ctx' = c.checkSelectable ctx := by
    unfold checkSelectable
    simp only [schemaAt?_alike h "nil" "nil"]
  unfold projectFor
  rw [hoperation]
  cases ctx.operation with
  | all =>
    simp only
    rw [project_ok, project_ok, hselectable]
    refine and_congr_right fun _ => ?_
    exact (((hselection _).expand c.selected) {} {} rfl).exists_ok.trans
      (((hself _).expand c.selected) {} {} rfl).exists_ok.symm
  | updateAll | deleteAll => exact Iff.rfl

end

end Clauses

/-! ### Preloads -/

namespace Registry.Extends

variable {r r' : Registry}

mutual

/-- An association leads to the same schema with more of them. -/
theorem leads (h : r'.Extends r) : ∀ {depth : Nat} {owner : Schema} {name : String}
    {reached : Option Schema}, r.Leads depth owner name reached →
      r'.Leads depth owner name reached
  | _, _, _, _, .direct found kind related => .direct found kind (h.target _ related)
  | _, _, _, _, .chain found kind along => .chain found kind (h.leadsAlong along)
  termination_by structural _ _ _ _ leads => leads

theorem leadsAlong (h : r'.Extends r) : ∀ {depth : Nat} {start : Option Schema}
    {names : List String} {reached : Option Schema}, r.LeadsAlong depth start names reached →
      r'.LeadsAlong depth start names reached
  | _, _, _, _, .stay => .stay
  | _, _, _, _, .step hop along => .step (h.leads hop) (h.leadsAlong along)
  termination_by structural _ _ _ _ along => along

end

end Registry.Extends

namespace Clauses

variable {c : Clauses σ} {ctx : Context} {r : Registry} (h : r.Extends ctx.registry)
include h

theorem HoldsSchema.knowing {ix : Nat} {schema : Schema}
    (hholds : c.HoldsSchema ctx.registry ix schema) : c.HoldsSchema r ix schema :=
  ⟨hholds.1, h.lookup? hholds.2⟩

theorem checkPreloads_knowing (hcheck : c.checkPreloads ctx = .ok ()) :
    c.checkPreloads (ctx.knowing r) = .ok () := by
  rw [checkPreloads_iff] at hcheck ⊢
  rcases hcheck with hnone | ⟨hselects, root, hroot, hpreloads⟩
  · exact .inl hnone
  · refine .inr ⟨hselects, root, hroot.knowing h, fun path entry hat => ?_⟩
    obtain ⟨reached, along, hholds⟩ := hpreloads path entry hat
    exact ⟨reached, h.leadsAlong along, hholds⟩

end Clauses

/-! ### Queries -/

/-- Replacements that agree on the nested queries of a level agree. -/
theorem Clauses.edit_congr_nested {c : Clauses Query} {τ : Type} {g g' : Query → τ}
    (h : ∀ q ∈ c.nested, g q = g' q) : c.edit id g = c.edit id g' := by
  refine edit_congr fun clause i hi => ?_
  cases i with
  | expr e => rfl
  | nested q => exact congrArg Item.nested (h q (mem_nested.mpr ⟨clause, hi⟩))

/-- A level that is accepted, and whose schemas are registered, is accepted with more schemas. -/
theorem Clauses.Accepted.knowing {c : Clauses Query} {ctx : Context} {r : Registry}
    (h : r.Extends ctx.registry) (haccepted : c.Accepted ctx)
    (hsources : ∀ source ∈ c.sources, source.Registered ctx.registry) :
    c.Accepted (ctx.knowing r) := by
  have halike := Context.alike_knowing h hsources
  obtain ⟨_, hpreloads⟩ := haccepted.preloads
  exact
    { bound := haccepted.bound
      operation := haccepted.operation
      order := haccepted.order
      references := (refers_alike halike).mpr haccepted.references
      preloads := ⟨(), checkPreloads_knowing h hpreloads⟩
      projection := (projectFor_alike halike rfl).mpr haccepted.projection }

namespace Query

/-- The schemas of every level are registered. -/
abbrev Registered (ctx : Context) (t : Query) : Prop :=
  t.Everywhere (fun ctx c => ∀ source ∈ c.sources, source.Registered ctx.registry) ctx

variable {ctx : Context} {r : Registry} {t : Query}

theorem accepted_knowing (haccepted : t.Everywhere Clauses.Accepted ctx)
    (ht : t.Registered ctx) (h : r.Extends ctx.registry) :
    t.Everywhere Clauses.Accepted (ctx.knowing r) := by
  induction haccepted with
  | @mk ctx c level _ ih =>
    obtain @⟨_, _, hlevel, hnested⟩ := ht
    exact .mk (level.knowing h hlevel) fun q hq => ih q hq (hnested q hq) h

theorem normal_knowing (ht : t.Registered ctx) (h : r.Extends ctx.registry) :
    t.normal (ctx.knowing r) = t.normal ctx := by
  induction ht with
  | @mk ctx c level _ ih =>
    have hnested : c.nestedNormal (ctx.knowing r) = c.nestedNormal ctx :=
      Clauses.edit_congr_nested fun q hq => ih q hq h
    have halike : ctx.Alike (c.nestedNormal ctx).sources (ctx.knowing r) :=
      Context.alike_knowing h level
    rw [normal_mk, normal_mk, hnested, Clauses.normal_alike halike rfl]

theorem projection_knowing (ht : t.Registered ctx) (h : r.Extends ctx.registry) :
    t.projection (ctx.knowing r) = t.projection ctx := by
  obtain @⟨_, c, level, nested⟩ := ht
  have hnested : c.nestedNormal (ctx.knowing r) = c.nestedNormal ctx :=
    Clauses.edit_congr_nested fun q hq => normal_knowing (nested q hq) h
  have halike : ctx.Alike (c.nestedNormal ctx).sources (ctx.knowing r) :=
    Context.alike_knowing h level
  have halike' : ctx.Alike ((c.nestedNormal ctx).dumped ctx).sources (ctx.knowing r) := halike
  unfold projection
  rw [hnested, Clauses.dumped_alike halike, Clauses.projectionFor_alike halike' rfl]

/-- Literals are keyed in the same stored forms. -/
theorem key_knowing (ht : t.Registered ctx) (h : r.Extends ctx.registry) :
    ∀ ctx₀ : Context, ctx₀.registry = ctx.registry → t.key (ctx₀.knowing r) = t.key ctx₀ := by
  induction ht with
  | @mk ctx c level _ ih =>
    intro ctx₀ hregistry
    have hkey : ∀ ctx, key ctx ⟨c⟩ = (c.edit id (key ctx)).key ctx := fun ctx => by
      rw [← Clauses.map_eq_edit]
      exact fold_mk _ c
    have hnested : c.edit id (key (ctx₀.knowing r)) = c.edit id (key ctx₀) :=
      Clauses.edit_congr_nested fun q hq => ih q hq h ctx₀ hregistry
    have halike : ctx₀.Alike (c.edit id (key ctx₀)).sources (ctx₀.knowing r) :=
      Context.alike_knowing (hregistry ▸ h) (hregistry ▸ level)
    rw [hkey, hkey, hnested]
    funext operation
    unfold Clauses.key
    rw [halike.literalForm]

end Query

/-- **Schemas that are not asked for** make no difference.  A query that is prepared, for any
operation and database, is prepared with every registry that has further schemas, under names that
are new: to the same normalized query, with the same parameters, the same cache key and the same
projection. -/
theorem Planner.prepare_knowing {p : Planner} {r : Registry} (h : r.Extends p.registry)
    {query : Query} {operation : Operation} {caps : Capabilities} {plan : Plan}
    {projection : Projection} (hprepare : p.prepare query operation caps = .ok (plan, projection)) :
    ({ p with registry := r } : Planner).prepare query operation caps = .ok (plan, projection) := by
  have hctx : ({ p with registry := r } : Planner).context operation caps =
      (p.context operation caps).knowing r := rfl
  obtain ⟨planned, hplan, hnormalize⟩ := Except.bind_eq_ok.mp hprepare
  obtain ⟨hyields, hkey, hfingerprint⟩ := plan_iff.mp hplan
  have hregistered := query.plan_registered _ _ _ _ hyields
  have hsame : planned.query.key ((p.context operation caps).knowing r) =
      planned.query.key (p.context operation caps) :=
    Query.key_knowing hregistered h _ rfl
  have hplan' : ({ p with registry := r } : Planner).plan query operation caps = .ok planned := by
    refine plan_iff.mpr ⟨query.plan_knowing _ h hyields, ?_, hfingerprint⟩
    rw [hkey, hctx]
    unfold cacheKey Query.cacheKey
    rw [hsame]
    rfl
  have haccepted : planned.query.Everywhere Clauses.Accepted (p.context operation caps) := by
    obtain ⟨r, hnormal, -⟩ := Except.bind_eq_ok.mp hnormalize
    exact ((query.plan_planned _ _ _ _ hyields).normalize_iff _).mp ⟨r, hnormal⟩
  have hprepare' := prepare_of_accepted hplan' (Query.accepted_knowing haccepted hregistered h)
  rw [hprepare', hctx, Query.normal_knowing hregistered h, Query.projection_knowing hregistered h,
    ← prepare_of_accepted hplan haccepted, hprepare]

/-- Tags of posts. -/
def Schema.tags : Schema := (ofTable "Tag" "tags").belongsTo "post" "Post"

/-- Posts with a certain identifier, with their commenters, beside all posts with their comments. -/
def Query.commentersOfPost : Query :=
  .filter .postsOfCommenters ((Expr.field 0 "id").eq (.pin (.int 7)))

/-- Tags make no difference to a query that knows nothing of them. -/
theorem Planner.prepare_knowing_tags :
    (Registry.blog.insert .tags).Extends .blog ∧
    ∃ plan projection, (⟨.blog, .builtin, none, {}⟩ : Planner).prepare .commentersOfPost .all
        Dialect.postgres.capabilities = .ok (plan, projection) ∧
      (⟨.insert .blog .tags, .builtin, none, {}⟩ : Planner).prepare .commentersOfPost .all
        Dialect.postgres.capabilities = .ok (plan, projection) ∧ plan.parameters.length = 1 := by
  have hextends : (Registry.blog.insert .tags).Extends .blog :=
    Registry.extends_insert (by decide +kernel)
  have haccepted : ((⟨.blog, .builtin, none, {}⟩ : Planner).prepare .commentersOfPost .all
      Dialect.postgres.capabilities).toOption.map (·.1.parameters.length) = some 1 := by
    decide +kernel
  obtain ⟨⟨plan, projection⟩, hprepare, hparameters⟩ := Option.map_eq_some_iff.mp haccepted
  have hok := Except.toOption_eq_some_iff.mp hprepare
  have hmore := Planner.prepare_knowing (p := ⟨.blog, .builtin, none, {}⟩) hextends hok
  exact ⟨hextends, plan, projection, hok, hmore, hparameters⟩

end QueryPlanner
