import QueryPlanner.Proofs.Normal.Lawful
import QueryPlanner.Proofs.Normal.Leads

/-!
# Where a preload is read from

A preload that names a binding is read from there.  Planning looks the binding up among the joins
and refuses it where the join may lose rows; normalization compares the schema that the binding
holds with the one that the preload leads to.  Neither insists that there is a join: the binding of
`from` passes both, if its schema is the one that the preload leads to.

* `Preload.At` — a preload at the end of a path of associations
* `checkPreloadJoins_iff`, `checkPreloadList_iff` — what each of the two checks decides
* `Clauses.Supplies` — a binding that a preload can be read from
* `Planner.prepare_preloads` — what is known of a preload in an accepted query
-/

namespace QueryPlanner

open HasExprs

variable {σ τ : Type}

/-! ### Preloads and their paths -/

/-- The preload `entry` stands in a forest of preloads, at the end of the path of the associations
that are preloaded above it and its own. -/
inductive Preload.At : (forest : List Preload) → (path : List String) → (entry : Preload) → Prop
  | top {forest p} (mem : p ∈ forest) : At forest [p.association] p
  | child {forest p path entry} (mem : p ∈ forest) (below : At p.children path entry) :
      At forest (p.association :: path) entry

namespace Preload

variable {p entry : Preload} {forest : List Preload} {path : List String}

theorem not_at_nil : ¬ At [] path entry := by
  rintro (mem | ⟨mem, -⟩) <;> cases mem

theorem at_cons : At (p :: forest) path entry ↔
    (path = [p.association] ∧ entry = p ∨
      ∃ rest, path = p.association :: rest ∧ At p.children rest entry) ∨ At forest path entry := by
  constructor
  · rintro (mem | ⟨mem, below⟩)
    · rcases List.mem_cons.mp mem with rfl | mem
      · exact .inl (.inl ⟨rfl, rfl⟩)
      · exact .inr (.top mem)
    · rcases List.mem_cons.mp mem with rfl | mem
      · exact .inl (.inr ⟨_, rfl, below⟩)
      · exact .inr (.child mem below)
  · rintro ((⟨rfl, rfl⟩ | ⟨rest, rfl, below⟩) | mem | ⟨mem, below⟩)
    · exact .top List.mem_cons_self
    · exact .child List.mem_cons_self below
    · exact .top (List.mem_cons_of_mem p mem)
    · exact .child (List.mem_cons_of_mem p mem) below

/-- What holds of all preloads in a forest holds of the first one, of what is below it, and of the
rest. -/
theorem forall_at_cons {P : List String → Preload → Prop} :
    (∀ path entry, At (p :: forest) path entry → P path entry) ↔
      (P [p.association] p ∧
        ∀ path entry, At p.children path entry → P (p.association :: path) entry) ∧
      ∀ path entry, At forest path entry → P path entry := by
  simp only [at_cons]
  constructor
  · intro h
    exact ⟨⟨h _ _ (.inl (.inl ⟨rfl, rfl⟩)),
      fun path entry below => h _ _ (.inl (.inr ⟨path, rfl, below⟩))⟩,
      fun path entry hat => h path entry (.inr hat)⟩
  · rintro ⟨⟨hfirst, hbelow⟩, hrest⟩ path entry ((⟨rfl, rfl⟩ | ⟨rest, rfl, below⟩) | hat)
    · exact hfirst
    · exact hbelow rest entry below
    · exact hrest path entry hat

end Preload

/-! ### The check against the joins -/

/-- If the binding of a preload is that of a join, then of one that allows preloads. -/
def Preload.Hangs (joins : List (Join σ)) (p : Preload) : Prop :=
  ∀ ix join, p.binding = some ix → joins.find? (·.ix == some ix) = some join →
    join.qualifier.allowsPreload = true

/-- A preload hangs alike on joins with the same bindings and qualifiers. -/
theorem Preload.Hangs.congr {joins : List (Join σ)} {joins' : List (Join τ)} {p : Preload}
    (hsame : joins.map (fun j => (j.ix, j.qualifier)) = joins'.map fun j => (j.ix, j.qualifier))
    (h : p.Hangs joins) : p.Hangs joins' := by
  intro ix join' hbinding hfind'
  have hfind : (joins.find? (·.ix == some ix)).map (fun j => (j.ix, j.qualifier)) =
      (joins'.find? (·.ix == some ix)).map fun j => (j.ix, j.qualifier) := by
    have hmap := congrArg (List.find? (·.1 == some ix)) hsame
    simpa only [List.find?_map, Function.comp_def] using hmap
  rw [hfind', Option.map_some] at hfind
  obtain ⟨join, hjoin, hqualifier⟩ := Option.map_eq_some_iff.mp hfind
  exact (Prod.mk.inj hqualifier).2 ▸ h ix join hbinding hjoin

/-- The binding of a join that a preload hangs on is that of one that allows preloads. -/
theorem Preload.Hangs.exists_join {joins : List (Join σ)} {p : Preload} {ix : Nat}
    (h : p.Hangs joins) (hbinding : p.binding = some ix) (hjoin : ∃ j ∈ joins, j.ix = some ix) :
    ∃ j ∈ joins, j.ix = some ix ∧ j.qualifier ∈ [.inner, .left, .innerLateral, .leftLateral] := by
  obtain ⟨j, hj, hix⟩ := hjoin
  obtain ⟨first, hfirst⟩ := Option.isSome_iff_exists.mp
    (List.find?_isSome (p := (·.ix == some ix)).mpr ⟨j, hj, by simpa using hix⟩)
  refine ⟨first, List.mem_of_find?_eq_some hfirst, by simpa using List.find?_some hfirst, ?_⟩
  have hallows := h ix first hbinding hfirst
  cases hqualifier : first.qualifier <;> simp [hqualifier, JoinQualifier.allowsPreload] at hallows ⊢

mutual

theorem checkPreloadJoin_iff (joins : List (Join σ)) : ∀ p : Preload,
    checkPreloadJoin joins p = .ok () ↔
      p.Hangs joins ∧ ∀ path entry, Preload.At p.children path entry → entry.Hangs joins
  | ⟨association, binding, children⟩ => by
    have hchildren := checkPreloadJoins_iff joins children
    rw [checkPreloadJoin, ← hchildren]
    cases hjoin : binding.bind fun ix => joins.find? (·.ix == some ix) with
    | none =>
      refine (and_iff_right fun ix join hbinding hfind => ?_).symm
      rw [show binding = some ix from hbinding, Option.bind_some, hfind] at hjoin
      cases hjoin
    | some join =>
      have hhangs : Preload.Hangs joins ⟨association, binding, children⟩ ↔
          join.qualifier.allowsPreload = true := by
        obtain ⟨ix, rfl, hfind⟩ := Option.bind_eq_some_iff.mp hjoin
        constructor
        · exact fun h => h ix join rfl hfind
        · rintro h ix' join' hbinding hfind'
          obtain rfl := Option.some.inj hbinding
          obtain rfl := Option.some.inj (hfind.symm.trans hfind')
          exact h
      rw [hhangs]
      cases hallows : join.qualifier.allowsPreload with
      | false => simp [hallows, throw, throwThe, MonadExceptOf.throw, bind, Except.bind]
      | true => simp [hallows]

/-- **The check against the joins** passes just if no preload is read from a join that may lose
rows. -/
theorem checkPreloadJoins_iff (joins : List (Join σ)) : ∀ ps : List Preload,
    checkPreloadJoins joins ps = .ok () ↔
      ∀ path entry, Preload.At ps path entry → entry.Hangs joins
  | [] => by
    simp only [checkPreloadJoins, true_iff]
    exact fun path entry hat => absurd hat Preload.not_at_nil
  | p :: ps => by
    rw [checkPreloadJoins, Except.bind_eq_ok, Unique.exists_iff, Preload.forall_at_cons]
    exact and_congr (checkPreloadJoin_iff joins p) (checkPreloadJoins_iff joins ps)

end

/-! ### The check against the schemas -/

/-- If a preload names a binding, then one that holds the schema that the preload leads to. -/
def Preload.Holds (sources : List BoundSource) (reached : Option Schema) (p : Preload) : Prop :=
  ∀ ix, p.binding = some ix →
    ∃ schema, reached = some schema ∧ sources[ix]?.bind (·.schema?) = some schema.name

theorem checkHolds_iff {sources : List BoundSource} {site : Site} {association : String}
    {reached : Option Schema} {ix : Nat} :
    checkHolds sources site association reached ix = .ok () ↔
      ∃ schema, reached = some schema ∧ sources[ix]?.bind (·.schema?) = some schema.name := by
  unfold checkHolds
  cases hheld : sources[ix]?.bind (·.schema?) with
  | none => simp
  | some held =>
    cases reached with
    | none => simp
    | some schema =>
      by_cases hname : held = schema.name <;> simp [hname]

mutual

theorem checkPreload_iff (ctx : Context) (sources : List BoundSource) : ∀ (p : Preload)
    (schema : Schema) (path : List String),
      checkPreload ctx sources schema path p = .ok () ↔
        ∃ reached, ctx.registry.Leads (maxChainDepth + 1) schema p.association reached ∧
          p.Holds sources reached ∧
          ∀ below entry, Preload.At p.children below entry →
            ∃ reached', ctx.registry.LeadsAlong (maxChainDepth + 1) reached below reached' ∧
              entry.Holds sources reached'
  | ⟨association, binding, children⟩, schema, path => by
    have hchildren := checkPreloadList_iff ctx sources children
    rw [checkPreload, Except.bind_eq_ok]
    refine exists_congr fun reached => and_congr Context.preloadTarget_eq_ok_iff ?_
    have hrest : ((match reached with
        | some related => checkPreloadList ctx sources related (path ++ [association]) children
        | none =>
          if children.isEmpty then .ok ()
          else .error (.malformed ⟨.preload, dotted (path ++ [association])⟩
            (.preloadThroughTable association)) : Except PlanError Unit) = .ok ()) ↔
        ∀ below entry, Preload.At children below entry →
          ∃ reached', ctx.registry.LeadsAlong (maxChainDepth + 1) reached below reached' ∧
            entry.Holds sources reached' := by
      cases reached with
      | some related => exact hchildren related _
      | none =>
        cases children with
        | nil => simpa using fun _ _ hat => absurd hat Preload.not_at_nil
        | cons first rest =>
          refine iff_of_false (by simp) fun h => ?_
          obtain ⟨_, along, -⟩ := h _ _ (.top List.mem_cons_self)
          exact Registry.leadsAlong_none along
    rw [← hrest]
    cases binding with
    | none => exact (and_iff_right fun ix hix => nomatch hix).symm
    | some ix =>
      have hholds : Preload.Holds sources reached ⟨association, some ix, children⟩ ↔
          checkHolds sources ⟨.preload, dotted (path ++ [association])⟩ association reached ix =
            .ok () := by
        rw [checkHolds_iff]
        exact ⟨fun h => h ix rfl, fun h ix' hix => Option.some.inj hix ▸ h⟩
      rw [hholds]
      exact Except.bind_eq_ok.trans Unique.exists_iff

/-- **The check against the schemas** passes just if every preload leads somewhere, and its binding
holds what it leads to. -/
theorem checkPreloadList_iff (ctx : Context) (sources : List BoundSource) : ∀ (ps : List Preload)
    (schema : Schema) (path : List String),
      checkPreloadList ctx sources schema path ps = .ok () ↔
        ∀ names entry, Preload.At ps names entry →
          ∃ reached, ctx.registry.LeadsAlong (maxChainDepth + 1) (some schema) names reached ∧
            entry.Holds sources reached
  | [], schema, path => by
    simp only [checkPreloadList, true_iff]
    exact fun names entry hat => absurd hat Preload.not_at_nil
  | p :: ps, schema, path => by
    rw [checkPreloadList, Except.bind_eq_ok, Unique.exists_iff, Preload.forall_at_cons,
      checkPreloadList_iff ctx sources ps, checkPreload_iff ctx sources p]
    refine and_congr_left fun _ => ?_
    simp only [Registry.leadsAlong_cons, Registry.leadsAlong_nil]
    constructor
    · rintro ⟨reached, leads, hholds, hbelow⟩
      refine ⟨⟨reached, ⟨reached, leads, rfl⟩, hholds⟩, fun below entry hat => ?_⟩
      obtain ⟨reached', along, hentry⟩ := hbelow below entry hat
      exact ⟨reached', ⟨reached, leads, along⟩, hentry⟩
    · rintro ⟨⟨reached, ⟨_, leads, rfl⟩, hholds⟩, hbelow⟩
      refine ⟨reached, leads, hholds, fun below entry hat => ?_⟩
      obtain ⟨reached', ⟨next, leads', along⟩, hentry⟩ := hbelow below entry hat
      exact ⟨reached', Context.leads_unique _ leads leads' ▸ along, hentry⟩

end

/-! ### The level -/

theorem Context.schema_eq_ok_iff {ctx : Context} {site : Site} {name : String} {schema : Schema} :
    ctx.schema site name = .ok schema ↔
      name = schema.name ∧ ctx.registry.lookup? schema.name = some schema := by
  unfold Context.schema
  constructor
  · intro h
    cases hlookup : ctx.registry.lookup? name with
    | none => simp [hlookup] at h
    | some found =>
      obtain rfl : found = schema := by simpa [hlookup] using h
      obtain rfl := Registry.name_of_lookup? hlookup
      exact ⟨rfl, hlookup⟩
  · rintro ⟨rfl, hlookup⟩
    rw [hlookup]

namespace Clauses

variable {ctx : Context} {c : Clauses σ} {d : Clauses τ} {r : Registry}

/-- What `ix` holds is a table with a registered schema. -/
def HoldsSchema (r : Registry) (c : Clauses σ) (ix : Nat) (schema : Schema) : Prop :=
  c.sources[ix]?.bind (·.schema?) = some schema.name ∧ r.lookup? schema.name = some schema

/-- A preload at the end of `path` can be read from the binding `ix`: it holds the schema that the
path leads to from the schema of `from`, and it is the binding of a join that allows preloads, or
that of `from`. -/
structure Supplies (r : Registry) (c : Clauses σ) (path : List String) (ix : Nat) : Prop where
  joined : ix = 0 ∨ ∃ j ∈ c.joins, j.ix = some ix ∧
    j.qualifier ∈ [.inner, .left, .innerLateral, .leftLateral]
  held : ∃ root reached, c.HoldsSchema r 0 root ∧
    r.LeadsAlong (maxChainDepth + 1) (some root) path (some reached) ∧ c.HoldsSchema r ix reached

/-- **The check of the preloads of a level** passes just if there are none, or if the rows of `from`
are selected, have a schema, and every preload leads somewhere from there, its binding holding what
it leads to. -/
theorem checkPreloads_iff : c.checkPreloads ctx = .ok () ↔ c.preloads = [] ∨
    (∀ select, c.select = some select → select.expr.selectsRoot = true) ∧
    ∃ root, c.HoldsSchema ctx.registry 0 root ∧
      ∀ path entry, Preload.At c.preloads path entry →
        ∃ reached, ctx.registry.LeadsAlong (maxChainDepth + 1) (some root) path reached ∧
          entry.Holds c.sources reached := by
  cases hpreloads : c.preloads with
  | nil => simp [checkPreloads, hpreloads]
  | cons first rest =>
    simp only [checkPreloads, hpreloads, HoldsSchema, ← List.head?_eq_getElem?, reduceCtorEq,
      false_or]
    cases hname : c.sources.head?.bind (·.schema?) with
    | none =>
      simp only [reduceCtorEq, false_and, exists_false, and_false, iff_false]
      cases c.select with
      | none => simp [throw, throwThe, MonadExceptOf.throw]
      | some select =>
        cases hselected : select.expr.selectsRoot <;>
          simp [hselected, throw, throwThe, MonadExceptOf.throw, bind, Except.bind]
    | some name =>
      have hroot : (do
          let root ← ctx.schema ⟨.preload, first.association⟩ name
          checkPreloadList ctx c.sources root [] (first :: rest)) = .ok () ↔
          ∃ root, (some name = some root.name ∧ ctx.registry.lookup? root.name = some root) ∧
            ∀ path entry, Preload.At (first :: rest) path entry →
              ∃ reached, ctx.registry.LeadsAlong (maxChainDepth + 1) (some root) path reached ∧
                entry.Holds c.sources reached := by
        simp only [Except.bind_eq_ok, Option.some.injEq, checkPreloadList_iff,
          Context.schema_eq_ok_iff]
      rw [← hroot]
      cases c.select with
      | none => simp
      | some select =>
        cases hselected : select.expr.selectsRoot <;>
          simp [hselected, throw, throwThe, MonadExceptOf.throw, bind, Except.bind]

theorem HoldsSchema.congr (hsources : c.sources = d.sources) {ix : Nat} {schema : Schema}
    (h : c.HoldsSchema r ix schema) : d.HoldsSchema r ix schema := by
  rwa [HoldsSchema, ← hsources]

theorem Supplies.congr (hsources : c.sources = d.sources)
    (hjoins : c.joins.map (fun j => (j.ix, j.qualifier)) =
      d.joins.map fun j => (j.ix, j.qualifier)) {path : List String} {ix : Nat}
    (h : c.Supplies r path ix) : d.Supplies r path ix := by
  constructor
  · rcases h.joined with hzero | ⟨j, hj, hix, hqualifier⟩
    · exact .inl hzero
    have hmem := List.mem_map_of_mem (f := fun j : Join σ => (j.ix, j.qualifier)) hj
    rw [hjoins] at hmem
    obtain ⟨j', hj', hsame⟩ := List.mem_map.mp hmem
    obtain ⟨hix', hqualifier'⟩ := Prod.mk.inj hsame
    exact .inr ⟨j', hj', hix'.trans hix, hqualifier' ▸ hqualifier⟩
  · obtain ⟨root, reached, hroot, along, hreached⟩ := h.held
    exact ⟨root, reached, hroot.congr hsources, along, hreached.congr hsources⟩

/-- In a planned level whose preloads pass the check, a preload that names a binding can be read
from there. -/
theorem supplies_of_checkPreloads {b : Bindings σ} (hb : c.resolve ctx = .ok b)
    (hframe : d.frame = (c.prepared b).frame) (hcheck : d.checkPreloads ctx = .ok ())
    {path : List String} {entry : Preload} {ix : Nat} (hat : Preload.At c.preloads path entry)
    (hix : entry.binding = some ix) : d.Supplies ctx.registry path ix := by
  have hpreloads : d.preloads = c.preloads := congrArg Clauses.preloads hframe
  have hjoins : d.joins.map (fun j => (j.ix, j.qualifier)) =
      b.joins.map fun j => (j.ix, j.qualifier) := by
    have hframes := congrArg (fun c => c.joins.map fun j => (j.ix, j.qualifier)) hframe
    simpa [frame, edit, prepared, Join.prepared, Join.edit, Function.comp_def] using hframes
  obtain ⟨-, -, a, -, -, -, hhangs, -, hsame, -⟩ := resolve_cases hb
  have hhang := (checkPreloadJoins_iff a.joins c.preloads).mp hhangs path entry hat
  rw [← hsame] at hhang
  rcases checkPreloads_iff.mp hcheck with hnone | ⟨-, root, hroot, hall⟩
  · rw [← hpreloads, hnone] at hat
    exact absurd hat Preload.not_at_nil
  obtain ⟨reached, along, hholds⟩ := hall path entry (hpreloads ▸ hat)
  obtain ⟨schema, rfl, hheld⟩ := hholds ix hix
  have hregistered := along.registered (by simpa using hroot.2) schema rfl
  refine ⟨?_, root, schema, hroot, along, hheld, hregistered⟩
  obtain ⟨source, hsource, -⟩ := Option.bind_eq_some_iff.mp hheld
  obtain ⟨hlt, -⟩ := List.getElem?_eq_some_iff.mp hsource
  exact ((bound_of_frame_eq hb hframe).covered ix hlt).imp_right
    ((hhang.congr hjoins.symm).exists_join hix)

end Clauses

/-! ### Queries -/

/-- A relation between what is planned and what comes of it, at every level of a query and of the
one that is made of it.  Only nested queries that are considered are planned. -/
inductive Query.Throughout (R : Context → Clauses Query → Clauses Query → Prop) :
    Context → Query → Query → Prop
  | mk {ctx : Context} {c d : Clauses Query} (level : R ctx c d)
    (count : c.considered.nested.length = d.nested.length)
    (nested : ∀ pair ∈ c.considered.nested.zip d.nested,
      Throughout R (ctx.nested c.queryPrefix) pair.1 pair.2) : Throughout R ctx ⟨c⟩ ⟨d⟩

namespace Query.Throughout

variable {R : Context → Clauses Query → Clauses Query → Prop} {ctx : Context} {q t : Query}

theorem level (h : q.Throughout R ctx t) : R ctx q.clauses t.clauses := by
  cases h with
  | mk level => exact level

theorem count (h : q.Throughout R ctx t) :
    q.clauses.considered.nested.length = t.clauses.nested.length := by
  cases h with
  | mk _ count => exact count

theorem nested (h : q.Throughout R ctx t) :
    ∀ pair ∈ q.clauses.considered.nested.zip t.clauses.nested,
      pair.1.Throughout R (ctx.nested q.clauses.queryPrefix) pair.2 := by
  cases h with
  | mk _ _ nested => exact nested

end Query.Throughout

theorem Source.nested_edit (f : Expr → Expr) (g : σ → τ) (s : Source σ) :
    (s.edit f g).nested = s.nested.map g := by
  cases s <;> rfl

theorem CteBody.nested_edit (f : Expr → Expr) (g : σ → τ) (b : CteBody σ) :
    (b.edit f g).nested = b.nested.map g := by
  cases b <;> rfl

namespace Clauses

theorem nested_edit (f : Expr → Expr) (g : σ → τ) (c : Clauses σ) :
    (c.edit f g).nested = c.nested.map g := by
  simp only [nested, edit, List.map_append, List.map_flatMap, List.flatMap_map, List.map_map,
    Cte.edit, Option.toList_map, FromClause.edit, Join.edit, Combination.map,
    Source.nested_edit, CteBody.nested_edit, Function.comp_def]

/-- The nested queries of a normalized level are normalized. -/
theorem nested_normal (ctx : Context) (c : Clauses Query) :
    ((c.nestedNormal ctx).normal ctx).nested =
      c.nested.map fun q => q.normal (ctx.nested c.queryPrefix) := by
  have hnested : ∀ d : Clauses Query, (d.normal ctx).nested = d.nested := by
    intro d
    simp only [nested, normal, List.flatMap_map, Option.toList_map, FromClause.edit, Join.edit,
      Source.nested_edit, List.map_id]
  rw [hnested, nestedNormal, nested_edit]

end Clauses

namespace Query

/-- Normalizing what is planned keeps the preloads of every level, and those that name a binding can
be read from there. -/
theorem throughout_normal (q : Query) : ∀ (ctx : Context) ps t qs, (q.plan ctx).Yields ps t qs →
    t.Everywhere Clauses.Accepted ctx →
      q.Throughout (fun ctx c d => d.preloads = c.preloads ∧
        ∀ path entry ix, Preload.At c.preloads path entry → entry.binding = some ix →
          d.Supplies ctx.registry path ix) ctx (t.normal ctx) := by
  refine Query.induction (P := fun q => ∀ (ctx : Context) ps t qs, (q.plan ctx).Yields ps t qs →
    t.Everywhere Clauses.Accepted ctx → q.Throughout _ ctx (t.normal ctx)) ?_ q
  intro c ih ctx ps t qs h haccepted
  obtain ⟨b, hb, hframe, -⟩ := plan_cases h
  obtain ⟨hcount, hnested⟩ := List.forall₂_iff_zip.mp (plan_queries h)
  obtain ⟨d⟩ := t
  have hprefix : d.queryPrefix = c.queryPrefix :=
    congrArg (fun f : Clauses Unit => f.queryPrefix) hframe
  have hpreloads : d.preloads = c.preloads :=
    congrArg (fun f : Clauses Unit => f.preloads) hframe
  obtain ⟨_, hcheck⟩ := haccepted.level.preloads
  rw [normal_mk]
  refine .mk ⟨hpreloads, fun path entry ix hat hix => ?_⟩ ?_ ?_
  · have hsupplies : d.Supplies ctx.registry path ix :=
      Clauses.supplies_of_checkPreloads hb hframe hcheck hat hix
    have hsources : d.sources = ((d.nestedNormal ctx).normal ctx).sources := rfl
    refine hsupplies.congr hsources ?_
    simp [Clauses.normal, Clauses.nestedNormal, Clauses.edit, Join.edit, Function.comp_def]
  · rw [Clauses.nested_normal, List.length_map]
    exact hcount
  · rw [Clauses.nested_normal, List.zip_map_right, List.forall_mem_map]
    rintro ⟨inner, planned⟩ hpair
    obtain ⟨rs, ts, hyields⟩ := hnested hpair
    rw [← hprefix] at hyields ⊢
    exact ih inner (Clauses.considered_nested_subset (List.of_mem_zip hpair).1) _ rs planned ts
      hyields (haccepted.nested planned (List.of_mem_zip hpair).2)

end Query

/-- What is prepared is a plan that is accepted at every level, in its normal form. -/
theorem Planner.prepare_cases {p : Planner} {query : Query} {operation : Operation}
    {caps : Capabilities} {plan : Plan} {projection : Projection}
    (h : p.prepare query operation caps = .ok (plan, projection)) :
    ∃ t ps, (query.plan (p.context operation caps)).Yields [] t ps ∧ t.Planned ∧
      t.Everywhere Clauses.Accepted (p.context operation caps) ∧
      plan.query = t.normal (p.context operation caps) ∧
      projection = t.projection (p.context operation caps) := by
  obtain ⟨planned, hplan, hnormalize⟩ := Except.bind_eq_ok.mp h
  obtain ⟨⟨normal, projected⟩, hnormal, hresult⟩ := Except.bind_eq_ok.mp hnormalize
  obtain ⟨rfl, rfl⟩ := Prod.mk.inj (Except.ok.inj hresult)
  have hyields := (plan_cases hplan).1
  have hplanned := query.plan_planned _ _ _ _ hyields
  obtain ⟨hquery, hprojection⟩ := Prod.mk.inj (hplanned.normalize_eq hnormal)
  exact ⟨planned.query, _, hyields, hplanned, (hplanned.normalize_iff _).mp ⟨_, hnormal⟩, hquery,
    hprojection⟩

/-- A plan that is accepted at every level is prepared, in its normal form. -/
theorem Planner.prepare_of_accepted {p : Planner} {query : Query} {operation : Operation}
    {caps : Capabilities} {plan : Plan} (hplan : p.plan query operation caps = .ok plan)
    (h : plan.query.Everywhere Clauses.Accepted (p.context operation caps)) :
    p.prepare query operation caps =
      .ok ({ plan with query := plan.query.normal (p.context operation caps) },
        plan.query.projection (p.context operation caps)) := by
  have hplanned := query.plan_planned _ _ _ _ (plan_cases hplan).1
  obtain ⟨r, hr⟩ := (hplanned.normalize_iff _).mpr h
  obtain rfl := hplanned.normalize_eq hr
  exact Except.bind_eq_ok.mpr ⟨plan, hplan, Except.bind_eq_ok.mpr ⟨_, hr, rfl⟩⟩

/-- **Where the preloads of an accepted query are read from.**  Take a query that is prepared for
reading.  At every level it keeps its preloads.  A preload that names a binding, at any depth, finds
there the schema that the path of associations down to it leads to from the schema of `from`,
through chains.  The binding is that of a join with qualifier `inner`, `left`, `inner_lateral` or
`left_lateral`, or it is that of `from` itself. -/
theorem Planner.prepare_preloads {p : Planner} {query : Query} {caps : Capabilities} {plan : Plan}
    {projection : Projection} (h : p.prepare query .all caps = .ok (plan, projection)) :
    query.Throughout (fun ctx c d => d.preloads = c.preloads ∧
      ∀ path entry ix, Preload.At c.preloads path entry → entry.binding = some ix →
        d.Supplies ctx.registry path ix) (p.context .all caps) plan.query := by
  obtain ⟨t, ps, hyields, -, haccepted, hquery, -⟩ := prepare_cases h
  rw [hquery]
  exact query.throughout_normal _ _ _ _ hyields haccepted

/-- Posts with comments on them, and with the authors of these, who are reached by a chain. -/
def Registry.blog : Registry :=
  empty.insertAll
    [((Schema.ofTable "Post" "posts").hasMany "comments" "Comment").hasThrough "commenters"
        ["comments", "author"],
      (((Schema.ofTable "Comment" "comments").field "body" .string).belongsTo "post"
        "Post").belongsTo "author" "Author",
      (Schema.ofTable "Author" "authors").field "name" .string]

/-- Posts with their comments and the authors of these, read from joins. -/
def Query.commentedPosts : Query :=
  (((Query.ofSchema "posts" "Post").joinAssociation .left 0 "comments").joinAssociation .inner 1
    "author").preload ⟨"comments", some 1, [⟨"author", some 2, []⟩]⟩

/-- Posts with their commenters, read from a join along the chain, beside the comments. -/
def Query.postsOfCommenters : Query :=
  (((Query.ofSchema "posts" "Post").joinAssociation .left 0 "commenters").preload
    ⟨"commenters", some 1, []⟩).withCte "commented" .commentedPosts false

/-- A chain leads a preload to its binding, and so does a path two levels deep in a nested query. -/
theorem Planner.prepare_preloads_commented :
    ∃ plan projection, (⟨.blog, .builtin, none, {}⟩ : Planner).prepare .postsOfCommenters .all
        Dialect.postgres.capabilities = .ok (plan, projection) ∧
      plan.query.clauses.Supplies .blog ["commenters"] 1 ∧
      ∃ inner ∈ plan.query.clauses.nested,
        inner.clauses.Supplies .blog ["comments", "author"] 2 := by
  have haccepted : ((⟨.blog, .builtin, none, {}⟩ : Planner).prepare .postsOfCommenters .all
      Dialect.postgres.capabilities).toOption.isSome = true := by
    decide +kernel
  obtain ⟨⟨plan, projection⟩, hprepare⟩ := Option.isSome_iff_exists.mp haccepted
  have hok := Except.toOption_eq_some_iff.mp hprepare
  have hlevels := Planner.prepare_preloads hok
  obtain ⟨inner, hinner⟩ := List.length_eq_one_iff.mp hlevels.count.symm
  refine ⟨plan, projection, hok, hlevels.level.2 _ _ 1 (.top List.mem_cons_self) rfl, inner, ?_, ?_⟩
  · rw [hinner]
    exact List.mem_singleton_self inner
  · refine (hlevels.nested (.commentedPosts, inner) ?_).level.2 _ _ 2
      (.child List.mem_cons_self (.top List.mem_cons_self)) rfl
    rw [hinner]
    exact List.mem_singleton_self _

/-- Nodes, each with its children. -/
def Registry.nodes : Registry :=
  empty.insertAll [(Schema.ofTable "Node" "nodes").hasMany "children" "Node"]

/-- Nodes that are taken for their own children. -/
def Query.ownChildren : Query :=
  (Query.ofSchema "nodes" "Node").preload ⟨"children", some 0, []⟩

/-- The binding of `from` need not be that of a join: children are read from the nodes themselves
where nothing is joined at all. -/
theorem Planner.prepare_preload_from :
    ∃ plan projection entry, (⟨.nodes, .builtin, none, {}⟩ : Planner).prepare .ownChildren .all
        Dialect.postgres.capabilities = .ok (plan, projection) ∧
      Preload.At plan.query.clauses.preloads ["children"] entry ∧ entry.binding = some 0 ∧
      plan.query.clauses.joins = [] := by
  have haccepted : ((⟨.nodes, .builtin, none, {}⟩ : Planner).prepare .ownChildren .all
      Dialect.postgres.capabilities).toOption.map (fun prepared =>
        (prepared.1.query.clauses.joins.isEmpty,
          prepared.1.query.clauses.preloads.map fun p => (p.association, p.binding))) =
        some (true, [("children", some 0)]) := by
    decide +kernel
  obtain ⟨⟨plan, projection⟩, hprepare, hclauses⟩ := Option.map_eq_some_iff.mp haccepted
  obtain ⟨hjoins, hpreloads⟩ := Prod.mk.inj hclauses
  obtain ⟨entry, rest, hentry, hchildren, -⟩ := List.map_eq_cons_iff.mp hpreloads
  obtain ⟨hname, hbinding⟩ := Prod.mk.inj hchildren
  refine ⟨plan, projection, entry, Except.toOption_eq_some_iff.mp hprepare, ?_, hbinding,
    List.isEmpty_iff.mp hjoins⟩
  rw [hentry, ← hname]
  exact .top List.mem_cons_self

end QueryPlanner
