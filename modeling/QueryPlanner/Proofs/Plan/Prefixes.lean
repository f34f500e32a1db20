import QueryPlanner.Proofs.Plan.Nested
import QueryPlanner.Proofs.Plan.Unfolding

/-!
# The prefixes of tables

A table that a plan reads or writes lies under a prefix.  The closest one that is set counts: the
one on the clause, that of the schema, that of the level, those of the levels around it from the
inside out, and the default one.  A level does not know the levels around it; they are folded into
the default that it is planned with.

* `IsFirstSet` — the first prefix of several that is set
* `Clauses.Prefixed`, `Query.Prefixed` — every table of a planned level, of a planned query, lies
  under the prefix that counts
* `Arena.foldlM_prefixed` — the blocks of joins, each under the prefix of its declared join
* `Clauses.resolve_prefixed` — one level
* `Planner.plan_prefixed` — a whole plan
-/

namespace QueryPlanner

open HasExprs Binder

variable {σ τ : Type} {ctx : Context} {queryPrefix : Option String} {r : Registry}
  {around : List (Option String)}

/-! ### The prefix that counts -/

/-- What is chosen of several prefixes is the first one that is set, and none if none is. -/
def IsFirstSet (prefixes : List (Option String)) (chosen : Option String) : Prop :=
  (∀ name, chosen = some name ↔ ∃ before after, prefixes = before ++ some name :: after ∧
    ∀ unset ∈ before, unset = none) ∧
  (chosen = none ↔ ∀ unset ∈ prefixes, unset = none)

theorem isFirstSet_findSome? (prefixes : List (Option String)) :
    IsFirstSet prefixes (prefixes.findSome? id) := by
  refine ⟨fun name => ?_, List.findSome?_eq_none_iff⟩
  rw [List.findSome?_eq_some_iff]
  constructor
  · rintro ⟨before, _, after, hprefixes, rfl, hbefore⟩
    exact ⟨before, after, hprefixes, hbefore⟩
  · rintro ⟨before, after, hprefixes, hbefore⟩
    exact ⟨before, some name, after, hprefixes, rfl, hbefore⟩

/-- Planning a level tries the prefixes on the spot before it falls back on those around. -/
theorem Context.isFirstSet_resolvePrefix (haround : ctx.defaultPrefix = around.findSome? id)
    (own : Option String) (schema : Option Schema) :
    IsFirstSet (own :: schema.bind (·.tablePrefix) :: queryPrefix :: around)
      (ctx.resolvePrefix own schema queryPrefix) := by
  have hfirst : ctx.resolvePrefix own schema queryPrefix =
      (own :: schema.bind (·.tablePrefix) :: queryPrefix :: around).findSome? id := by
    unfold resolvePrefix
    cases own <;> cases schema.bind (·.tablePrefix) <;> cases queryPrefix <;> simp [haround]
  rw [hfirst]
  exact isFirstSet_findSome? _

/-- If a source is a table, its prefix is the first one that is set of: `own`, the one of its
schema, and those `around`. -/
def BoundSource.Prefixed (r : Registry) (own : Option String) (around : List (Option String)) :
    BoundSource → Prop
  | table _ schema tablePrefix =>
    IsFirstSet (own :: (schema.bind r.lookup?).bind (·.tablePrefix) :: around) tablePrefix
  | subquery | fragment => True

/-- The bindings of the joins that a declared join becomes.  The last of them is the declared one,
and their tables have the prefixes that count, the declared one in the first place. -/
def Join.PrefixedBlock (r : Registry) (around : List (Option String))
    (bound : Nat → BoundSource → Prop) (declared : Nat × Join σ) (block : List Nat) : Prop :=
  block.getLast? = some declared.1 ∧ ∀ ix ∈ block, ∃ source, bound ix source ∧
    source.Prefixed r declared.2.tablePrefix around

/-- The sources of a planned level `d` are those of its clauses, and every table among them has the
first prefix that is set of: the one that its clause in `c` declares, the one of its schema, and
those `around`.  Binding 0 is declared by `from`, every other one by a join: the joins come in
blocks, one for each declared join. -/
structure Clauses.Prefixed (r : Registry) (around : List (Option String)) (c : Clauses σ)
    (d : Clauses τ) : Prop where
  bound : d.Bound
  root : ∃ root source, c.root = some root ∧ d.sources[0]? = some source ∧
    source.Prefixed r root.tablePrefix around
  joins : ∃ blocks : List (List Nat), d.joins.map (·.ix) = blocks.flatten.map some ∧
    List.Forall₂ (Join.PrefixedBlock r around fun ix source => d.sources[ix]? = some source)
      c.declaredJoins blocks

/-- A plan of a query in which the tables of every level have the prefixes that count.  Nested plans
stand in the order of the nested queries.  Around the query are the prefixes of the levels that it
is nested in, from the inside out, and the default one. -/
inductive Query.Prefixed (r : Registry) : List (Option String) → Query → Query → Prop
  | mk {around : List (Option String)} {c d : Clauses Query}
    (level : c.Prefixed r (c.queryPrefix :: around) d)
    (count : c.considered.nested.length = d.nested.length)
    (nested : ∀ pair ∈ c.considered.nested.zip d.nested,
      Prefixed r (c.queryPrefix :: around) pair.1 pair.2) :
    Prefixed r around ⟨c⟩ ⟨d⟩

/-! ### One source, one hop -/

theorem Source.prefixed_bind (haround : ctx.defaultPrefix = around.findSome? id)
    {s : Source σ} {own : Option String} {clause : Clause} {source : BoundSource}
    (h : s.bind ctx queryPrefix own clause = .ok source) :
    source.Prefixed ctx.registry own (queryPrefix :: around) := by
  cases s with
  | table name =>
    obtain rfl := Except.ok.inj h
    exact Context.isFirstSet_resolvePrefix haround own none
  | schema name type =>
    simp only [bind, Context.schema] at h
    cases hschema : ctx.registry.lookup? type with
    | none => simp [hschema, Bind.bind, Except.bind] at h
    | some schema =>
      simp only [hschema, Bind.bind, Except.bind, Except.ok.injEq] at h
      obtain rfl := h
      have hfirst : IsFirstSet (own :: schema.tablePrefix :: queryPrefix :: around) _ :=
        Context.isFirstSet_resolvePrefix haround own (some schema)
      simpa only [BoundSource.Prefixed, Option.bind_some, hschema] using hfirst
  | subquery q =>
    obtain rfl := Except.ok.inj h
    trivial
  | fragment parts =>
    obtain rfl := Except.ok.inj h
    trivial

namespace Registry

/-- A hop to a table with a schema, if it leads to one, that is registered under its name. -/
def Reaches (r : Registry) (hop : Hop) : Prop :=
  ∀ schema, hop.target.schema = some schema → r.lookup? schema.name = some schema

theorem reaches_chainHops {unfold : Nat → Schema → Association → Except RouteFault (List Hop)}
    {through : String}
    (hunfold : ∀ count owner a hops, unfold count owner a = .ok hops →
      ∀ hop ∈ hops, r.Reaches hop) :
    ∀ (names : List String) (count : Nat) (owner : Schema) (hops : List Hop),
      chainHops unfold through count owner names = .ok hops → ∀ hop ∈ hops, r.Reaches hop
  | [], _, _, _, h => by
    cases h
    simp
  | name :: names, count, owner, hops, h => by
    rw [chainHops] at h
    split at h
    · cases h
    · rename_i a _
      cases hfirst : unfold count owner a with
      | error fault => simp [hfirst, bind, Except.bind] at h
      | ok first =>
        have hreaches := hunfold count owner a first hfirst
        simp only [hfirst, bind, Except.bind] at h
        split at h
        · obtain rfl := Except.ok.inj h
          exact hreaches
        · split at h
          · cases h
          · split at h
            · cases h
            · rename_i hothers
              obtain rfl := Except.ok.inj h
              exact List.forall_mem_append.mpr
                ⟨hreaches, reaches_chainHops hunfold names _ _ _ hothers⟩

theorem reaches_directHop {a : Association} {hops : List Hop} (h : r.directHop a = .ok hops) :
    ∀ hop ∈ hops, r.Reaches hop := by
  unfold directHop at h
  cases hrelated : r.target a.related with
  | error fault => simp [hrelated, bind, Except.bind] at h
  | ok target =>
    simp only [hrelated, bind, Except.bind, Except.ok.injEq] at h
    subst h
    exact List.forall_mem_singleton.mpr fun schema => registered_target hrelated

theorem reaches_joinThroughHops {a : Association} {joinThrough : Related}
    {joinOwnerKey joinRelatedKey : String} {joinFilters : List AssociationFilter}
    {hops : List Hop}
    (h : r.joinThroughHops a joinThrough joinOwnerKey joinRelatedKey joinFilters = .ok hops) :
    ∀ hop ∈ hops, r.Reaches hop := by
  unfold joinThroughHops at h
  cases hthrough : r.target joinThrough with
  | error fault => simp [hthrough, bind, Except.bind] at h
  | ok through =>
    cases hrelated : r.target a.related with
    | error fault => simp [hthrough, hrelated, bind, Except.bind] at h
    | ok target =>
      simp only [hthrough, hrelated, bind, Except.bind, Except.ok.injEq] at h
      subst h
      exact List.forall_mem_cons.mpr ⟨fun schema => registered_target hthrough,
        List.forall_mem_singleton.mpr fun schema => registered_target hrelated⟩

theorem reaches_unfold : ∀ (depth : Nat) (opened : List (String × String)) (count : Nat)
    (owner : Schema) (a : Association) (hops : List Hop),
      r.unfold depth opened count owner a = .ok hops → ∀ hop ∈ hops, r.Reaches hop
  | 0, _, _, _, _, _, h => by simp [unfold] at h
  | depth + 1, opened, count, owner, a, hops, h => by
    rw [unfold] at h
    split at h
    · cases h
    split at h
    · cases h
    · exact reaches_chainHops (reaches_unfold depth _) _ _ _ _ h
    · exact reaches_joinThroughHops h
    all_goals exact reaches_directHop h

end Registry

theorem Hop.prefixed_bound (haround : ctx.defaultPrefix = around.findSome? id) {hop : Hop}
    (hreaches : ctx.registry.Reaches hop) (own : Option String) :
    (hop.bound ctx queryPrefix own).Prefixed ctx.registry own (queryPrefix :: around) := by
  have hschema : (hop.target.schema.map (·.name)).bind ctx.registry.lookup? =
      hop.target.schema := by
    cases htarget : hop.target.schema with
    | none => rfl
    | some schema => exact hreaches schema htarget
  unfold Hop.bound
  simp only [BoundSource.Prefixed, hschema]
  exact Context.isFirstSet_resolvePrefix haround own hop.target.schema

/-! ### The joins of a level -/

theorem Join.PrefixedBlock.mono {bound bound' : Nat → BoundSource → Prop}
    (hbound : ∀ ix source, bound ix source → bound' ix source) {declared : Nat × Join σ}
    {block : List Nat} (h : Join.PrefixedBlock r around bound declared block) :
    Join.PrefixedBlock r around bound' declared block :=
  ⟨h.1, fun ix hix =>
    let ⟨source, hsource, hprefixed⟩ := h.2 ix hix
    ⟨source, hbound ix source hsource, hprefixed⟩⟩

namespace Arena

variable {a a' : Arena σ}

/-- One declared join adds a block, under the prefix that it declares. -/
theorem bindJoin_prefixed (haround : ctx.defaultPrefix = around.findSome? id)
    {declared : Nat × Join σ} (h : bindJoin ctx queryPrefix a declared = .ok a') :
    ∃ block bound, a'.joins.map (·.ix) = a.joins.map (·.ix) ++ block.map some ∧
      a'.bound = a.bound ++ bound ∧
      Join.PrefixedBlock ctx.registry (queryPrefix :: around)
        (fun ix source => (ix, source) ∈ bound) declared block := by
  obtain ⟨ix, j⟩ := declared
  rcases bindJoin_cases h with
    ⟨s, b, -, -, hb, rfl⟩ | ⟨ref, owner, association, hops, -, -, -, -, hhops, rfl⟩
  · refine ⟨[ix], [(ix, b)], by simp, rfl, rfl, fun ix' hix => ?_⟩
    obtain rfl := List.mem_singleton.mp hix
    exact ⟨b, List.mem_singleton_self _, Source.prefixed_bind haround hb⟩
  · obtain ⟨steps, target, -, hmakes⟩ := Registry.route_unfolds hhops
    have hix := ix_placeHops ix hops ref.parent a.next (Registry.Makes.ne_nil hmakes)
    refine ⟨(placeHops ref.parent a.next ix hops).map (·.2.1), _, ?_, rfl, ?_, fun ix' hix' => ?_⟩
    · simp [addHops, Hop.join, Function.comp_def]
    · rw [hix, List.getLast?_concat]
    · obtain ⟨p, hp, rfl⟩ := List.mem_map.mp hix'
      refine ⟨_, List.mem_map_of_mem hp, Hop.prefixed_bound haround ?_ j.tablePrefix⟩
      have hhop := List.mem_map_of_mem (f := (·.2.2)) hp
      rw [hop_placeHops] at hhop
      exact Registry.reaches_unfold _ _ _ _ _ _ hhops _ hhop

/-- **The blocks of the declared joins**, each under the prefix that its join declares. -/
theorem foldlM_prefixed (haround : ctx.defaultPrefix = around.findSome? id) :
    ∀ (declared : List (Nat × Join σ)) (a : Arena σ),
      declared.foldlM (bindJoin ctx queryPrefix) a = .ok a' →
        ∃ blocks bound, a'.joins.map (·.ix) = a.joins.map (·.ix) ++ blocks.flatten.map some ∧
          a'.bound = a.bound ++ bound ∧
          List.Forall₂ (Join.PrefixedBlock ctx.registry (queryPrefix :: around)
            fun ix source => (ix, source) ∈ bound) declared blocks
  | [], a, h => by
    obtain rfl := Except.ok.inj h
    exact ⟨[], [], by simp, by simp, .nil⟩
  | declared :: rest, a, h => by
    rw [List.foldlM_cons] at h
    cases hfirst : bindJoin ctx queryPrefix a declared with
    | error e => simp [hfirst, bind, Except.bind] at h
    | ok a₁ =>
      simp only [hfirst, bind, Except.bind] at h
      obtain ⟨block, bound, hix, hbound, hblock⟩ := bindJoin_prefixed haround hfirst
      obtain ⟨blocks, others, hixs, hothers, hblocks⟩ := foldlM_prefixed haround rest a₁ h
      refine ⟨block :: blocks, bound ++ others, ?_, ?_, .cons ?_ ?_⟩
      · simp [hixs, hix]
      · rw [hothers, hbound, List.append_assoc]
      · exact hblock.mono fun ix source => List.mem_append_left others
      · exact hblocks.imp fun _ _ h => h.mono fun ix source => List.mem_append_right bound

end Arena

/-- **The tables of a level** lie under the prefixes that count. -/
theorem Clauses.resolve_prefixed (haround : ctx.defaultPrefix = around.findSome? id)
    {c : Clauses σ} {b : Bindings σ} (h : c.resolve ctx = .ok b) {d : Clauses τ}
    (hframe : d.frame = (c.prepared b).frame) :
    c.Prefixed ctx.registry (c.queryPrefix :: around) d := by
  obtain ⟨root, source, a, hroot, hsource, ha, -, hsources, hjoins, -⟩ := resolve_cases h
  have hsound := Arena.sound_of_foldlM hsource ha
  obtain ⟨blocks, bound, hix, hbound, hblocks⟩ := Arena.foldlM_prefixed haround _ _ ha
  have hsame : d.sources = b.sources := congrArg Clauses.sources hframe
  have hixs : d.joins.map (·.ix) = a.joins.map (·.ix) := by
    have hframes := congrArg (fun c => c.joins.map (·.ix)) hframe
    simpa [frame, edit, prepared, Join.prepared, Join.edit, Function.comp_def, hjoins] using hframes
  have hlookup : ∀ {ix source}, (ix, source) ∈ a.bound → d.sources[ix]? = some source := by
    intro ix source hmem
    rw [hsame, Arena.getElem?_sources_eq_lookup hsound hsources]
    exact List.lookup_of_mem hsound.nodup hmem
  refine ⟨bound_of_frame_eq h hframe,
    ⟨root, source, hroot, hlookup ?_, Source.prefixed_bind haround hsource⟩,
    ⟨blocks, by simpa [hixs] using hix, ?_⟩⟩
  · simp [hbound]
  · refine hblocks.imp fun declared block hblock => hblock.mono fun ix source hmem => hlookup ?_
    exact hbound ▸ List.mem_append_right _ hmem

/-! ### Queries -/

/-- Planning a query puts its tables under the prefixes that count. -/
theorem Query.prefixed_of_yields (q : Query) : ∀ (ctx : Context) (around : List (Option String))
    ps t qs, ctx.defaultPrefix = around.findSome? id → (q.plan ctx).Yields ps t qs →
      q.Prefixed ctx.registry around t := by
  refine Query.induction (P := fun q => ∀ (ctx : Context) (around : List (Option String)) ps t qs,
    ctx.defaultPrefix = around.findSome? id → (q.plan ctx).Yields ps t qs →
      q.Prefixed ctx.registry around t) ?_ q
  intro c ih ctx around ps t qs haround h
  obtain ⟨d⟩ := t
  obtain ⟨b, hb, hframe, -⟩ := plan_cases h
  obtain ⟨hcount, hnested⟩ := List.forall₂_iff_zip.mp (plan_queries h)
  refine .mk (Clauses.resolve_prefixed haround hb hframe) hcount ?_
  rintro ⟨inner, planned⟩ hpair
  obtain ⟨rs, ts, hyields⟩ := hnested hpair
  -- the prefix of this level is folded into the default of the levels in it
  have hinner : (ctx.nested c.queryPrefix).defaultPrefix =
      (c.queryPrefix :: around).findSome? id := by
    unfold Context.nested
    cases c.queryPrefix <;> simp [haround]
  exact ih inner (Clauses.considered_nested_subset (List.of_mem_zip hpair).1)
    (ctx.nested c.queryPrefix) (c.queryPrefix :: around) rs planned ts hinner hyields

/-- **Every table of a plan** has the first prefix that is set of: the one on its own clause, which
is that of its declared join for every hop of an association; the one of its schema; the one of its
level; those of the levels around it, from the inside out; the default one.  It has none just if
none of these is set. -/
theorem Planner.plan_prefixed {p : Planner} {q : Query} {operation : Operation}
    {caps : Capabilities} {plan : Plan} (h : p.plan q operation caps = .ok plan) :
    q.Prefixed p.registry [p.defaultPrefix] plan.query :=
  q.prefixed_of_yields (p.context operation caps) _ _ _ _ (by simp [context]) (plan_cases h).1

/-- Posts with labels, which are kept apart. -/
def Registry.labelledApart : Registry :=
  empty.insertAll
    [(Schema.ofTable "Post" "posts").addAssociation .labels,
      (Schema.ofTable "Label" "labels").withPrefix "meta"]

/-- The labels of the posts of a tenant, beside the users that another system keeps, combined with an
archive that is read from a query in a query. -/
def Query.tenantLabels : Query :=
  ((((Query.ofSchema "posts" "Post").withPrefix "tenant").joinAssociation .inner 0 "labels").join
    { Join.explicit .inner (.table "users") (some (.literal (.bool true))) with
      tablePrefix := some "crm" }).combine .union
        (Query.empty.withSource (.subquery (Query.ofTable "archive")))

/-- The prefixes of the sources of a query, and of the queries nested in its nested queries. -/
def Query.prefixesInside (q : Query) : List (Option String) × List (Option String) :=
  (q.clauses.sources.map (·.tablePrefix?),
    (q.clauses.nested.flatMap (·.clauses.nested)).flatMap (·.clauses.sources.map (·.tablePrefix?)))

/-- The table between posts and labels has the prefix of the level, as posts have, and so has the
archive two levels below. -/
theorem Planner.plan_prefixed_tenant :
    ∃ plan, (⟨.labelledApart, .builtin, some "public", {}⟩ : Planner).plan .tenantLabels .all
        Dialect.postgres.capabilities = .ok plan ∧
      plan.query.prefixesInside =
        ([some "tenant", some "meta", some "crm", some "tenant"], [some "tenant"]) ∧
      Query.tenantLabels.Prefixed .labelledApart [some "public"] plan.query := by
  have hplanned : ((⟨.labelledApart, .builtin, some "public", {}⟩ : Planner).plan .tenantLabels .all
      Dialect.postgres.capabilities).toOption.map (·.query.prefixesInside) =
        some ([some "tenant", some "meta", some "crm", some "tenant"], [some "tenant"]) := by
    decide +kernel
  obtain ⟨plan, hplan, hprefixes⟩ := Option.map_eq_some_iff.mp hplanned
  have hok := Except.toOption_eq_some_iff.mp hplan
  exact ⟨plan, hok, hprefixes, Planner.plan_prefixed hok⟩

end QueryPlanner
