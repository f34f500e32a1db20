import Mathlib.Data.List.Perm.Subperm
import QueryPlanner.Proofs.Normal.Leads

/-!
# Preloads and joins along an association

A preload looks for the schema that an association leads to, and a join along the association makes
a table of every step on the way.  The two searches are not the same.  The first counts how deep
chains are nested and looks at targets only; the second remembers the associations that it is in,
binds the tables in between and follows no chain that names nothing.  Where neither difference shows,
the join ends at the schema that the preload finds.

* `Registry.Uses` — the associations that an association is made of
* `Registry.route_iff` — an association has a route exactly if it leads somewhere through known tables
* `Clauses.preloads_agree` — a preload and a join along one association
-/

namespace QueryPlanner

/-- The table in between, if there is one, has no schema or a registered one. -/
def Association.Bridged (r : Registry) (a : Association) : Prop :=
  ∀ joinThrough ownerKey relatedKey filters,
    a.kind = .manyToMany joinThrough ownerKey relatedKey filters →
      ∃ through, r.target joinThrough = .ok through

namespace Registry

/-- The associations that `name` of `owner` is made of: itself and, if it is a chain, what each of
its associations is made of, as far as those before it lead. -/
inductive Uses (r : Registry) : (owner : Schema) → (name : String) → Association → Prop
  | itself {owner name a} (found : owner.association? name = some a) : Uses r owner name a
  | along {owner name a before hop after depth next b} (found : owner.association? name = some a)
      (kind : a.kind = .through (before ++ hop :: after))
      (leads : r.LeadsAlong depth (some owner) before (some next)) (uses : Uses r next hop b) :
      Uses r owner name b

variable {r : Registry}

/-- An association of a registered schema is made of associations of registered schemas. -/
theorem Uses.declared {owner : Schema} {name : String} {b : Association}
    (h : r.Uses owner name b) :
    r.lookup? owner.name = some owner → ∃ s ∈ r.schemas, b ∈ s.associations := by
  induction h with
  | itself found =>
    exact fun howner => ⟨_, mem_of_lookup? howner, List.mem_of_find?_eq_some found⟩
  | along _ _ leads _ ih =>
    exact fun howner => ih (leads.registered (by simpa using howner) _ rfl)

/-! ### What an association stands for leads where it leads -/

theorem Leads.unique {depth depth' : Nat} {owner : Schema} {name : String}
    {reached reached' : Option Schema} (h : r.Leads depth owner name reached)
    (h' : r.Leads depth' owner name reached') : reached = reached' :=
  Context.leads_unique (.reading r) h h'

mutual

/-- What an association stands for leads where the association does. -/
theorem Unfolds.leads : ∀ {owner : Schema} {a : Association} {steps : List Association}
    {target : Target}, r.Unfolds owner a steps target →
      ∀ {name : String}, owner.association? name = some a →
        ∃ depth, r.Leads depth owner name target.schema
  | _, _, _, _, .single kind related, _, found => ⟨1, .direct found kind related⟩
  | _, _, _, _, .chain kind follows, _, found =>
    have ⟨depth, along⟩ := follows.leadsAlong
    ⟨depth + 1, .chain found kind along⟩
  termination_by structural _ _ _ _ unfolds => unfolds

theorem Follows.leadsAlong : ∀ {owner : Schema} {names : List String} {steps : List Association}
    {target : Target}, r.Follows owner names steps target →
      ∃ depth, r.LeadsAlong depth (some owner) names target.schema
  | _, _, _, _, .last found unfolds =>
    have ⟨depth, leads⟩ := unfolds.leads found
    ⟨depth, .step leads .stay⟩
  | _, _, _, _, .next found unfolds goesOn follows => by
    obtain ⟨depth, leads⟩ := unfolds.leads found
    obtain ⟨depth', along⟩ := follows.leadsAlong
    rw [goesOn] at leads
    exact ⟨max depth depth', .step (leads.mono (Nat.le_max_left ..))
      (along.mono (Nat.le_max_right ..))⟩
  termination_by structural _ _ _ _ follows => follows

end

/-- What the associations of a chain stand for is made of what each of them stands for. -/
theorem Follows.exists_unfolds {hop : String} {after : List String} {next : Schema} {depth : Nat}
    {target : Target} : ∀ {before : List String} {owner : Schema} {steps : List Association},
      r.Follows owner (before ++ hop :: after) steps target →
        r.LeadsAlong depth (some owner) before (some next) →
          ∃ d steps' target', next.association? hop = some d ∧ r.Unfolds next d steps' target' ∧
            steps' ⊆ steps
  | [], _, _, follows, along => by
    cases along
    cases follows with
    | last found unfolds => exact ⟨_, _, _, found, unfolds, List.Subset.refl _⟩
    | next found unfolds goesOn _ => exact ⟨_, _, _, found, unfolds, List.subset_append_left _ _⟩
  | name :: before, owner, steps, follows, along => by
    obtain ⟨a, between, schema, first, others, hfound, hunfolds, hgoesOn, hfollows, rfl⟩ :
        ∃ a between schema first others, owner.association? name = some a ∧
          r.Unfolds owner a first between ∧ between.schema = some schema ∧
          r.Follows schema (before ++ hop :: after) others target ∧ steps = first ++ others := by
      generalize hnames : name :: before ++ hop :: after = names at follows
      cases follows with
      | last => simp at hnames
      | next found unfolds goesOn follows =>
        obtain ⟨rfl, rfl⟩ := List.cons.inj hnames
        exact ⟨_, _, _, _, _, found, unfolds, goesOn, follows, rfl⟩
    cases along with
    | step leads along =>
      obtain ⟨depth', leads'⟩ := hunfolds.leads hfound
      rw [leads.unique leads', hgoesOn] at along
      obtain ⟨d, steps', target', hd, hunfolds', hsub⟩ := hfollows.exists_unfolds along
      exact ⟨d, steps', target', hd, hunfolds',
        List.Subset.trans hsub (List.subset_append_right _ _)⟩

/-- Of the associations that one is made of, all but the chains are among those it stands for. -/
theorem Uses.mem_steps {owner : Schema} {name : String} {b : Association}
    (h : r.Uses owner name b) :
    ∀ {a : Association} {steps : List Association} {target : Target},
      owner.association? name = some a → r.Unfolds owner a steps target →
        (∃ names, b.kind = .through names) ∨ b ∈ steps := by
  induction h with
  | itself found =>
    intro a steps target found' unfolds
    obtain rfl := Option.some.inj (found.symm.trans found')
    cases unfolds with
    | single => exact .inr (List.mem_singleton_self _)
    | chain kind => exact .inl ⟨_, kind⟩
  | along found kind leads _ ih =>
    intro a steps target found' unfolds
    obtain rfl := Option.some.inj (found.symm.trans found')
    cases unfolds with
    | single kind' => exact absurd kind (kind' _)
    | chain kind' follows =>
      obtain rfl := AssociationKind.through.inj (kind.symm.trans kind')
      obtain ⟨d, steps', target', hd, hunfolds, hsub⟩ := follows.exists_unfolds leads
      exact (ih hd hunfolds).imp_right (hsub ·)

/-- An association with a route has a known table in between. -/
theorem bridged_of_route {owner : Schema} {a : Association} {hops : List Hop}
    (h : r.route owner a = .ok hops) : a.Bridged r := by
  intro joinThrough ownerKey relatedKey filters hkind
  have hclosed : ([] : List (String × String)).contains (owner.name, a.name) = false := rfl
  rw [route, unfold, hclosed] at h
  simp only [Bool.false_eq_true, if_false, hkind, joinThroughHops] at h
  cases hthrough : r.target joinThrough with
  | error fault => simp [hthrough, bind, Except.bind] at h
  | ok through => exact ⟨through, rfl⟩

theorem Walks.route {owner : Schema} {steps : List Association} {routes : List (List Hop)}
    {target : Target} (h : r.Walks owner steps routes target) :
    ∀ step ∈ steps, ∃ from' hops, r.route from' step = .ok hops := by
  induction h with
  | last goes => exact List.forall_mem_singleton.mpr ⟨_, _, goes.route⟩
  | next goes _ _ ih => exact List.forall_mem_cons.mpr ⟨⟨_, _, goes.route⟩, ih⟩

/-- A route ends where its association leads, and all tables in between are known. -/
theorem leads_of_route {owner : Schema} {name : String} {a : Association} {hops : List Hop}
    (found : owner.association? name = some a) (h : r.route owner a = .ok hops) :
    ∃ target, hops.getLast?.map Hop.target = some target ∧
      (∃ depth, r.Leads depth owner name target.schema) ∧
      ∀ b, r.Uses owner name b → b.Bridged r := by
  obtain ⟨steps, target, hunfolds, -, hlast⟩ := route_unfolds h
  obtain ⟨routes, hwalks, -⟩ := hunfolds.walks (Schema.association?_name found) h
  refine ⟨target, hlast, hunfolds.leads found, fun b huses => ?_⟩
  rcases huses.mem_steps found hunfolds with ⟨names, hchain⟩ | hmem
  · intro _ _ _ _ hkind
    rw [hchain] at hkind
    cases hkind
  · obtain ⟨_, _, hroute⟩ := hwalks.route b hmem
    exact bridged_of_route hroute

/-- A registered schema is known by its name. -/
theorem eq_of_name_eq {x y : Option Schema} (hx : ∀ s ∈ x, r.lookup? s.name = some s)
    (hy : ∀ s ∈ y, r.lookup? s.name = some s) (h : x.map (·.name) = y.map (·.name)) : x = y := by
  cases x with
  | none => simpa [eq_comm] using h
  | some s =>
    obtain ⟨t, rfl, hname⟩ := Option.map_eq_some_iff.mp h.symm
    have ht := hy t rfl
    rw [hname, hx s rfl] at ht
    exact ht

/-! ### What leads somewhere has a route -/

/-- An association that is no chain has its hops, unless it is being unfolded already. -/
theorem exists_unfold_of_single {fuel count : Nat} {opened : List (String × String)}
    {owner : Schema} {a : Association} {target : Target}
    (hopened : (owner.name, a.name) ∉ opened) (kind : ∀ chain, a.kind ≠ .through chain)
    (related : r.target a.related = .ok target) (hbridged : a.Bridged r) :
    ∃ hops, r.unfold (fuel + 1) opened count owner a = .ok hops ∧
      hops.getLast?.map Hop.target = some target := by
  have hcontains : ¬ opened.contains (owner.name, a.name) := by simpa using hopened
  rw [unfold, if_neg hcontains]
  cases hkind : a.kind with
  | through chain => exact absurd hkind (kind chain)
  | manyToMany joinThrough ownerKey relatedKey filters =>
    obtain ⟨through, hthrough⟩ := hbridged _ _ _ _ hkind
    exact ⟨_, by simp only [joinThroughHops, hthrough, related, bind, Except.bind]; rfl, rfl⟩
  | belongsTo | hasMany | hasOne =>
    exact ⟨_, by simp only [directHop, related, bind, Except.bind]; rfl, rfl⟩

/-- The associations of a chain have their hops one after the other, if each of them has. -/
theorem exists_chainHops {unfold : Nat → Schema → Association → Except RouteFault (List Hop)}
    {through : String} {depth : Nat} {reached : Option Schema} :
    ∀ {names : List String} {count : Nat} {owner : Schema}, names ≠ [] →
      r.LeadsAlong depth (some owner) names reached →
      (∀ before hop after from' next d count, names = before ++ hop :: after →
        r.LeadsAlong depth (some owner) before (some from') → r.Leads depth from' hop next →
        from'.association? hop = some d →
          ∃ hops, unfold count from' d = .ok hops ∧
            hops.getLast?.map (·.target.schema) = some next) →
      ∃ hops, chainHops unfold through count owner names = .ok hops ∧
        hops.getLast?.map (·.target.schema) = some reached
  | [], _, _, hne, _, _ => absurd rfl hne
  | name :: names, count, owner, _, along, hunfold => by
    obtain ⟨next, leads, along⟩ := leadsAlong_cons.mp along
    obtain ⟨a, hfound⟩ := leads.exists_found
    obtain ⟨first, hfirst, hlast⟩ := hunfold [] name names owner next a count rfl .stay leads hfound
    rw [chainHops, hfound]
    simp only [hfirst, bind, Except.bind]
    cases names with
    | nil =>
      obtain rfl := leadsAlong_nil.mp along
      exact ⟨first, by simp, hlast⟩
    | cons name' rest =>
      cases next with
      | none => exact absurd along leadsAlong_none
      | some schema =>
        obtain ⟨others, hothers, hreached⟩ : ∃ hops,
            chainHops unfold through (count + first.length) schema (name' :: rest) = .ok hops ∧
              hops.getLast?.map (·.target.schema) = some reached :=
          exists_chainHops (by simp) along fun before hop after from' next d count hnames hbefore =>
            hunfold (name :: before) hop after from' next d count (by rw [hnames]; rfl)
              (.step leads hbefore)
        have hschema : first.getLast?.bind (·.target.schema) = some schema := by
          obtain ⟨last, hlast, hnext⟩ := Option.map_eq_some_iff.mp hlast
          rw [hlast, Option.bind_some, hnext]
        simp only [List.isEmpty_cons, Bool.false_eq_true, if_false, hschema, hothers]
        refine ⟨_, rfl, ?_⟩
        obtain ⟨last', hlast', rfl⟩ := Option.map_eq_some_iff.mp hreached
        rw [List.getLast?_append, hlast', Option.some_or, Option.map_some]

/-- The associations that are being unfolded are declared by registered schemas, and none of them
leads anywhere within `depth`: what leads somewhere within less than it does itself is not entered
from there. -/
structure Opens (r : Registry) (depth : Nat) (opened : List (String × String)) : Prop where
  nodup : opened.Nodup
  declared : ∀ p ∈ opened, ∃ owner a, r.lookup? p.1 = some owner ∧ owner.association? p.2 = some a
  blocked : ∀ p ∈ opened, ∀ owner, r.lookup? p.1 = some owner →
    ∀ reached, ¬ r.Leads depth owner p.2 reached

theorem Opens.mono {depth depth' : Nat} {opened : List (String × String)}
    (h : r.Opens depth' opened) (hle : depth ≤ depth') : r.Opens depth opened where
  nodup := h.nodup
  declared := h.declared
  blocked p hp owner howner reached leads := h.blocked p hp owner howner reached (leads.mono hle)

/-- The associations of all schemas. -/
def associationNames (r : Registry) : List (String × String) :=
  r.schemas.flatMap fun s => s.associations.map fun a => (s.name, a.name)

theorem length_associationNames : r.associationNames.length = r.associationCount := by
  rw [associationNames, associationCount, ← List.sum_eq_foldl, List.length_flatMap]
  simp

/-- No more associations are being unfolded than there are. -/
theorem Opens.length_le {depth : Nat} {opened : List (String × String)}
    (h : r.Opens depth opened) : opened.length ≤ r.associationCount := by
  rw [← length_associationNames]
  refine (h.nodup.subperm fun p hp => ?_).length_le
  obtain ⟨owner, a, howner, ha⟩ := h.declared p hp
  have hname : a.name = p.2 := by simpa using List.find?_some ha
  refine List.mem_flatMap.mpr ⟨owner, mem_of_lookup? howner,
    List.mem_map.mpr ⟨a, List.mem_of_find?_eq_some ha, ?_⟩⟩
  rw [name_of_lookup? howner, hname]

/-- An association that leads somewhere has its hops: as long as what is being unfolded leads nowhere
within the same depth, it is not met again. -/
theorem Leads.exists_unfold : ∀ {depth fuel count : Nat} {opened : List (String × String)}
    {owner : Schema} {name : String} {a : Association} {reached : Option Schema},
      r.Leads depth owner name reached → r.lookup? owner.name = some owner →
      owner.association? name = some a →
      (∀ b, r.Uses owner name b → b.kind ≠ .through [] ∧ b.Bridged r) →
      r.Opens depth opened → r.associationCount < opened.length + fuel →
        ∃ hops, r.unfold fuel opened count owner a = .ok hops ∧
          hops.getLast?.map (·.target.schema) = some reached
  | 0, _, _, _, _, _, _, _, leads, _, _, _, _, _ => absurd rfl leads.depth_ne_zero
  | depth + 1, fuel, count, opened, owner, name, a, reached, leads, howner, found, huses, hopens,
      hfuel => by
    obtain ⟨fuel, rfl⟩ : ∃ fuel', fuel = fuel' + 1 :=
      Nat.exists_eq_add_one_of_ne_zero (by have := hopens.length_le; omega)
    have hname : a.name = name := by simpa using List.find?_some found
    have hfresh : (owner.name, a.name) ∉ opened := fun hmem =>
      hopens.blocked _ hmem owner howner reached (hname ▸ leads)
    obtain ⟨hempty, hbridged⟩ := huses a (.itself found)
    cases hkind : a.kind with
    | manyToMany | belongsTo | hasMany | hasOne =>
      have hsingle : ∀ chain, a.kind ≠ .through chain := by simp [hkind]
      obtain ⟨target, hrelated, rfl⟩ := (leads_iff_of_single found hsingle).mp leads
      obtain ⟨hops, hhops, hlast⟩ : ∃ hops, r.unfold (fuel + 1) opened count owner a = .ok hops ∧
          hops.getLast?.map Hop.target = some target :=
        exists_unfold_of_single hfresh hsingle hrelated hbridged
      exact ⟨hops, hhops, by simpa using congrArg (Option.map Target.schema) hlast⟩
    | through names =>
      have along := (leads_iff_of_chain found hkind).mp leads
      -- the chain is entered at the least depth only, so that it leads nowhere within what is left
      by_cases hless : ∃ reached', r.Leads depth owner name reached'
      · obtain ⟨reached', hless⟩ := hless
        obtain rfl := hless.unique leads
        exact hless.exists_unfold howner found huses (hopens.mono (Nat.le_succ _)) hfuel
      have hopens' : r.Opens depth ((owner.name, a.name) :: opened) := by
        refine ⟨List.nodup_cons.mpr ⟨hfresh, hopens.nodup⟩,
          List.forall_mem_cons.mpr ⟨⟨owner, a, howner, hname ▸ found⟩, hopens.declared⟩,
          List.forall_mem_cons.mpr ⟨fun owner' howner' reached' leads' => ?_,
            (hopens.mono (Nat.le_succ _)).blocked⟩⟩
        obtain rfl := Option.some.inj (howner.symm.trans howner')
        exact hless ⟨reached', hname ▸ leads'⟩
      rw [unfold, if_neg (by simpa using hfresh), hkind]
      cases names with
      | nil => exact absurd hkind hempty
      | cons first rest =>
        refine exists_chainHops (by simp) along
          fun before hop after from' next d count hnames hbefore leads' found' => ?_
        refine leads'.exists_unfold (hbefore.registered (by simpa using howner) from' rfl) found'
          (fun b hb => huses b (.along found (hnames ▸ hkind) hbefore hb)) hopens' ?_
        rw [List.length_cons]
        omega

/-- **An association has a route exactly if it leads somewhere** and the tables in between are
known, unless it is made of a chain that names nothing.  The route ends where it leads. -/
theorem route_iff {owner : Schema} {name : String} {a : Association} {reached : Option Schema}
    (howner : r.lookup? owner.name = some owner) (found : owner.association? name = some a)
    (hchains : ∀ b, r.Uses owner name b → b.kind ≠ .through []) :
    (∃ hops, r.route owner a = .ok hops ∧ hops.getLast?.map (·.target.schema) = some reached) ↔
      (∃ depth, r.Leads depth owner name reached) ∧ ∀ b, r.Uses owner name b → b.Bridged r := by
  constructor
  · rintro ⟨hops, hroute, hreached⟩
    obtain ⟨target, hlast, hleads, hbridged⟩ := leads_of_route found hroute
    obtain ⟨last, hlast', rfl⟩ := Option.map_eq_some_iff.mp hlast
    rw [hlast', Option.map_some, Option.some.injEq] at hreached
    exact ⟨hreached ▸ hleads, hbridged⟩
  · rintro ⟨⟨depth, leads⟩, hbridged⟩
    exact leads.exists_unfold howner found (fun b hb => ⟨hchains b hb, hbridged b hb⟩)
      ⟨List.nodup_nil, by simp, by simp⟩ (by simp)

end Registry

/-! ### A join along an association -/

namespace Clauses

variable {ctx : Context} {c : Clauses Query} {table name : String} {fromPrefix : Option String}
  {owner : Schema} {declared : Join Query}

/-- The level is bound, and what `ix` holds is a table with the registered schema `reached`, or a
table without schema. -/
def Binds (ctx : Context) (c : Clauses Query) (ix : Nat) (reached : Option Schema) : Prop :=
  ∃ b source tablePrefix, c.resolve ctx = .ok b ∧
    b.sources[ix]? = some (.table source (reached.map (·.name)) tablePrefix) ∧
    ∀ s ∈ reached, ctx.registry.lookup? s.name = some s

/-- The association of a single join is bound from the `from` source. -/
theorem foldlM_declaredJoins_single {ref : AssociationRef} {a : Arena Query}
    (hjoins : c.joins = [declared]) (href : declared.association = some ref) :
    c.declaredJoins.foldlM (Arena.bindJoin ctx c.queryPrefix) a =
      a.bindAssociation ctx c.queryPrefix 1 declared ref := by
  simp [declaredJoins, hjoins, Arena.bindJoin, href]

section

variable (hroot : c.root = some ⟨.schema table owner.name, fromPrefix⟩)
  (hjoins : c.joins = [declared]) (href : declared.association = some ⟨0, name⟩)
  (howner : ctx.registry.lookup? owner.name = some owner)

include hroot hjoins href howner

/-- A single join along an association is bound exactly if the association has a route. -/
theorem exists_resolve_iff (hpreloads : c.preloads = []) :
    (∃ b, c.resolve ctx = .ok b) ↔
      ∃ a hops, owner.association? name = some a ∧ ctx.registry.route owner a = .ok hops := by
  obtain ⟨source, hsource, hname⟩ : ∃ source,
      (Source.schema table owner.name : Source Query).bind ctx c.queryPrefix fromPrefix
        .fromSource = .ok source ∧ source.schema? = some owner.name := by
    simp only [Source.bind, Context.schema, howner]
    exact ⟨_, rfl, rfl⟩
  have hfold : (c.declaredJoins.foldlM (Arena.bindJoin ctx c.queryPrefix)
      ⟨c.joins.length + 1, [(0, source)], [], []⟩).toOption =
        (owner.association? name).bind fun a => (ctx.registry.route owner a).toOption.map
          (Arena.addHops ⟨c.joins.length + 1, [(0, source)], [], []⟩ ctx c.queryPrefix 0 1
            declared) := by
    rw [foldlM_declaredJoins_single hjoins href, Arena.toOption_bindAssociation]
    simp [hname, howner]
  constructor
  · rintro ⟨b, hb⟩
    obtain ⟨root, source', arena, hroot', hsource', hfold', -⟩ := resolve_cases hb
    obtain rfl := Option.some.inj (hroot.symm.trans hroot')
    obtain rfl : source = source' := Except.ok.inj (hsource.symm.trans hsource')
    rw [Except.toOption_eq_some_iff.mpr hfold'] at hfold
    obtain ⟨a, ha, hroute⟩ := Option.bind_eq_some_iff.mp hfold.symm
    obtain ⟨hops, hops', -⟩ := Option.map_eq_some_iff.mp hroute
    exact ⟨a, hops, ha, Except.toOption_eq_some_iff.mp hops'⟩
  · rintro ⟨a, hops, ha, hops'⟩
    rw [ha, Option.bind_some, Except.toOption_eq_some_iff.mpr hops', Option.map_some] at hfold
    exact resolve_of_foldlM hroot hpreloads hsource (Except.toOption_eq_some_iff.mp hfold)

/-- The declared binding of a single join holds the table that the route ends at. -/
theorem sources_of_route {a : Association} {hops : List Hop} {last : Hop} {b : Bindings Query}
    (ha : owner.association? name = some a) (hroute : ctx.registry.route owner a = .ok hops)
    (hlast : hops.getLast? = some last) (hb : c.resolve ctx = .ok b) :
    b.sources[1]? = some (last.bound ctx c.queryPrefix declared.tablePrefix) := by
  obtain ⟨source, hops', arena, -, hsource, hroute', hfold, hadds⟩ :=
    resolve_single hroot hjoins href rfl howner ha hb
  obtain rfl : hops = hops' := Except.ok.inj (hroute.symm.trans hroute')
  obtain ⟨-, hnodup, -, hsources⟩ := resolve_adds hroot hsource hfold hadds hb
  obtain ⟨start, hmem⟩ := last_mem_placeHops 1 hops 0 2 hlast
  rw [hsources]
  refine List.lookup_of_mem ?_
    (List.mem_cons_of_mem _ (List.mem_map.mpr ⟨(start, 1, last), hmem, rfl⟩))
  simpa [Function.comp_def] using hnodup

/-- A single join along an association ends at the schema that the route of the association ends
at. -/
theorem binds_iff_route (hpreloads : c.preloads = []) {reached : Option Schema} :
    c.Binds ctx 1 reached ↔ ∃ a hops, owner.association? name = some a ∧
      ctx.registry.route owner a = .ok hops ∧
      hops.getLast?.map (·.target.schema) = some reached := by
  constructor
  · rintro ⟨b, source, tablePrefix, hb, hsource, hreached⟩
    obtain ⟨a, hops, ha, hroute⟩ :=
      (exists_resolve_iff hroot hjoins href howner hpreloads).mp ⟨b, hb⟩
    obtain ⟨target, hlast, ⟨depth, leads⟩, -⟩ := Registry.leads_of_route ha hroute
    obtain ⟨last, hlast', rfl⟩ := Option.map_eq_some_iff.mp hlast
    rw [sources_of_route hroot hjoins href howner ha hroute hlast' hb, Option.some.injEq, Hop.bound,
      BoundSource.table.injEq] at hsource
    refine ⟨a, hops, ha, hroute, ?_⟩
    rw [hlast', Option.map_some, Option.some.injEq]
    exact Registry.eq_of_name_eq (leads.registered howner) hreached hsource.2.1
  · rintro ⟨a, hops, ha, hroute, hreached⟩
    obtain ⟨b, hb⟩ :=
      (exists_resolve_iff hroot hjoins href howner hpreloads).mpr ⟨a, hops, ha, hroute⟩
    obtain ⟨target, hlast, ⟨depth, leads⟩, -⟩ := Registry.leads_of_route ha hroute
    obtain ⟨last, hlast', rfl⟩ := Option.map_eq_some_iff.mp hlast
    rw [hlast', Option.map_some, Option.some.injEq] at hreached
    subst hreached
    exact ⟨b, _, _, hb, sources_of_route hroot hjoins href howner ha hroute hlast' hb,
      leads.registered howner⟩

/-- A single join along an association ends at what the association leads to, if the tables in
between are known. -/
theorem binds_iff_leads (hpreloads : c.preloads = [])
    (hchains : ∀ b, ctx.registry.Uses owner name b → b.kind ≠ .through [])
    {reached : Option Schema} :
    c.Binds ctx 1 reached ↔ (∃ depth, ctx.registry.Leads depth owner name reached) ∧
      ∀ b, ctx.registry.Uses owner name b → b.Bridged ctx.registry := by
  rw [binds_iff_route hroot hjoins href howner hpreloads]
  constructor
  · rintro ⟨a, hops, ha, hroute⟩
    exact (Registry.route_iff howner ha hchains).mp ⟨hops, hroute⟩
  · intro h
    have ⟨⟨_, leads⟩, _⟩ := h
    obtain ⟨a, ha⟩ := leads.exists_found
    obtain ⟨hops, hroute⟩ := (Registry.route_iff howner ha hchains).mpr h
    exact ⟨a, hops, ha, hroute⟩

/-- A single join along an association that is bound ends at some table. -/
theorem exists_binds_iff (hpreloads : c.preloads = []) :
    (∃ reached, c.Binds ctx 1 reached) ↔ ∃ b, c.resolve ctx = .ok b := by
  simp only [binds_iff_route hroot hjoins href howner hpreloads,
    exists_resolve_iff hroot hjoins href howner hpreloads]
  constructor
  · rintro ⟨_, a, hops, ha, hroute, -⟩
    exact ⟨a, hops, ha, hroute⟩
  · rintro ⟨a, hops, ha, hroute⟩
    obtain ⟨target, hlast, -⟩ := Registry.leads_of_route ha hroute
    exact ⟨_, a, hops, ha, hroute, by simpa using congrArg (Option.map Target.schema) hlast⟩

end

/-- **A preload and a join along one association** lead to the same schema.  Take a query from a
registered schema and only join an association of it, which is not made of a chain that names
nothing.  The preload finds what the association leads to with chains nested no deeper than the
limit; the join ends at what it leads to with chains nested to any depth, if the tables in between
are known.  Where the limit is kept and the tables are known, the preload finds a schema exactly if
the join ends at it, none exactly if the join ends at a table without schema, and fails exactly if
the join is not bound. -/
theorem preloads_agree (site : Site)
    (hroot : c.root = some ⟨.schema table owner.name, fromPrefix⟩) (hjoins : c.joins = [declared])
    (href : declared.association = some ⟨0, name⟩) (hpreloads : c.preloads = [])
    (howner : ctx.registry.lookup? owner.name = some owner)
    (hchains : ∀ b, ctx.registry.Uses owner name b → b.kind ≠ .through []) :
    (∀ reached, ctx.preloadTarget site owner name = .ok reached ↔
      ctx.registry.Leads (maxChainDepth + 1) owner name reached) ∧
    (∀ reached, c.Binds ctx 1 reached ↔
      (∃ depth, ctx.registry.Leads depth owner name reached) ∧
        ∀ b, ctx.registry.Uses owner name b → b.Bridged ctx.registry) ∧
    ((∀ depth reached, ctx.registry.Leads depth owner name reached →
        ctx.registry.Leads (maxChainDepth + 1) owner name reached) →
      (∀ b, ctx.registry.Uses owner name b → b.Bridged ctx.registry) →
      (∀ schema, ctx.preloadTarget site owner name = .ok (some schema) ↔
        c.Binds ctx 1 (some schema)) ∧
      (ctx.preloadTarget site owner name = .ok none ↔ c.Binds ctx 1 none) ∧
      ((∃ e, ctx.preloadTarget site owner name = .error e) ↔ ∃ e, c.resolve ctx = .error e)) := by
  have hbinds : ∀ reached, c.Binds ctx 1 reached ↔
      (∃ depth, ctx.registry.Leads depth owner name reached) ∧
        ∀ b, ctx.registry.Uses owner name b → b.Bridged ctx.registry :=
    fun _ => binds_iff_leads hroot hjoins href howner hpreloads hchains
  refine ⟨fun _ => Context.preloadTarget_eq_ok_iff, hbinds, fun hdepth hbridged => ?_⟩
  have hagree : ∀ reached, ctx.preloadTarget site owner name = .ok reached ↔
      c.Binds ctx 1 reached := fun reached => by
    rw [hbinds, Context.preloadTarget_eq_ok_iff]
    exact ⟨fun leads => ⟨⟨_, leads⟩, hbridged⟩, fun ⟨⟨_, leads⟩, _⟩ => hdepth _ _ leads⟩
  refine ⟨fun schema => hagree _, hagree _, ?_⟩
  have herror : ∀ {α : Type} (x : Except PlanError α), (∃ e, x = .error e) ↔ ¬ ∃ v, x = .ok v := by
    intro α x
    cases x <;> simp
  rw [herror, herror, ← exists_binds_iff hroot hjoins href howner hpreloads]
  simp only [hagree]

end Clauses

/-- Posts, joined with the owners of their labels. -/
def Clauses.ownedPosts : Clauses Query :=
  { (Query.ofSchema "posts" "Post").clauses with
    joins := [.alongUnder .left none 0 "label_owners"] }

/-- The owners of the labels of posts are found by a preload and by a join alike. -/
theorem Clauses.preloads_agree_owners :
    ∃ post author, Registry.labelled.lookup? "Post" = some post ∧
      Registry.labelled.lookup? "Author" = some author ∧
      (Context.reading .labelled).preloadTarget ⟨.preload, "label_owners"⟩ post "label_owners" =
        .ok (some author) ∧
      Clauses.ownedPosts.Binds (.reading .labelled) 1 (some author) := by
  obtain ⟨post, hpost⟩ : ∃ post, Registry.labelled.lookup? "Post" = some post := ⟨_, rfl⟩
  obtain ⟨author, hauthor⟩ : ∃ author, Registry.labelled.lookup? "Author" = some author := ⟨_, rfl⟩
  have howner : (Context.reading .labelled).registry.lookup? post.name = some post :=
    Registry.name_of_lookup? hpost ▸ hpost
  have hroot : Clauses.ownedPosts.root = some ⟨.schema "posts" post.name, none⟩ := by
    rw [Registry.name_of_lookup? hpost]
    rfl
  have hdeclared : Registry.labelled.schemas.flatMap (·.associations) =
      [.labels, .through "label_owners" ["labels", "owner"], .belongsTo "owner" "Author"] := rfl
  have hused : ∀ b, Registry.labelled.Uses post "label_owners" b →
      b.kind ≠ .through [] ∧ b.Bridged .labelled := fun b huses => by
    have hmem := hdeclared ▸ List.mem_flatMap.mpr (huses.declared howner)
    simp only [List.mem_cons, List.not_mem_nil, or_false] at hmem
    refine ⟨fun hkind => ?_, fun _ _ _ _ hkind => ?_⟩
    · rcases hmem with rfl | rfl | rfl <;> cases hkind
    · rcases hmem with rfl | rfl | rfl <;> cases hkind
      exact ⟨_, rfl⟩
  have hfound : (Context.reading .labelled).preloadTarget ⟨.preload, "label_owners"⟩ post
      "label_owners" = .ok (some author) := by
    cases hpost
    cases hauthor
    rfl
  obtain ⟨hpreload, hjoin, -⟩ := preloads_agree ⟨.preload, "label_owners"⟩ hroot rfl rfl rfl howner
    fun b hb => (hused b hb).1
  exact ⟨post, author, hpost, hauthor, hfound,
    (hjoin _).mpr ⟨⟨_, (hpreload _).mp hfound⟩, fun b hb => (hused b hb).2⟩⟩

/-- Nodes with children, and with chains that lead to them, `depth` of them nested in one another;
further with nodes that are linked by way of a schema, and with a chain that names nothing. -/
def Schema.knotted (depth : Nat) : Schema :=
  let nested := (List.range depth).foldl
    (fun s k => s.hasThrough ("descend" ++ toString (k + 1)) ["descend" ++ toString k])
    ((Schema.ofTable "Node" "nodes").hasMany "descend0" "Node")
  (nested.manyToMany "linked" "Node" (.schema "Link")).hasThrough "same" []

/-- The nodes alone: nothing is known of the links between them. -/
def Registry.knotted (depth : Nat) : Registry := empty.insertAll [.knotted depth]

/-- Nodes, joined along an association. -/
def Clauses.nodesWith (name : String) : Clauses Query :=
  { (Query.ofSchema "nodes" "Node").clauses with joins := [.alongUnder .left none 0 name] }

/-- Without its conditions the agreement fails: beyond the limit the join is bound and the preload
fails; with an unknown schema in between, and along a chain that names nothing, it is the other way
around. -/
theorem Clauses.not_preloads_agree_knotted :
    ((∃ b, (nodesWith "descend33").resolve (.reading (.knotted 33)) = .ok b) ∧
      ∃ e, (Context.reading (.knotted 33)).preloadTarget ⟨.preload, "descend33"⟩ (.knotted 33)
        "descend33" = .error e) ∧
    ((∃ e, (nodesWith "linked").resolve (.reading (.knotted 33)) = .error e) ∧
      (Context.reading (.knotted 33)).preloadTarget ⟨.preload, "linked"⟩ (.knotted 33) "linked" =
        .ok (some (.knotted 33))) ∧
    ((∃ e, (nodesWith "same").resolve (.reading (.knotted 33)) = .error e) ∧
      (Context.reading (.knotted 33)).preloadTarget ⟨.preload, "same"⟩ (.knotted 33) "same" =
        .ok (some (.knotted 33))) := by
  have hok : ∀ {α : Type} {x : Except PlanError α}, x.toOption.isSome = true → ∃ v, x = .ok v := by
    intro α x h
    cases x with
    | error => cases h
    | ok v => exact ⟨v, rfl⟩
  have herror : ∀ {α : Type} {x : Except PlanError α}, x.toOption.isNone = true →
      ∃ e, x = .error e := by
    intro α x h
    cases x with
    | error e => exact ⟨e, rfl⟩
    | ok => cases h
  exact ⟨⟨hok (by decide +kernel), herror (by decide +kernel)⟩,
    ⟨herror (by decide +kernel), rfl⟩, ⟨herror (by decide +kernel), rfl⟩⟩

end QueryPlanner
