import QueryPlanner.Conversion.BinaryId
import QueryPlanner.Proofs.Plan.Failing
import QueryPlanner.Proofs.Plan.Routes
import QueryPlanner.Proofs.Plan.Sources
import QueryPlanner.Query.Builder

/-!
# The blocks of joins of a level

Each declared join becomes a block of joins, and the blocks stand in declared order.  The last join
of a block takes the declared binding; those before it take bindings beyond all declared ones, in
the order in which they stand.  So every binding but that of `from` is taken by just one join.

* `Join.Becomes` — the block of a declared join
* `Arena.Blocked` — what binding one declared join after another keeps
* `Clauses.resolve_numbered` — the bindings of a level, and why each of them has a source
* `Clauses.failsWith_resolve` — what a level is refused for before its clauses are read
-/

namespace QueryPlanner

variable {σ : Type} {ctx : Context} {queryPrefix : Option String}

/-! ### One block -/

/-- The bindings of a block. -/
theorem ix_placeHops (final : Nat) :
    ∀ (hops : List Hop) (parent fresh : Nat), hops ≠ [] →
      (placeHops parent fresh final hops).map (·.2.1) =
        List.range' fresh (hops.length - 1) ++ [final]
  | [], _, _, hne => absurd rfl hne
  | [_], _, _, _ => by simp [placeHops]
  | _ :: hop' :: rest, parent, fresh, _ => by
    have ih := ix_placeHops final (hop' :: rest) fresh (fresh + 1) (by simp)
    rw [placeHops_cons_cons, List.map_cons, ih]
    simp [List.range'_succ]

theorem hop_placeHops (final : Nat) :
    ∀ (hops : List Hop) (parent fresh : Nat),
      (placeHops parent fresh final hops).map (·.2.2) = hops
  | [], _, _ => rfl
  | [_], _, _ => by simp [placeHops]
  | _ :: hop' :: rest, parent, fresh => by
    have ih := hop_placeHops final (hop' :: rest) fresh (fresh + 1)
    rw [placeHops_cons_cons, List.map_cons, ih]

/-- A hop starts from the binding of the hop before it. -/
theorem parent_placeHops (final : Nat) :
    ∀ (hops : List Hop) (parent fresh k : Nat) (q : Nat × Nat × Hop),
      (placeHops parent fresh final hops)[k]? = some q →
        (parent :: (placeHops parent fresh final hops).map (·.2.1))[k]? = some q.1
  | [], _, _, _, _, h => by simp [placeHops] at h
  | [hop], parent, _, k, q, h => by
    cases k with
    | zero =>
      simp only [placeHops, List.getElem?_cons_zero, Option.some.injEq] at h
      simp [← h]
    | succ k => simp [placeHops] at h
  | hop :: hop' :: rest, parent, fresh, k, q, h => by
    rw [placeHops_cons_cons] at h ⊢
    cases k with
    | zero =>
      simp only [List.getElem?_cons_zero, Option.some.injEq] at h
      simp [← h]
    | succ k =>
      rw [List.getElem?_cons_succ] at h
      rw [List.map_cons, List.getElem?_cons_succ]
      exact parent_placeHops final (hop' :: rest) fresh (fresh + 1) k q h

/-- The association that `ref` names stands for `steps` and leads to `target`.  The sources of
bindings are those that `bound` tells. -/
def AssociationRef.Leads (r : Registry) (bound : Nat → Option BoundSource) (ref : AssociationRef)
    (steps : List Association) (target : Target) : Prop :=
  ∃ source name owner association, bound ref.parent = some source ∧ source.schema? = some name ∧
    r.lookup? name = some owner ∧ owner.association? ref.name = some association ∧
    r.Unfolds owner association steps target

theorem AssociationRef.Leads.mono {r : Registry} {bound bound' : Nat → Option BoundSource}
    (hbound : ∀ ix s, bound ix = some s → bound' ix = some s) {ref : AssociationRef}
    {steps : List Association} {target : Target} (h : ref.Leads r bound steps target) :
    ref.Leads r bound' steps target := by
  obtain ⟨source, name, owner, association, hsource, hrest⟩ := h
  exact ⟨source, name, owner, association, hbound _ _ hsource, hrest⟩

/-- The block of a declared join: the join itself if it has a source of its own, and otherwise the
hops of its association. -/
inductive Join.Becomes (ctx : Context) (queryPrefix : Option String)
    (bound : Nat → Option BoundSource) (ix : Nat) (j : Join σ) : List (Join σ) → Prop
  | explicit (own : j.association = none) :
    Becomes ctx queryPrefix bound ix j [{ j with ix := some ix }]
  | along {ref steps target hops fresh} (declared : j.association = some ref)
      (earlier : ref.parent < ix) (leads : ref.Leads ctx.registry bound steps target)
      (makes : Registry.Makes hops steps target) :
    Becomes ctx queryPrefix bound ix j ((placeHops ref.parent fresh ix hops).map fun p =>
      p.2.2.join ctx queryPrefix j p.1 p.2.1)

theorem Hop.source_eq (hop : Hop) : (hop.source : Source σ) = hop.target.source := by
  unfold Hop.source Target.source
  cases hop.target.schema <;> rfl

theorem Registry.Makes.ne_nil {hops : List Hop} {steps : List Association} {target : Target}
    (h : Makes hops steps target) : hops ≠ [] := by
  rintro rfl
  cases h.2

namespace Join.Becomes

variable {bound : Nat → Option BoundSource} {ix : Nat} {j : Join σ} {block : List (Join σ)}

theorem mono {bound' : Nat → Option BoundSource}
    (hbound : ∀ ix s, bound ix = some s → bound' ix = some s)
    (h : j.Becomes ctx queryPrefix bound ix block) : j.Becomes ctx queryPrefix bound' ix block := by
  cases h with
  | explicit own => exact .explicit own
  | along declared earlier leads makes => exact .along declared earlier (leads.mono hbound) makes

/-- Every join of a block keeps the declared qualifier. -/
theorem qualifier (h : j.Becomes ctx queryPrefix bound ix block) :
    ∀ hop ∈ block, hop.qualifier = j.qualifier := by
  cases h with
  | explicit => simp
  | along =>
    intro hop hhop
    obtain ⟨p, -, rfl⟩ := List.mem_map.mp hhop
    rfl

/-- The last join of a block takes the declared binding.  Its source is the declared one, or the
target that the association leads to. -/
theorem last (h : j.Becomes ctx queryPrefix bound ix block) :
    ∃ last, block.getLast? = some last ∧ last.ix = some ix ∧
      (j.association = none → last.source = j.source) ∧
      ∀ ref, j.association = some ref → ∃ steps target,
        ref.Leads ctx.registry bound steps target ∧ last.source = some target.source := by
  cases h with
  | explicit own => exact ⟨_, rfl, rfl, fun _ => rfl, by simp [own]⟩
  | @along ref steps target hops fresh declared earlier leads makes =>
    have hix := ix_placeHops ix hops ref.parent fresh makes.ne_nil
    have hhop := hop_placeHops ix hops ref.parent fresh
    cases hlast : (placeHops ref.parent fresh ix hops).getLast? with
    | none => simp [List.getLast?_eq_none_iff.mp hlast] at hix
    | some p =>
      have hpix := congrArg List.getLast? hix
      have hptarget := congrArg List.getLast? hhop
      rw [List.getLast?_map, hlast] at hpix hptarget
      have htarget : p.2.2.target = target := by
        have := makes.2
        rw [← hptarget] at this
        simpa using this
      refine ⟨p.2.2.join ctx queryPrefix j p.1 p.2.1, by rw [List.getLast?_map, hlast]; rfl, ?_,
        by simp [declared], ?_⟩
      · simpa [Hop.join] using hpix
      · intro ref' href'
        obtain rfl : ref = ref' := Option.some.inj (declared.symm.trans href')
        exact ⟨steps, target, leads, congrArg some (htarget ▸ p.2.2.source_eq)⟩

end Join.Becomes

/-! ### The blocks made so far -/

/-- The schema at a binding is registered, under the name that its source has. -/
theorem Arena.schemaAt_cases {a : Arena σ} {site : Site} {ix : Nat} {owner : Schema}
    (h : a.schemaAt ctx site ix = .ok owner) :
    ∃ source name, a.bound.lookup ix = some source ∧ source.schema? = some name ∧
      ctx.registry.lookup? name = some owner := by
  unfold schemaAt at h
  cases hsource : a.bound.lookup ix with
  | none => simp [hsource] at h
  | some source =>
    simp only [hsource] at h
    cases hname : source.schema? with
    | none => simp [hname] at h
    | some name =>
      simp only [hname, Context.schema] at h
      cases hlookup : ctx.registry.lookup? name with
      | none => simp [hlookup] at h
      | some schema =>
        simp only [hlookup, Except.ok.injEq] at h
        exact ⟨source, name, rfl, hname, h ▸ hlookup⟩

/-- A list of blocks is what its blocks end with and what stands before that. -/
theorem List.flatten_perm_dropLast {α : Type} : ∀ blocks : List (List α),
    blocks.flatten.Perm (blocks.flatMap List.dropLast ++ blocks.filterMap List.getLast?)
  | [] => .refl _
  | block :: blocks => by
    have ih := flatten_perm_dropLast blocks
    rw [List.flatten_cons, List.flatMap_cons, List.filterMap_cons]
    cases hlast : block.getLast? with
    | none =>
      obtain rfl := List.getLast?_eq_none_iff.mp hlast
      simpa using ih
    | some last =>
      obtain ⟨front, rfl⟩ := List.getLast?_eq_some_iff.mp hlast
      rw [List.dropLast_concat, List.append_assoc, List.append_assoc]
      exact List.Perm.append_left front ((List.Perm.cons last ih).trans List.perm_middle.symm)

namespace Arena

/-- The blocks that the first `k` of the declared joins have become. -/
structure Blocked (ctx : Context) (queryPrefix : Option String) (joins : List (Join σ)) (k : Nat)
    (blocks : List (List (Join σ))) (a : Arena σ) : Prop where
  next : joins.length < a.next
  length : blocks.length = k
  flatten : a.joins = blocks.flatten
  becomes : ∀ i block, blocks[i]? = some block → ∃ j : Join σ, joins[i]? = some j ∧
    j.Becomes ctx queryPrefix (a.bound.lookup ·) (i + 1) block
  last : (blocks.filterMap List.getLast?).map Join.ix = (List.range' 1 k).map some
  fresh : (blocks.flatMap List.dropLast).map Join.ix =
    (List.range' (joins.length + 1) (a.next - (joins.length + 1))).map some

variable {joins : List (Join σ)} {k : Nat} {blocks : List (List (Join σ))} {a a' : Arena σ}

/-- A further block takes the next declared binding and the next fresh ones. -/
theorem Blocked.extend (h : a.Blocked ctx queryPrefix joins k blocks) {j : Join σ}
    (hj : joins[k]? = some j) (block : List (Join σ)) (bound : List (Nat × BoundSource))
    (count : Nat) (hjoins : a'.joins = a.joins ++ block) (hbound : a'.bound = a.bound ++ bound)
    (hnext : a'.next = a.next + count)
    (hfresh : block.dropLast.map Join.ix = (List.range' a.next count).map some)
    (hbecomes : j.Becomes ctx queryPrefix (a.bound.lookup ·) (k + 1) block) :
    a'.Blocked ctx queryPrefix joins (k + 1) (blocks ++ [block]) where
  next := hnext ▸ Nat.lt_add_right count h.next
  length := by rw [List.length_append, h.length, List.length_singleton]
  flatten := by simp [hjoins, h.flatten]
  becomes := by
    have hmono : ∀ ix s, a.bound.lookup ix = some s → a'.bound.lookup ix = some s := by
      intro ix s hs
      rw [hbound, List.lookup_append, hs, Option.some_or]
    intro i b hb
    rw [List.getElem?_append] at hb
    split at hb
    · obtain ⟨j', hj', hbecomes'⟩ := h.becomes i b hb
      exact ⟨j', hj', hbecomes'.mono hmono⟩
    · obtain ⟨hi, rfl⟩ : i - blocks.length = 0 ∧ block = b := by
        simpa [List.getElem?_singleton] using hb
      obtain rfl : i = k := by
        have := h.length
        omega
      exact ⟨j, hj, hbecomes.mono hmono⟩
  last := by
    obtain ⟨last, hlast, hix, -⟩ := hbecomes.last
    simp [h.last, hlast, hix, List.range'_concat, Nat.add_comm]
  fresh := by
    have hcount : a'.next - (joins.length + 1) = a.next - (joins.length + 1) + count := by
      have := h.next
      omega
    have hstart : joins.length + 1 + (a.next - (joins.length + 1)) = a.next := by
      have := h.next
      omega
    rw [List.flatMap_append, List.map_append, h.fresh, hcount, ← List.range'_append_1, hstart,
      List.map_append]
    simp [hfresh]

/-- One declared join adds its block. -/
theorem Blocked.bindJoin (h : a.Blocked ctx queryPrefix joins k blocks) {j : Join σ}
    (hj : joins[k]? = some j) (hstep : bindJoin ctx queryPrefix a (k + 1, j) = .ok a') :
    ∃ block, a'.Blocked ctx queryPrefix joins (k + 1) (blocks ++ [block]) := by
  rcases bindJoin_cases hstep with
    ⟨s, b, hown, -, -, rfl⟩ | ⟨ref, owner, association, hops, href, hparent, howner, hassoc, hhops,
      rfl⟩
  · exact ⟨_, h.extend hj _ _ 0 rfl rfl rfl rfl (.explicit hown)⟩
  · obtain ⟨source, name, hsource, hname, hlookup⟩ := schemaAt_cases howner
    obtain ⟨steps, target, hunfolds, hmakes⟩ := Registry.route_unfolds hhops
    have hleads : ref.Leads ctx.registry (a.bound.lookup ·) steps target :=
      ⟨source, name, owner, association, hsource, hname, hlookup, hassoc, hunfolds⟩
    have hix := ix_placeHops (k + 1) hops ref.parent a.next (Registry.Makes.ne_nil hmakes)
    refine ⟨_, h.extend hj _ _ (hops.length - 1) rfl rfl rfl ?_
      (.along href hparent hleads hmakes)⟩
    have hdrop := congrArg List.dropLast hix
    rw [List.dropLast_concat, ← List.map_dropLast] at hdrop
    rw [← List.map_dropLast, ← hdrop, List.map_map, List.map_map]
    rfl

end Arena

/-- The joins take each binding from 1 on once. -/
theorem Arena.Blocked.perm {joins : List (Join σ)} {blocks : List (List (Join σ))} {a : Arena σ}
    (h : a.Blocked ctx queryPrefix joins joins.length blocks) :
    (a.joins.map Join.ix).Perm ((List.range' 1 (a.next - 1)).map some) := by
  have hperm := (List.flatten_perm_dropLast blocks).map Join.ix
  rw [List.map_append, h.last, h.fresh, ← h.flatten] at hperm
  refine (hperm.trans List.perm_append_comm).trans (.of_eq ?_)
  have hcount : a.next - 1 = joins.length + (a.next - (joins.length + 1)) := by
    have := h.next
    omega
  rw [hcount, ← List.range'_append_1, List.map_append, Nat.add_comm 1 joins.length]

theorem Arena.Blocked.length_joins {joins : List (Join σ)} {blocks : List (List (Join σ))}
    {a : Arena σ} (h : a.Blocked ctx queryPrefix joins joins.length blocks) :
    a.next = a.joins.length + 1 := by
  have hlength := h.perm.length_eq
  have := h.next
  simp only [List.length_map, List.length_range'] at hlength
  omega

/-- Every binding has a source. -/
theorem Arena.exists_sources {root : Source σ} {n k : Nat} {joins : List (Join σ)}
    {blocks : List (List (Join σ))} {a : Arena σ} (hsound : a.Sound root n k)
    (hblocked : a.Blocked ctx queryPrefix joins joins.length blocks) :
    ∃ sources, a.sources = .ok sources := by
  refine Except.exists_mapM_iff.mpr fun ix hix => ?_
  have hbound : ∃ b, (ix, b) ∈ a.bound := by
    rcases Nat.eq_zero_or_pos ix with rfl | hpos
    · obtain ⟨b, hb, -⟩ := hsound.root
      exact ⟨b, hb⟩
    · have hmem : some ix ∈ (List.range' 1 (a.next - 1)).map some := by
        have := List.mem_range.mp hix
        exact List.mem_map_of_mem (List.mem_range'_1.mpr (by omega))
      obtain ⟨j, hj, hjx⟩ := List.mem_map.mp (hblocked.perm.mem_iff.mpr hmem)
      obtain ⟨ix', s, b, hix', -, hb, -⟩ := hsound.joins j hj
      obtain rfl := Option.some.inj (hix'.symm.trans hjx)
      exact ⟨b, hb⟩
  obtain ⟨b, hb⟩ := hbound
  exact ⟨b, by simp [List.lookup_of_mem hsound.nodup hb]⟩

/-! ### Why a level is refused -/

section

variable {E : PlanError → Prop}

theorem Context.failsWith_schema (hmissing : ∀ site name, E (.malformed site (.schemaMissing name)))
    (ctx : Context) (site : Site) (name : String) : FailsWith E (ctx.schema site name) := by
  unfold schema
  split
  · exact .ok _
  · exact .error (hmissing site name)

theorem Source.failsWith_bind (hmissing : ∀ site name, E (.malformed site (.schemaMissing name)))
    (s : Source σ) (clausePrefix : Option String) (clause : Clause) :
    FailsWith E (s.bind ctx queryPrefix clausePrefix clause) := by
  cases s with
  | schema table name => exact (ctx.failsWith_schema hmissing _ name).bind fun _ _ => .ok _
  | table _ | subquery _ | fragment _ => exact .ok _

theorem Arena.failsWith_schemaAt (hmissing : ∀ site name, E (.malformed site (.schemaMissing name)))
    (hnone : ∀ site ix, E (.malformed site (.noSchemaToFollow ix)))
    (hunknown : ∀ site ix, E (.malformed site (.unknownBinding ix)))
    (a : Arena σ) (site : Site) (ix : Nat) : FailsWith E (a.schemaAt ctx site ix) := by
  unfold schemaAt
  split
  · split
    · exact ctx.failsWith_schema hmissing site _
    · exact .error (hnone site ix)
  · exact .error (hunknown site ix)

mutual

theorem failsWith_checkPreloadJoin
    (hqualifier : ∀ site name qualifier, E (.malformed site (.preloadQualifier name qualifier)))
    (joins : List (Join σ)) : ∀ p : Preload, FailsWith E (checkPreloadJoin joins p)
  | ⟨association, binding, children⟩ => by
    have hchildren := failsWith_checkPreloadJoins hqualifier joins children
    rw [checkPreloadJoin]
    split
    · split
      · exact .bind (.error (hqualifier _ _ _)) fun _ h => nomatch h
      · exact hchildren
    · exact hchildren

theorem failsWith_checkPreloadJoins
    (hqualifier : ∀ site name qualifier, E (.malformed site (.preloadQualifier name qualifier)))
    (joins : List (Join σ)) : ∀ ps : List Preload, FailsWith E (checkPreloadJoins joins ps)
  | [] => .ok _
  | p :: ps => by
    have hp := failsWith_checkPreloadJoin hqualifier joins p
    have hps := failsWith_checkPreloadJoins hqualifier joins ps
    rw [checkPreloadJoins]
    exact hp.bind fun _ _ => hps

end

theorem RouteFault.toFault_ne (fresh : Nat) (fault : RouteFault) :
    fault.toFault fresh ≠ .neverBound := by
  cases fault <;> simp [toFault]

theorem Arena.failsWith_bindJoin
    (h : ∀ site fault, fault ≠ .neverBound → E (.malformed site fault)) (a : Arena σ)
    (declared : Nat × Join σ) : FailsWith E (bindJoin ctx queryPrefix a declared) := by
  unfold bindJoin bindExplicit bindAssociation
  split
  · split
    · exact .error (h _ _ nofun)
    · exact (Source.failsWith_bind (fun _ _ => h _ _ nofun) _ _ _).bind fun _ _ => .ok _
  · dsimp only
    split
    · exact .bind (.error (h _ _ nofun)) fun _ h => nomatch h
    · refine (a.failsWith_schemaAt (fun _ _ => h _ _ nofun) (fun _ _ => h _ _ nofun)
        (fun _ _ => h _ _ nofun) _ _).bind fun owner _ => ?_
      split
      · exact .error (h _ _ nofun)
      · split
        · exact .error (h _ _ (RouteFault.toFault_ne _ _))
        · exact .ok _

end

/-- Whatever fails, it is not for this fault. -/
def Except.Avoids {α : Type} (fault : Fault) (r : Except PlanError α) : Prop :=
  ∀ site, r ≠ .error (.malformed site fault)

theorem Except.Avoids.of_failsWith {α : Type} {fault : Fault} {r : Except PlanError α}
    (h : FailsWith (fun err => ∀ site, err ≠ .malformed site fault) r) : Avoids fault r :=
  fun site herr => h _ herr site rfl

theorem PlanError.malformed_ne {fault other : Fault} (h : other ≠ fault) (site site' : Site) :
    malformed site other ≠ malformed site' fault := by
  intro heq
  exact h (PlanError.malformed.inj heq).2

theorem Source.avoids_bind {fault : Fault} (hmissing : ∀ name, .schemaMissing name ≠ fault)
    (s : Source σ) (clausePrefix : Option String) (clause : Clause) :
    Except.Avoids fault (s.bind ctx queryPrefix clausePrefix clause) :=
  .of_failsWith (s.failsWith_bind (fun _ name => PlanError.malformed_ne (hmissing name) _) _ _)

theorem Arena.avoids_schemaAt {fault : Fault} (hmissing : ∀ name, .schemaMissing name ≠ fault)
    (hnone : ∀ ix, .noSchemaToFollow ix ≠ fault) (hunknown : ∀ ix, .unknownBinding ix ≠ fault)
    (a : Arena σ) (site : Site) (ix : Nat) : Except.Avoids fault (a.schemaAt ctx site ix) :=
  .of_failsWith (a.failsWith_schemaAt (fun _ name => PlanError.malformed_ne (hmissing name) _)
    (fun _ ix => PlanError.malformed_ne (hnone ix) _)
    (fun _ ix => PlanError.malformed_ne (hunknown ix) _) _ _)

theorem avoids_checkPreloadJoins {fault : Fault}
    (hqualifier : ∀ name qualifier, .preloadQualifier name qualifier ≠ fault)
    (joins : List (Join σ)) (ps : List Preload) :
    Except.Avoids fault (checkPreloadJoins joins ps) :=
  .of_failsWith (failsWith_checkPreloadJoins
    (fun _ name qualifier => PlanError.malformed_ne (hqualifier name qualifier) _) joins ps)

/-! ### A whole level -/

namespace Clauses

/-- The arena that a level ends with. -/
theorem exists_blocked {c : Clauses σ} {source : BoundSource} {a : Arena σ}
    (h : c.declaredJoins.foldlM (Arena.bindJoin ctx c.queryPrefix)
      ⟨c.joins.length + 1, [(0, source)], [], []⟩ = .ok a) :
    ∃ blocks, a.Blocked ctx c.queryPrefix c.joins c.joins.length blocks :=
  Arena.foldlM_declared (fun k a => ∃ blocks, a.Blocked ctx c.queryPrefix c.joins k blocks)
    (fun _ _ _ _ hj ⟨_, hinv⟩ hstep =>
      let ⟨block, hinv'⟩ := hinv.bindJoin hj hstep
      ⟨_, hinv'⟩)
    ⟨[], { next := Nat.lt_succ_self _, length := rfl, flatten := rfl, becomes := by simp
           last := rfl, fresh := by simp }⟩ h

/-- What a level is refused for, and that no binding of it is without a source. -/
theorem failsWith_resolve {E : PlanError → Prop}
    (h : ∀ site fault, fault ≠ .neverBound → E (.malformed site fault)) (c : Clauses σ) :
    FailsWith E (c.resolve ctx) := by
  unfold resolve
  cases hroot : c.root with
  | none => exact .error (h _ _ nofun)
  | some root =>
    refine (Source.failsWith_bind (fun _ _ => h _ _ nofun) _ _ _).bind fun source hsource => ?_
    refine (FailsWith.foldlM (fun a j _ => a.failsWith_bindJoin h j) _).bind fun a ha => ?_
    obtain ⟨blocks, hblocked⟩ := exists_blocked ha
    obtain ⟨sources, hsources⟩ :=
      Arena.exists_sources (Arena.sound_of_foldlM hsource ha) hblocked
    refine (failsWith_checkPreloadJoins (fun _ _ _ => h _ _ nofun) _ _).bind fun _ _ => ?_
    rw [hsources]
    exact .ok _

theorem avoids_resolve (c : Clauses σ) : Except.Avoids .neverBound (c.resolve ctx) :=
  .of_failsWith (c.failsWith_resolve fun site _ h => PlanError.malformed_ne h site)

/-- The blocks of a level, told by its sources. -/
theorem resolve_blocks {c : Clauses σ} {b : Bindings σ} (h : c.resolve ctx = .ok b) :
    b.sources.length = b.joins.length + 1 ∧
      (b.joins.map Join.ix).Perm ((List.range' 1 (b.sources.length - 1)).map some) ∧
      ∃ blocks : List (List (Join σ)), b.joins = blocks.flatten ∧
        blocks.length = c.joins.length ∧
        (blocks.flatMap List.dropLast).map Join.ix =
          (List.range' (c.joins.length + 1) (b.joins.length - c.joins.length)).map some ∧
        ∀ i (j : Join σ), c.joins[i]? = some j → ∃ block, blocks[i]? = some block ∧
          j.Becomes ctx c.queryPrefix (b.sources[·]?) (i + 1) block := by
  obtain ⟨root, source, a, -, hsource, ha, -, hsources, hjoins, -⟩ := resolve_cases h
  have hsound := Arena.sound_of_foldlM hsource ha
  obtain ⟨blocks, hblocked⟩ := exists_blocked ha
  have hnext : b.sources.length = a.next := by
    simpa using (congrArg List.length (Except.map_of_mapM hsources)).symm
  have hlength := hblocked.length_joins
  rw [← hjoins] at hlength
  have hlookup : ∀ ix s, a.bound.lookup ix = some s → b.sources[ix]? = some s := by
    intro ix s hs
    obtain ⟨l₁, l₂, hl, -⟩ := List.lookup_eq_some_iff.mp hs
    have htaken := hsound.taken (ix, s) (hl ▸ List.mem_append_right _ List.mem_cons_self)
    have := hsound.next
    exact (Arena.getElem?_sources hsources).mpr ⟨by simp only at *; omega, hs⟩
  refine ⟨by omega, by rw [hnext, hjoins]; exact hblocked.perm, blocks, hjoins ▸ hblocked.flatten,
    hblocked.length, ?_, ?_⟩
  · rw [hblocked.fresh, hlength, Nat.add_sub_add_right]
  · intro i j hj
    obtain ⟨hi, -⟩ := List.getElem?_eq_some_iff.mp hj
    have hblock := List.getElem?_eq_getElem (hblocked.length.symm ▸ hi)
    obtain ⟨j', hj', hbecomes⟩ := hblocked.becomes i _ hblock
    obtain rfl : j = j' := Option.some.inj (hj.symm.trans hj')
    exact ⟨_, hblock, hbecomes.mono hlookup⟩

/-- **The bindings of a level** with `n` declared joins.  None of them is ever found to be without a
source.  There is one more source than there are joins, and the joins take each binding from 1 on
once.  They are the blocks of the declared joins, in declared order.  The last join of block `i`
takes the binding `i`; its source is the declared one, or the target of the association.  The other
joins take the bindings `n + 1`, `n + 2`, … in turn.  All joins of a block keep the declared
qualifier. -/
theorem resolve_numbered (c : Clauses σ) :
    (∀ site, c.resolve ctx ≠ .error (.malformed site .neverBound)) ∧
    ∀ b, c.resolve ctx = .ok b →
      b.sources.length = b.joins.length + 1 ∧
      (b.joins.map Join.ix).Perm ((List.range' 1 (b.sources.length - 1)).map some) ∧
      ∃ blocks : List (List (Join σ)), b.joins = blocks.flatten ∧
        blocks.length = c.joins.length ∧
        (blocks.flatMap List.dropLast).map Join.ix =
          (List.range' (c.joins.length + 1) (b.joins.length - c.joins.length)).map some ∧
        ∀ i (j : Join σ), c.joins[i]? = some j → ∃ block last, blocks[i]? = some block ∧
          block.getLast? = some last ∧ last.ix = some (i + 1) ∧
          (∀ hop ∈ block, hop.qualifier = j.qualifier) ∧
          (j.association = none → last.source = j.source) ∧
          ∀ ref, j.association = some ref → ∃ steps target,
            ref.Leads ctx.registry (b.sources[·]?) steps target ∧
            last.source = some target.source := by
  refine ⟨c.avoids_resolve, fun b hb => ?_⟩
  obtain ⟨hcount, hperm, blocks, hflatten, hlength, hfresh, hbecomes⟩ := resolve_blocks hb
  refine ⟨hcount, hperm, blocks, hflatten, hlength, hfresh, fun i j hj => ?_⟩
  obtain ⟨block, hblock, hj⟩ := hbecomes i j hj
  obtain ⟨last, hlast, hix, hsource⟩ := hj.last
  exact ⟨block, last, hblock, hlast, hix, hj.qualifier, hsource⟩

end Clauses

/-- The labels of a post, by way of the rows of a table that are not deleted. -/
def Association.labels : Association :=
  ((manyToMany "Post" "labels" "Label" (.table "posts_labels")).withFilter "name"
    (.fragment "? <> upper(?)")).withJoinFilter "deleted_at" .isNil

/-- Posts with labels, and the owners of these labels. -/
def Registry.labelled : Registry :=
  empty.insertAll
    [((Schema.ofTable "Post" "posts").addAssociation .labels).hasThrough "label_owners"
        ["labels", "owner"],
      (Schema.ofTable "Label" "labels").belongsTo "owner" "Author",
      Schema.ofTable "Author" "authors"]

/-- The owners of the labels of posts, beside a join with a table. -/
def Query.labelOwners : Query :=
  ((Query.ofSchema "posts" "Post").joinAssociation .left 0 "label_owners").innerJoin
    (.table "users") (.literal (.bool true))

/-- What a query that is to read `registry` is planned with. -/
def Context.reading (registry : Registry) : Context where
  registry := registry
  conversions := .builtin
  capabilities := Dialect.postgres.capabilities
  operation := .all
  defaultPrefix := none

/-- Three hops stand before the second declared join; only the last of them has the declared
binding. -/
theorem Clauses.resolve_numbered_interleaved :
    ∃ b, Query.labelOwners.clauses.resolve (.reading .labelled) = .ok b ∧
      b.joins.map Join.ix = [some 3, some 4, some 1, some 2] ∧
      b.sources.length = b.joins.length + 1 := by
  have hix : (Query.labelOwners.clauses.resolve (.reading .labelled)).toOption.map
      (·.joins.map Join.ix) = some [some 3, some 4, some 1, some 2] := by
    decide +kernel
  obtain ⟨b, hb, hjoins⟩ := Option.map_eq_some_iff.mp hix
  have hok := Except.toOption_eq_some_iff.mp hb
  exact ⟨b, hok, hjoins, ((Clauses.resolve_numbered _).2 b hok).1⟩

end QueryPlanner
