import Mathlib.Logic.Equiv.Basic
import QueryPlanner.Proofs.Expr.Renaming
import QueryPlanner.Proofs.Plan.Blocks

/-!
# A chain is the associations that it stands for

A join along a chain makes the same joins of tables, in the same order, as a declared join for each
association that the chain stands for, each from the binding of the one before.  Only the numbers
of the bindings differ: along the chain the last join alone has the declared one, while each of the
declared joins keeps its own.

* `Registry.Walks` — associations that lead from one schema to the next, with the hops of each
* `Registry.Unfolds.walks` — the hops of an association are those of what it stands for, in turn
* `Clauses.resolve_inSteps` — both queries are bound alike, up to the numbers of their bindings
-/

namespace QueryPlanner

variable {ctx : Context} {queryPrefix : Option String}

/-! ### The associations along the way -/

/-- An association is found under its own name, if it is found at all. -/
theorem Schema.association?_name {owner : Schema} {name : String} {a : Association}
    (h : owner.association? name = some a) : owner.association? a.name = some a := by
  have hname : a.name = name := by simpa using List.find?_some h
  rw [hname, h]

namespace Registry

variable {r : Registry}

/-- The association `a` of `owner`, which is no chain, goes along `hops` to `target`. -/
structure Goes (r : Registry) (owner : Schema) (a : Association) (hops : List Hop)
    (target : Target) : Prop where
  found : owner.association? a.name = some a
  kind : ∀ chain, a.kind ≠ .through chain
  route : r.route owner a = .ok hops
  leads : hops.getLast?.map Hop.target = some target
  registered : ∀ schema, target.schema = some schema → r.lookup? schema.name = some schema

/-- The associations `steps`, each along its own of `routes`, lead from `owner` to `target`. -/
inductive Walks (r : Registry) :
    (owner : Schema) → (steps : List Association) → (routes : List (List Hop)) →
      (target : Target) → Prop
  | last {owner a hops target} (goes : r.Goes owner a hops target) :
    Walks r owner [a] [hops] target
  | next {owner a hops between schema steps routes target} (goes : r.Goes owner a hops between)
      (goesOn : between.schema = some schema) (walks : Walks r schema steps routes target) :
    Walks r owner (a :: steps) (hops :: routes) target

namespace Walks

variable {owner schema : Schema} {steps others : List Association}
  {routes further : List (List Hop)} {between target : Target}

theorem append (h : r.Walks owner steps routes between) (goesOn : between.schema = some schema)
    (h' : r.Walks schema others further target) :
    r.Walks owner (steps ++ others) (routes ++ further) target := by
  induction h with
  | last goes => exact .next goes goesOn h'
  | next goes on _ ih => exact .next goes on (ih goesOn)

theorem kind (h : r.Walks owner steps routes target) :
    ∀ step ∈ steps, ∀ chain, step.kind ≠ .through chain := by
  induction h with
  | last goes => exact List.forall_mem_singleton.mpr goes.kind
  | next goes _ _ ih => exact List.forall_mem_cons.mpr ⟨goes.kind, ih⟩

theorem ne_nil (h : r.Walks owner steps routes target) : ∀ hops ∈ routes, hops ≠ [] := by
  have hgoes : ∀ {owner a hops target}, r.Goes owner a hops target → hops ≠ [] := by
    rintro _ _ _ _ goes rfl
    cases goes.leads
  induction h with
  | last goes => exact List.forall_mem_singleton.mpr (hgoes goes)
  | next goes _ _ ih => exact List.forall_mem_cons.mpr ⟨hgoes goes, ih⟩

theorem leads (h : r.Walks owner steps routes target) :
    routes.flatten.getLast?.map Hop.target = some target := by
  induction h with
  | last goes => simpa using goes.leads
  | next goes _ _ ih =>
    obtain ⟨last, hlast, htarget⟩ := Option.map_eq_some_iff.mp ih
    rw [List.flatten_cons, List.getLast?_append, hlast, Option.some_or, Option.map_some, htarget]

end Walks

/-- What a target is found as is registered under its own name. -/
theorem registered_target {related : Related} {target : Target} {schema : Schema}
    (h : r.target related = .ok target) (hschema : target.schema = some schema) :
    r.lookup? schema.name = some schema := by
  unfold Registry.target at h
  split at h
  · cases h
    cases hschema
  · split at h
    · rename_i hfound
      cases h
      cases hschema
      rw [name_of_lookup? hfound, hfound]
    · cases h

/-- The hops of an association that is no chain do not depend on what is unfolded around it. -/
theorem goes_of_unfold {depth count : Nat} {opened : List (String × String)} {owner : Schema}
    {a : Association} {target : Target} {hops : List Hop}
    (found : owner.association? a.name = some a) (kind : ∀ chain, a.kind ≠ .through chain)
    (related : r.target a.related = .ok target)
    (h : r.unfold depth opened count owner a = .ok hops) : r.Goes owner a hops target := by
  cases depth with
  | zero => simp [unfold] at h
  | succ depth =>
    have hclosed : ([] : List (String × String)).contains (owner.name, a.name) = false := rfl
    have hleads : (∃ target, r.target a.related = .ok target ∧ Makes hops [a] target) →
        hops.getLast?.map Hop.target = some target := by
      rintro ⟨target', hrelated, hmakes⟩
      obtain rfl : target' = target := Except.ok.inj (hrelated.symm.trans related)
      exact hmakes.2
    rw [unfold] at h
    split at h
    · cases h
    refine ⟨found, kind, ?_, ?_, fun schema => registered_target related⟩
    · rw [route, unfold, hclosed]
      cases hkind : a.kind with
      | through chain => exact absurd hkind (kind chain)
      | manyToMany | belongsTo | hasMany | hasOne => simpa [hkind] using h
    · cases hkind : a.kind with
      | through chain => exact absurd hkind (kind chain)
      | manyToMany joinThrough joinOwnerKey joinRelatedKey joinFilters =>
        simp only [hkind] at h
        exact hleads (makes_joinThroughHops hkind h)
      | belongsTo | hasMany | hasOne =>
        simp only [hkind] at h
        exact hleads (makes_directHop (by simp [Association.links, hkind]) h)

mutual

/-- **The hops of an association** are those of the associations that it stands for, in turn. -/
theorem Unfolds.walks : ∀ {owner : Schema} {a : Association} {steps : List Association}
    {target : Target}, r.Unfolds owner a steps target → owner.association? a.name = some a →
      ∀ {depth count : Nat} {opened : List (String × String)} {hops : List Hop},
        r.unfold depth opened count owner a = .ok hops →
          ∃ routes, r.Walks owner steps routes target ∧ routes.flatten = hops
  | _, _, _, _, .single kind related, found, _, _, _, hops, h =>
    ⟨[hops], .last (goes_of_unfold found kind related h), by simp⟩
  | _, _, _, _, @Unfolds.chain _ _ _ names _ _ kind follows, _, depth, _, _, _, h => by
    have hfollows := @Follows.walks _ _ _ _ follows
    cases depth with
    | zero => simp [unfold] at h
    | succ depth =>
      rw [unfold] at h
      split at h
      · cases h
      rw [kind] at h
      cases names with
      | nil => cases h
      | cons name names => exact hfollows h
  termination_by structural _ _ _ _ unfolds => unfolds

/-- The hops of the associations of a chain are those of what they stand for, in turn. -/
theorem Follows.walks : ∀ {owner : Schema} {names : List String} {steps : List Association}
    {target : Target}, r.Follows owner names steps target →
      ∀ {depth count : Nat} {opened : List (String × String)} {through : String}
        {hops : List Hop},
        chainHops (unfold r depth opened) through count owner names = .ok hops →
          ∃ routes, r.Walks owner steps routes target ∧ routes.flatten = hops
  | owner, _, _, _, .last (a := a) found unfolds, depth, count, opened, _, hops, h => by
    rw [chainHops] at h
    simp only [found] at h
    cases hfirst : r.unfold depth opened count owner a with
    | error fault => simp [hfirst, bind, Except.bind] at h
    | ok first =>
      obtain rfl : first = hops := by simpa [hfirst, bind, Except.bind] using h
      exact unfolds.walks (Schema.association?_name found) hfirst
  | owner, _, _, _, @Follows.next _ _ _ a _ _ _ names _ _ found unfolds goesOn follows, depth,
      count, opened, _, _, h => by
    have hfollows := @Follows.walks _ _ _ _ follows
    rw [chainHops] at h
    simp only [found] at h
    cases hfirst : r.unfold depth opened count owner a with
    | error fault => simp [hfirst, bind, Except.bind] at h
    | ok first =>
      simp only [hfirst, bind, Except.bind] at h
      obtain ⟨routes, hwalks, rfl⟩ := unfolds.walks (Schema.association?_name found) hfirst
      cases names with
      | nil => cases follows
      | cons name names =>
        obtain ⟨last, hlast, hbetween⟩ := Option.map_eq_some_iff.mp hwalks.leads
        simp only [List.isEmpty_cons, Bool.false_eq_true, if_false, hlast, Option.bind_some,
          hbetween, goesOn] at h
        split at h
        · cases h
        · rename_i others hothers
          cases h
          obtain ⟨further, hfurther, rfl⟩ := hfollows hothers
          exact ⟨routes ++ further, hwalks.append goesOn hfurther, List.flatten_append⟩
  termination_by structural _ _ _ _ follows => follows

end

end Registry

/-! ### Numbering the hops -/

/-- The hops with the given bindings, each from the binding of the hop before it. -/
def threadHops : (parent : Nat) → List Nat → List Hop → List (Nat × Nat × Hop)
  | parent, ix :: ixs, hop :: hops => (parent, ix, hop) :: threadHops ix ixs hops
  | _, _, _ => []

theorem placeHops_eq_thread (final : Nat) : ∀ (hops : List Hop) (parent fresh : Nat),
    placeHops parent fresh final hops =
      threadHops parent ((placeHops parent fresh final hops).map (·.2.1)) hops
  | [], _, _ => rfl
  | [_], _, _ => by simp [placeHops, threadHops]
  | _ :: hop' :: rest, _, fresh => by
    have ih := placeHops_eq_thread final (hop' :: rest) fresh (fresh + 1)
    rw [placeHops_cons_cons, List.map_cons, threadHops, ← ih]

theorem threadHops_append : ∀ {ixs : List Nat} {hops : List Hop} (parent : Nat) {last : Nat},
    ixs.length = hops.length → ixs.getLast? = some last → ∀ (ixs' : List Nat) (hops' : List Hop),
      threadHops parent (ixs ++ ixs') (hops ++ hops') =
        threadHops parent ixs hops ++ threadHops last ixs' hops'
  | [], _, _, _, _, hlast => by simp at hlast
  | [_], [hop], _, _, _, hlast => by
    obtain rfl := Option.some.inj hlast
    simp [threadHops]
  | ix :: ix' :: ixs, hop :: hops, _, _, hlength, hlast => by
    intro ixs' hops'
    have ih := threadHops_append ix (Nat.succ.inj hlength)
      (List.getLast?_cons_cons ▸ hlast) ixs' hops'
    simp only [List.cons_append, threadHops] at ih ⊢
    rw [ih]

/-- Renaming the bindings renames them everywhere. -/
theorem threadHops_map (ρ : Nat → Nat) : ∀ (ixs : List Nat) (hops : List Hop) (parent : Nat),
    (threadHops parent ixs hops).map (fun p => (ρ p.1, ρ p.2.1, p.2.2)) =
      threadHops (ρ parent) (ixs.map ρ) hops
  | [], _, _ => rfl
  | _ :: _, [], _ => rfl
  | _ :: ixs, _ :: hops, _ => by
    rw [List.map_cons, threadHops, threadHops, List.map_cons, threadHops_map ρ ixs hops]

/-- The bindings of the hops of declared joins in turn, each join from the binding of the one
before: the last hop of the first takes `ix + 1`, that of the second `ix + 2`, … -/
def placeRoutes : (ix fresh : Nat) → List (List Hop) → List (Nat × Nat × Hop)
  | _, _, [] => []
  | ix, fresh, hops :: routes =>
    placeHops ix fresh (ix + 1) hops ++ placeRoutes (ix + 1) (fresh + (hops.length - 1)) routes

theorem placeRoutes_eq_thread : ∀ (routes : List (List Hop)) (ix fresh : Nat),
    (∀ hops ∈ routes, hops ≠ []) →
      placeRoutes ix fresh routes =
        threadHops ix ((placeRoutes ix fresh routes).map (·.2.1)) routes.flatten
  | [], _, _, _ => rfl
  | hops :: routes, ix, fresh, hne => by
    obtain ⟨hhops, hroutes⟩ := List.forall_mem_cons.mp hne
    have ih := placeRoutes_eq_thread routes (ix + 1) (fresh + (hops.length - 1)) hroutes
    have hlast : ((placeHops ix fresh (ix + 1) hops).map (·.2.1)).getLast? = some (ix + 1) := by
      rw [ix_placeHops _ hops ix fresh hhops, List.getLast?_concat]
    have hlength : ((placeHops ix fresh (ix + 1) hops).map (·.2.1)).length = hops.length := by
      have := congrArg List.length (hop_placeHops (ix + 1) hops ix fresh)
      simpa using this
    rw [placeRoutes, List.map_append, List.flatten_cons, threadHops_append _ hlength hlast, ← ih,
      ← placeHops_eq_thread]

theorem hop_placeRoutes : ∀ (routes : List (List Hop)) (ix fresh : Nat),
    (placeRoutes ix fresh routes).map (·.2.2) = routes.flatten
  | [], _, _ => rfl
  | hops :: routes, ix, fresh => by
    rw [placeRoutes, List.map_append, hop_placeHops, hop_placeRoutes routes, List.flatten_cons]

/-! ### Joins in steps -/

/-- A join along an association of an earlier binding, with a table prefix of its own. -/
def Join.alongUnder (qualifier : JoinQualifier) (tablePrefix : Option String) (parent : Nat)
    (name : String) : Join Query :=
  { Join.along qualifier parent name with tablePrefix }

/-- One join along each of the associations, each from the binding of the one before, and the first
from `first`. -/
def Join.inSteps (qualifier : JoinQualifier) (tablePrefix : Option String) (first : Nat)
    (steps : List Association) : List (Join Query) :=
  (steps.zipIdx first).map fun (step, ix) => .alongUnder qualifier tablePrefix ix step.name

/-- The last hop of a block takes its declared binding. -/
theorem last_mem_placeHops (final : Nat) {last : Hop} : ∀ (hops : List Hop) (parent fresh : Nat),
    hops.getLast? = some last → ∃ start, (start, final, last) ∈ placeHops parent fresh final hops
  | [], _, _, h => nomatch h
  | [hop], parent, _, h => by
    obtain rfl : hop = last := Option.some.inj h
    exact ⟨parent, by simp [placeHops]⟩
  | _ :: hop' :: rest, _, fresh, h => by
    obtain ⟨start, hmem⟩ := last_mem_placeHops final (hop' :: rest) fresh (fresh + 1)
      (List.getLast?_cons_cons ▸ h)
    refine ⟨start, ?_⟩
    rw [placeHops_cons_cons]
    exact List.mem_cons_of_mem _ hmem

namespace Arena

/-- The joins in `placed`, made for `declared`, take `a` to `a'`. -/
structure Adds (ctx : Context) (queryPrefix : Option String) (declared : Join Query)
    (placed : List (Nat × Nat × Hop)) (a a' : Arena Query) : Prop where
  bound : a'.bound = a.bound ++ placed.map fun p =>
    (p.2.1, p.2.2.bound ctx queryPrefix declared.tablePrefix)
  joins : a'.joins = a.joins ++ placed.map fun p => p.2.2.join ctx queryPrefix declared p.1 p.2.1

variable {declared : Join Query}

theorem Adds.trans {placed placed' : List (Nat × Nat × Hop)} {a a' a'' : Arena Query}
    (h : Adds ctx queryPrefix declared placed a a')
    (h' : Adds ctx queryPrefix declared placed' a' a'') :
    Adds ctx queryPrefix declared (placed ++ placed') a a'' where
  bound := by rw [h'.bound, h.bound, List.map_append, List.append_assoc]
  joins := by rw [h'.joins, h.joins, List.map_append, List.append_assoc]

/-- The association of a schema that is bound at `ix` is bound from there. -/
theorem bindJoin_goes (queryPrefix : Option String) (declared : Join Query) {root : Source Query}
    {n ix : Nat} {a : Arena Query} {source : BoundSource} {owner : Schema} {step : Association}
    {hops : List Hop} {target : Target}
    (hsound : a.Sound root n ix) (hix : ix < n) (hsource : (ix, source) ∈ a.bound)
    (hname : source.schema? = some owner.name)
    (howner : ctx.registry.lookup? owner.name = some owner)
    (hgoes : ctx.registry.Goes owner step hops target) :
    ∃ a', bindJoin ctx queryPrefix a
        (ix + 1, .alongUnder declared.qualifier declared.tablePrefix ix step.name) = .ok a' ∧
      Adds ctx queryPrefix declared (placeHops ix a.next (ix + 1) hops) a a' ∧
      a'.next = a.next + (hops.length - 1) ∧ a'.Sound root n (ix + 1) ∧
      ∃ source', (ix + 1, source') ∈ a'.bound ∧
        source'.schema? = target.schema.map (·.name) := by
  have hlater : ¬ ix + 1 ≤ ix := by omega
  have hbind : bindJoin ctx queryPrefix a
      (ix + 1, .alongUnder declared.qualifier declared.tablePrefix ix step.name) =
        .ok (a.addHops ctx queryPrefix ix (ix + 1)
          (.alongUnder declared.qualifier declared.tablePrefix ix step.name) hops) := by
    rw [← Except.toOption_eq_some_iff, bindJoin]
    refine (toOption_bindAssociation a (ix + 1) _ ⟨ix, step.name⟩).trans ?_
    simp only [hlater, if_false, List.lookup_of_mem hsound.nodup hsource, Option.bind_some, hname,
      howner, hgoes.found, hgoes.route, Except.toOption, Option.map_some]
  refine ⟨_, hbind, ⟨rfl, rfl⟩, rfl, hsound.bindJoin hix hbind, ?_⟩
  obtain ⟨last, hlast, htarget⟩ := Option.map_eq_some_iff.mp hgoes.leads
  obtain ⟨start, hmem⟩ := last_mem_placeHops (ix + 1) hops ix a.next hlast
  exact ⟨last.bound ctx queryPrefix declared.tablePrefix,
    List.mem_append_right _ (List.mem_map.mpr ⟨_, hmem, rfl⟩), by rw [← htarget]; rfl⟩

/-- Associations that lead from one schema to the next are bound one by one. -/
theorem foldlM_inSteps (queryPrefix : Option String) (declared : Join Query) {owner : Schema}
    {steps : List Association} {routes : List (List Hop)} {target : Target}
    (hwalks : ctx.registry.Walks owner steps routes target) {root : Source Query} {n : Nat} :
    ∀ {a : Arena Query} {ix : Nat} {source : BoundSource}, a.Sound root n ix →
      ix + steps.length = n → (ix, source) ∈ a.bound → source.schema? = some owner.name →
      ctx.registry.lookup? owner.name = some owner →
      ∃ a', (((Join.inSteps declared.qualifier declared.tablePrefix ix steps).zipIdx ix).map
          fun (j, i) => (i + 1, j)).foldlM (bindJoin ctx queryPrefix) a = .ok a' ∧
        Adds ctx queryPrefix declared (placeRoutes ix a.next routes) a a' := by
  induction hwalks with
  | last goes =>
    intro a ix source hsound hlength hsource hname howner
    obtain ⟨a', hbind, hadds, -⟩ := bindJoin_goes queryPrefix declared hsound
      (by simp at hlength; omega) hsource hname howner goes
    refine ⟨a', ?_, by simpa [placeRoutes] using hadds⟩
    simp only [Join.inSteps, List.zipIdx_cons, List.zipIdx_nil, List.map_cons, List.map_nil,
      List.foldlM_cons, List.foldlM_nil, hbind]
    rfl
  | next goes goesOn _ ih =>
    intro a ix source hsound hlength hsource hname howner
    rw [List.length_cons] at hlength
    obtain ⟨a₁, hbind, hadds, hnext, hsound₁, source₁, hsource₁, hname₁⟩ :=
      bindJoin_goes queryPrefix declared hsound (by omega) hsource hname howner goes
    rw [goesOn, Option.map_some] at hname₁
    obtain ⟨a₂, hfold, hadds₂⟩ :=
      ih hsound₁ (by omega) hsource₁ hname₁ (goes.registered _ goesOn)
    refine ⟨a₂, ?_, ?_⟩
    · simp only [Join.inSteps, List.zipIdx_cons, List.map_cons, List.foldlM_cons, hbind] at hfold ⊢
      exact hfold
    · rw [placeRoutes, ← hnext]
      exact hadds.trans hadds₂

end Arena

/-! ### The renaming -/

/-- A rearrangement of a list without repetitions is its image under a renaming that moves nothing
else. -/
theorem List.exists_map_eq_of_perm {α : Type} [DecidableEq α] {xs ys : List α} (h : xs.Perm ys) :
    xs.Nodup → ∃ ρ : Equiv.Perm α, xs.map ρ = ys ∧ ∀ x ∉ xs, ρ x = x := by
  induction h with
  | nil => exact fun _ => ⟨Equiv.refl α, rfl, fun _ _ => rfl⟩
  | cons x _ ih =>
    intro hnodup
    obtain ⟨hx, hxs⟩ := List.nodup_cons.mp hnodup
    obtain ⟨ρ, hmap, hfix⟩ := ih hxs
    exact ⟨ρ, by rw [List.map_cons, hfix x hx, hmap],
      fun y hy => hfix y fun hmem => hy (List.mem_cons_of_mem x hmem)⟩
  | swap x y xs =>
    intro hnodup
    simp only [List.nodup_cons, List.mem_cons, not_or] at hnodup
    obtain ⟨⟨-, hy⟩, hx, -⟩ := hnodup
    refine ⟨Equiv.swap y x, ?_, fun z hz => ?_⟩
    · rw [List.map_cons, List.map_cons, Equiv.swap_apply_left, Equiv.swap_apply_right]
      refine congrArg (x :: y :: ·) ((List.map_congr_left fun z hz => ?_).trans (List.map_id xs))
      exact Equiv.swap_apply_of_ne_of_ne (fun h => hy (h ▸ hz)) fun h => hx (h ▸ hz)
    · simp only [List.mem_cons, not_or] at hz
      exact Equiv.swap_apply_of_ne_of_ne hz.1 hz.2.1
  | trans hxy _ ih ih' =>
    intro hnodup
    obtain ⟨ρ, hmap, hfix⟩ := ih hnodup
    obtain ⟨τ, hmap', hfix'⟩ := ih' (hxy.nodup_iff.mp hnodup)
    refine ⟨ρ.trans τ, ?_, fun x hx => ?_⟩
    · rw [← hmap', ← hmap, List.map_map]
      rfl
    · rw [Equiv.trans_apply, hfix x hx, hfix' x fun hmem => hx (hxy.mem_iff.mpr hmem)]

/-- Two ways to number the same hops from binding 0 on, each with the numbers from 1 on, differ by a
renaming. -/
theorem exists_renaming {routes : List (List Hop)} {fresh final fresh' : Nat}
    (hne : ∀ hops ∈ routes, hops ≠ [])
    (hnodup : (0 :: (placeHops 0 fresh final routes.flatten).map (·.2.1)).Nodup)
    (hperm : ((placeHops 0 fresh final routes.flatten).map (·.2.1)).Perm
      (List.range' 1 (placeHops 0 fresh final routes.flatten).length))
    (hperm' : ((placeRoutes 0 fresh' routes).map (·.2.1)).Perm
      (List.range' 1 (placeRoutes 0 fresh' routes).length)) :
    ∃ ρ : Equiv.Perm Nat, ρ 0 = 0 ∧ placeRoutes 0 fresh' routes =
      (placeHops 0 fresh final routes.flatten).map fun p => (ρ p.1, ρ p.2.1, p.2.2) := by
  have hcount : (placeHops 0 fresh final routes.flatten).length =
      (placeRoutes 0 fresh' routes).length := by
    have hhops := congrArg List.length (hop_placeHops final routes.flatten 0 fresh)
    have hhops' := congrArg List.length (hop_placeRoutes routes 0 fresh')
    rw [List.length_map] at hhops hhops'
    rw [hhops, hhops']
  rw [← hcount] at hperm'
  obtain ⟨hzero, hnodup⟩ := List.nodup_cons.mp hnodup
  obtain ⟨ρ, hρ, hfix⟩ := List.exists_map_eq_of_perm (hperm.trans hperm'.symm) hnodup
  refine ⟨ρ, hfix 0 hzero, ?_⟩
  rw [placeRoutes_eq_thread routes _ _ hne, placeHops_eq_thread, threadHops_map, hρ, hfix 0 hzero]

theorem List.lookup_map_injective {α β : Type} [BEq α] [LawfulBEq α] {ρ : α → α}
    (hρ : Function.Injective ρ) (k : α) : ∀ l : List (α × β),
      (l.map fun p => (ρ p.1, p.2)).lookup (ρ k) = l.lookup k
  | [] => rfl
  | (x, b) :: l => by
    have hsame : (ρ k == ρ x) = (k == x) := by
      rw [Bool.eq_iff_iff, beq_iff_eq, beq_iff_eq, hρ.eq_iff]
    rw [List.map_cons, List.lookup_cons, List.lookup_cons, hsame, lookup_map_injective hρ k l]

/-- Bindings that differ only in their numbers: the joins stand in the same order, and every
binding of one has the source of its namesake. -/
structure Bindings.Renamed (ρ : Equiv.Perm Nat) (b b' : Bindings Query) : Prop where
  root : ρ 0 = 0
  joins : b'.joins = b.joins.map (Join.rename ρ)
  sources : ∀ ix, b'.sources[ρ ix]? = b.sources[ix]?

namespace Clauses

/-- A level is bound if its sources are and it preloads nothing. -/
theorem resolve_of_foldlM {c : Clauses Query} {root : FromClause Query} {source : BoundSource}
    {a : Arena Query} (hroot : c.root = some root) (hpreloads : c.preloads = [])
    (hsource : root.source.bind ctx c.queryPrefix root.tablePrefix .fromSource = .ok source)
    (hfold : c.declaredJoins.foldlM (Arena.bindJoin ctx c.queryPrefix)
      ⟨c.joins.length + 1, [(0, source)], [], []⟩ = .ok a) :
    ∃ b, c.resolve ctx = .ok b := by
  obtain ⟨blocks, hblocked⟩ := exists_blocked hfold
  obtain ⟨sources, hsources⟩ :=
    Arena.exists_sources (Arena.sound_of_foldlM hsource hfold) hblocked
  refine ⟨⟨a.joins, sources, a.conditions⟩, ?_⟩
  simp only [resolve, hroot, hpreloads, hsource, hfold, hsources, checkPreloadJoins, bind,
    Except.bind, pure, Except.pure]

/-- The joins of a level that add `placed` to the `from` source, and the sources of its bindings. -/
theorem resolve_adds {c : Clauses Query} {declared : Join Query} {root : FromClause Query}
    {source : BoundSource} {placed : List (Nat × Nat × Hop)} {a : Arena Query} {b : Bindings Query}
    (hroot : c.root = some root)
    (hsource : root.source.bind ctx c.queryPrefix root.tablePrefix .fromSource = .ok source)
    (hfold : c.declaredJoins.foldlM (Arena.bindJoin ctx c.queryPrefix)
      ⟨c.joins.length + 1, [(0, source)], [], []⟩ = .ok a)
    (hadds : Arena.Adds ctx c.queryPrefix declared placed
      ⟨c.joins.length + 1, [(0, source)], [], []⟩ a)
    (h : c.resolve ctx = .ok b) :
    b.joins = placed.map (fun p => p.2.2.join ctx c.queryPrefix declared p.1 p.2.1) ∧
      (0 :: placed.map (·.2.1)).Nodup ∧
      (placed.map (·.2.1)).Perm (List.range' 1 placed.length) ∧
      ∀ ix, b.sources[ix]? = ((0, source) :: placed.map fun p =>
        (p.2.1, p.2.2.bound ctx c.queryPrefix declared.tablePrefix)).lookup ix := by
  obtain ⟨root', source', a', hroot', hsource', hfold', -, hsources, hjoins, -⟩ := resolve_cases h
  obtain rfl : root = root' := Option.some.inj (hroot.symm.trans hroot')
  obtain rfl : source = source' := Except.ok.inj (hsource.symm.trans hsource')
  obtain rfl : a = a' := Except.ok.inj (hfold.symm.trans hfold')
  have hsound := Arena.sound_of_foldlM hsource hfold
  have hb : b.joins = placed.map fun p => p.2.2.join ctx c.queryPrefix declared p.1 p.2.1 :=
    hjoins.trans hadds.joins
  have hbound : a.bound = (0, source) :: placed.map fun p =>
      (p.2.1, p.2.2.bound ctx c.queryPrefix declared.tablePrefix) := hadds.bound
  refine ⟨hb, ?_, ?_, fun ix => ?_⟩
  · simpa [hbound, Function.comp_def] using hsound.nodup
  · obtain ⟨hlength, hperm, -⟩ := resolve_blocks h
    have hcount : b.sources.length - 1 = placed.length := by rw [hlength, hb]; simp
    have hix : b.joins.map Join.ix = (placed.map (·.2.1)).map some := by
      rw [hb, List.map_map, List.map_map]
      rfl
    rw [hcount, hix] at hperm
    simpa using hperm.filterMap id
  · rw [Arena.getElem?_sources_eq_lookup hsound hsources, hbound]

/-- A single join from binding 0 that is bound goes along the route of its association. -/
theorem resolve_single {c : Clauses Query} {table schemaName : String} {fromPrefix : Option String}
    {declared : Join Query} {ref : AssociationRef} {owner : Schema} {a : Association}
    {b : Bindings Query} (hroot : c.root = some ⟨.schema table schemaName, fromPrefix⟩)
    (hjoins : c.joins = [declared]) (href : declared.association = some ref)
    (hparent : ref.parent = 0) (howner : ctx.registry.lookup? schemaName = some owner)
    (ha : owner.association? ref.name = some a) (h : c.resolve ctx = .ok b) :
    ∃ source hops arena, source.schema? = some schemaName ∧
      (Source.schema table schemaName : Source Query).bind ctx c.queryPrefix fromPrefix .fromSource =
        .ok source ∧
      ctx.registry.route owner a = .ok hops ∧
      c.declaredJoins.foldlM (Arena.bindJoin ctx c.queryPrefix)
        ⟨c.joins.length + 1, [(0, source)], [], []⟩ = .ok arena ∧
      Arena.Adds ctx c.queryPrefix declared (placeHops 0 2 1 hops)
        ⟨c.joins.length + 1, [(0, source)], [], []⟩ arena := by
  obtain ⟨root, source, arena, hroot', hsource, hfold, -, -, -, -⟩ := resolve_cases h
  obtain rfl := Option.some.inj (hroot.symm.trans hroot')
  have hname : source.schema? = some schemaName := by
    obtain ⟨tablePrefix, rfl⟩ := Source.boundAs_bind hsource
    rfl
  have hstep : Arena.bindJoin ctx c.queryPrefix ⟨c.joins.length + 1, [(0, source)], [], []⟩
      (1, declared) = .ok arena := by
    simpa [declaredJoins, hjoins] using hfold
  refine ⟨source, ?_⟩
  rcases Arena.bindJoin_cases hstep with
    ⟨-, -, hown, -⟩ | ⟨ref', owner', a', hops, href', -, howner', ha', hops', rfl⟩
  · rw [href] at hown
    cases hown
  obtain rfl : ref = ref' := Option.some.inj (href.symm.trans href')
  obtain ⟨source', schemaName', hlookup, hname', howner''⟩ := Arena.schemaAt_cases howner'
  rw [hparent] at hlookup
  obtain rfl : source = source' := Option.some.inj hlookup
  obtain rfl : schemaName = schemaName' := Option.some.inj (hname.symm.trans hname')
  obtain rfl : owner = owner' := Option.some.inj (howner.symm.trans howner'')
  obtain rfl : a = a' := Option.some.inj (ha.symm.trans ha')
  refine ⟨hops, _, hname, hsource, hops', hfold, ?_⟩
  rw [hparent, hjoins]
  exact ⟨rfl, rfl⟩

/-- **A chain is the associations that it stands for.**  Take a query from a schema that has the
association `a`, and only joins it from there.  If the join is bound, then `a` stands for some
associations, none of which is a chain.  The query that joins these one by one, each from the
binding before, is bound as well.  Its joins and its sources are those of the first query in the
same order, up to one renaming of the bindings. -/
theorem resolve_inSteps {c : Clauses Query} {table schemaName name : String}
    {fromPrefix joinPrefix : Option String} {qualifier : JoinQualifier} {owner : Schema}
    {a : Association} {b : Bindings Query}
    (hroot : c.root = some ⟨.schema table schemaName, fromPrefix⟩) (hpreloads : c.preloads = [])
    (howner : ctx.registry.lookup? schemaName = some owner)
    (ha : owner.association? name = some a)
    (h : resolve ctx { c with joins := [.alongUnder qualifier joinPrefix 0 name] } = .ok b) :
    (∃ steps target, ctx.registry.Unfolds owner a steps target) ∧
    ∀ steps target, ctx.registry.Unfolds owner a steps target →
      (∀ step ∈ steps, ∀ chain, step.kind ≠ .through chain) ∧
      ∃ b' ρ, resolve ctx { c with joins := Join.inSteps qualifier joinPrefix 0 steps } = .ok b' ∧
        b.Renamed ρ b' := by
  let declared := Join.alongUnder qualifier joinPrefix 0 name
  obtain ⟨source, hops, arena, hname, hsource, hroute, hfold, hadds⟩ :=
    resolve_single (c := { c with joins := [declared] }) hroot rfl rfl rfl howner ha h
  refine ⟨?_, fun steps target hunfolds => ?_⟩
  · obtain ⟨steps, target, hunfolds, -⟩ := Registry.route_unfolds hroute
    exact ⟨steps, target, hunfolds⟩
  obtain ⟨routes, hwalks, rfl⟩ := hunfolds.walks (Schema.association?_name ha) hroute
  let c' : Clauses Query := { c with joins := Join.inSteps qualifier joinPrefix 0 steps }
  have hlength : c'.joins.length = steps.length := by simp [c', Join.inSteps]
  have hregistered := Registry.name_of_lookup? howner
  obtain ⟨arena', hfold', hadds'⟩ := Arena.foldlM_inSteps c.queryPrefix declared
    hwalks (Arena.sound_start hsource steps.length) (Nat.zero_add _) (List.mem_singleton_self _)
    (hname.trans (congrArg some hregistered.symm))
    (hregistered.symm ▸ howner)
  rw [← hlength] at hfold' hadds'
  obtain ⟨b', hb'⟩ := resolve_of_foldlM (c := c') hroot hpreloads hsource hfold'
  obtain ⟨hjoins, hnodup, hperm, hsources⟩ :=
    resolve_adds (c := { c with joins := [declared] }) hroot hsource hfold hadds h
  obtain ⟨hjoins', -, hperm', hsources'⟩ :=
    resolve_adds (c := c') hroot hsource hfold' hadds' hb'
  refine ⟨hwalks.kind, b', ?_⟩
  obtain ⟨ρ, hzero, hplaced⟩ := exists_renaming hwalks.ne_nil hnodup hperm hperm'
  refine ⟨ρ, hb', hzero, ?_, fun ix => ?_⟩
  · rw [hjoins', hjoins, hplaced, List.map_map, List.map_map]
    refine List.map_congr_left fun p _ => ?_
    exact (p.2.2.rename_join ctx c.queryPrefix declared p.1 p.2.1).symm
  · rw [hsources', hsources, hplaced, List.map_map]
    refine Eq.trans ?_ (List.lookup_map_injective ρ.injective ix _)
    rw [List.map_cons, List.map_map, hzero]
    rfl

end Clauses

/-- The owners of the labels of posts are reached by the labels and then their owner. -/
theorem Registry.unfolds_labelOwners :
    ∃ owner a steps target, labelled.lookup? "Post" = some owner ∧
      owner.association? "label_owners" = some a ∧ labelled.Unfolds owner a steps target ∧
      steps.map (·.name) = ["labels", "owner"] := by
  have hlabels : labelled.target (.schema "Label") = .ok ⟨"labels", labelled.lookup? "Label"⟩ := by
    rfl
  have hauthors : labelled.target (.schema "Author") =
      .ok ⟨"authors", labelled.lookup? "Author"⟩ := by rfl
  refine ⟨_, _, _, _, rfl, rfl, .chain rfl (.next rfl (.single (fun _ h => nomatch h) hlabels) rfl
    (.last rfl (.single (fun _ h => nomatch h) hauthors))), rfl⟩

/-- Joined one by one, the labels and their owner take the bindings 1 and 2, of which the chain gives
one to the owners and the other to the table in between. -/
theorem Clauses.resolve_inSteps_owners :
    ∃ b b' : Bindings Query, ∃ ρ : Equiv.Perm Nat,
      resolve (.reading .labelled) { (Query.ofSchema "posts" "Post").clauses with
        joins := [.alongUnder .left none 0 "label_owners"] } = .ok b ∧
      resolve (.reading .labelled) { (Query.ofSchema "posts" "Post").clauses with
        joins := [.alongUnder .left none 0 "labels", .alongUnder .left none 1 "owner"] } = .ok b' ∧
      b.joins.map Join.ix = [some 2, some 3, some 1] ∧ b.Renamed ρ b' := by
  have hix : (resolve (.reading .labelled) { (Query.ofSchema "posts" "Post").clauses with
      joins := [.alongUnder .left none 0 "label_owners"] }).toOption.map (·.joins.map Join.ix) =
        some [some 2, some 3, some 1] := by
    decide +kernel
  obtain ⟨b, hb, hjoins⟩ := Option.map_eq_some_iff.mp hix
  have hok := Except.toOption_eq_some_iff.mp hb
  obtain ⟨owner, a, steps, target, howner, ha, hunfolds, hnames⟩ := Registry.unfolds_labelOwners
  obtain ⟨-, b', ρ, hb', hrenamed⟩ :=
    (resolve_inSteps rfl rfl howner ha hok).2 steps target hunfolds
  have hsteps : Join.inSteps .left none 0 steps =
      [.alongUnder .left none 0 "labels", .alongUnder .left none 1 "owner"] := by
    have hmap := congrArg (fun names : List String => names.zipIdx.map fun (name, ix) =>
      Join.alongUnder .left none ix name) hnames
    simpa [Join.inSteps, List.zipIdx_map, Function.comp_def] using hmap
  exact ⟨b, b', ρ, hok, hsteps ▸ hb', hjoins, hrenamed⟩

end QueryPlanner
