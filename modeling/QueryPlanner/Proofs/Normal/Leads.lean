import QueryPlanner.Normal.Preloads
import QueryPlanner.Proofs.Plan.Unfolding

/-!
# Where an association leads

A preload asks only which schema an association leads to.  A chain leads where the last of its
associations leads, each of them starting from the schema that the one before it leads to.  Chains
may name chains, so what is said here counts how deep they are nested; the search for the schema
gives up at a certain depth, and up to that depth it finds exactly this.

* `Registry.Leads`, `Registry.LeadsAlong` — where an association leads, and where a path of them does
* `Context.preloadTarget_eq_ok_iff` — the schema of a preload is the one that its association leads
  to
-/

namespace QueryPlanner

namespace Registry

mutual

/-- The association `name` of `owner` leads to the schema `reached`, or to a table without schema.
No more than `depth` associations are nested in one another on the way, this one included. -/
inductive Leads (r : Registry) :
    (depth : Nat) → (owner : Schema) → (name : String) → (reached : Option Schema) → Prop
  | direct {depth owner name a target} (found : owner.association? name = some a)
      (kind : ∀ chain, a.kind ≠ .through chain) (related : r.target a.related = .ok target) :
      Leads r (depth + 1) owner name target.schema
  | chain {depth owner name a names reached} (found : owner.association? name = some a)
      (kind : a.kind = .through names) (along : LeadsAlong r depth (some owner) names reached) :
      Leads r (depth + 1) owner name reached

/-- From `start` on, the associations of the given names lead to `reached`, one after the other. -/
inductive LeadsAlong (r : Registry) :
    (depth : Nat) → (start : Option Schema) → List String → (reached : Option Schema) → Prop
  | stay {depth current} : LeadsAlong r depth current [] current
  | step {depth owner hop next hops reached} (leads : Leads r depth owner hop next)
      (along : LeadsAlong r depth next hops reached) :
      LeadsAlong r depth (some owner) (hop :: hops) reached

end

variable {r : Registry} {depth : Nat} {owner : Schema} {name : String} {a : Association}
  {reached : Option Schema}

theorem Leads.depth_ne_zero (h : r.Leads depth owner name reached) : depth ≠ 0 := by
  cases h <;> exact Nat.succ_ne_zero _

theorem Leads.exists_found (h : r.Leads depth owner name reached) :
    ∃ a, owner.association? name = some a := by
  cases h with
  | direct found | chain found => exact ⟨_, found⟩

@[simp] theorem leadsAlong_nil {start : Option Schema} :
    r.LeadsAlong depth start [] reached ↔ reached = start := by
  refine ⟨fun h => ?_, fun h => h ▸ .stay⟩
  cases h
  rfl

@[simp] theorem leadsAlong_none {names : List String} :
    ¬ r.LeadsAlong depth none (name :: names) reached := by
  rintro (_ | _)

@[simp] theorem leadsAlong_cons {names : List String} :
    r.LeadsAlong depth (some owner) (name :: names) reached ↔
      ∃ next, r.Leads depth owner name next ∧ r.LeadsAlong depth next names reached := by
  refine ⟨fun h => ?_, fun ⟨_, leads, along⟩ => .step leads along⟩
  cases h with
  | step leads along => exact ⟨_, leads, along⟩

/-- An association that is no chain leads to its own target. -/
theorem leads_iff_of_single (found : owner.association? name = some a)
    (kind : ∀ chain, a.kind ≠ .through chain) :
    r.Leads (depth + 1) owner name reached ↔
      ∃ target, r.target a.related = .ok target ∧ target.schema = reached := by
  constructor
  · rintro (⟨found', -, related⟩ | ⟨found', kind', -⟩)
    · obtain rfl := Option.some.inj (found.symm.trans found')
      exact ⟨_, related, rfl⟩
    · obtain rfl := Option.some.inj (found.symm.trans found')
      exact absurd kind' (kind _)
  · rintro ⟨target, related, rfl⟩
    exact .direct found kind related

/-- A chain leads where its associations lead. -/
theorem leads_iff_of_chain {names : List String} (found : owner.association? name = some a)
    (kind : a.kind = .through names) :
    r.Leads (depth + 1) owner name reached ↔ r.LeadsAlong depth (some owner) names reached := by
  refine ⟨?_, .chain found kind⟩
  rintro (⟨found', kind', -⟩ | ⟨found', kind', along⟩)
  · obtain rfl := Option.some.inj (found.symm.trans found')
    exact absurd kind (kind' _)
  · obtain rfl := Option.some.inj (found.symm.trans found')
    obtain rfl := AssociationKind.through.inj (kind.symm.trans kind')
    exact along

mutual

/-- What is reached within some depth is reached within a greater one. -/
theorem Leads.mono : ∀ {depth depth' : Nat} {owner : Schema} {name : String}
    {reached : Option Schema}, r.Leads depth owner name reached → depth ≤ depth' →
      r.Leads depth' owner name reached
  | _ + 1, _ + 1, _, _, _, .direct found kind related, _ => .direct found kind related
  | _ + 1, _ + 1, _, _, _, .chain found kind along, hle =>
    .chain found kind (along.mono (Nat.le_of_succ_le_succ hle))
  termination_by structural _ _ _ _ _ leads => leads

theorem LeadsAlong.mono : ∀ {depth depth' : Nat} {start : Option Schema} {names : List String}
    {reached : Option Schema}, r.LeadsAlong depth start names reached → depth ≤ depth' →
      r.LeadsAlong depth' start names reached
  | _, _, _, _, _, .stay, _ => .stay
  | _, _, _, _, _, .step leads along, hle => .step (leads.mono hle) (along.mono hle)
  termination_by structural _ _ _ _ _ along => along

end

mutual

/-- What an association of a registered schema leads to is registered. -/
theorem Leads.registered : ∀ {depth : Nat} {owner : Schema} {name : String}
    {reached : Option Schema}, r.Leads depth owner name reached →
      r.lookup? owner.name = some owner → ∀ s ∈ reached, r.lookup? s.name = some s
  | _, _, _, _, .direct _ _ related, _ => fun _ hs => registered_target related hs
  | _, _, _, _, .chain _ _ along, howner =>
    along.registered fun _ hs => Option.some.inj hs ▸ howner
  termination_by structural _ _ _ _ leads => leads

theorem LeadsAlong.registered : ∀ {depth : Nat} {start : Option Schema} {names : List String}
    {reached : Option Schema}, r.LeadsAlong depth start names reached →
      (∀ s ∈ start, r.lookup? s.name = some s) → ∀ s ∈ reached, r.lookup? s.name = some s
  | _, _, _, _, .stay, hstart => hstart
  | _, _, _, _, .step leads along, hstart => along.registered (leads.registered (hstart _ rfl))
  termination_by structural _ _ _ _ along => along

end

end Registry

/-! ### The search for the schema -/

/-- A chain is followed to where its associations lead, if each of them is. -/
theorem followChain_eq_ok_iff {r : Registry} (site : Site) {depth : Nat}
    {follow : Schema → String → Except PlanError (Option Schema)}
    (hfollow : ∀ owner hop next, follow owner hop = .ok next ↔ r.Leads depth owner hop next)
    (reached : Option Schema) : ∀ (hops : List String) (current : Option Schema),
      followChain site follow current hops = .ok reached ↔ r.LeadsAlong depth current hops reached
  | [], current => by simp [followChain, eq_comm]
  | hop :: hops, none => by simp [followChain]
  | hop :: hops, some owner => by
    have ih := fun next => followChain_eq_ok_iff site hfollow reached hops next
    simp only [followChain, Registry.leadsAlong_cons, ← hfollow, ← ih]
    cases follow owner hop <;> simp [bind, Except.bind]

namespace Context

variable {ctx : Context} {site : Site} {owner : Schema} {name : String} {reached : Option Schema}

/-- **The search for the schema of an association** finds within some depth what the association
leads to within that depth. -/
theorem targetWithin_eq_ok_iff {depth : Nat} :
    ctx.targetWithin site depth owner name = .ok reached ↔
      ctx.registry.Leads depth owner name reached := by
  induction depth generalizing owner name reached with
  | zero =>
    simp only [targetWithin, reduceCtorEq, false_iff]
    exact fun h => h.depth_ne_zero rfl
  | succ depth ih =>
    cases hfound : owner.association? name with
    | none =>
      simp only [targetWithin, hfound, reduceCtorEq, false_iff]
      rintro (⟨found, -, -⟩ | ⟨found, -, -⟩) <;> simp [hfound] at found
    | some a =>
      cases hkind : a.kind with
      | through names =>
        rw [Registry.leads_iff_of_chain hfound hkind, ← followChain_eq_ok_iff site fun _ _ _ => ih]
        simp only [targetWithin, hfound, hkind]
      | manyToMany | belongsTo | hasMany | hasOne =>
        rw [Registry.leads_iff_of_single hfound (by simp [hkind])]
        simp only [targetWithin, hfound, hkind]
        cases a.related with
        | table name => simp [Registry.target]
        | schema name =>
          cases hlookup : ctx.registry.lookup? name <;>
            simp [Registry.target, Context.schema, hlookup, Functor.map, Except.map]

/-- The schema of a preload is the one that its association leads to, unless chains are nested too
deep for the search. -/
theorem preloadTarget_eq_ok_iff :
    ctx.preloadTarget site owner name = .ok reached ↔
      ctx.registry.Leads (maxChainDepth + 1) owner name reached :=
  targetWithin_eq_ok_iff

variable (ctx) in
/-- An association leads to one schema only. -/
theorem leads_unique {depth depth' : Nat} {reached' : Option Schema}
    (h : ctx.registry.Leads depth owner name reached)
    (h' : ctx.registry.Leads depth' owner name reached') : reached = reached' := by
  have hmax : ctx.targetWithin ⟨.preload, name⟩ (max depth depth') owner name = .ok reached :=
    targetWithin_eq_ok_iff.mpr (h.mono (Nat.le_max_left depth depth'))
  have hmax' : ctx.targetWithin ⟨.preload, name⟩ (max depth depth') owner name = .ok reached' :=
    targetWithin_eq_ok_iff.mpr (h'.mono (Nat.le_max_right depth depth'))
  exact Except.ok.inj (hmax.symm.trans hmax')

end Context

end QueryPlanner
