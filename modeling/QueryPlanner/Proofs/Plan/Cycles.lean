import Mathlib.Logic.Relation
import QueryPlanner.Proofs.Normal.JoinTargets
import QueryPlanner.Proofs.Plan.Prefixes

/-!
# Cyclic associations

Chains may name chains, in a circle too.  Unfolding an association remembers the associations that
are being unfolded around it and gives up where it meets one of them again.  What is said here does
without a depth: an unfolding is a finite tree, and where it stands is the path from its root.

* `Registry.Expands` — how the unfolding of an association ends
* `Registry.Arrives` — the associations that an unfolding comes to, and those around each of them
* `Registry.Closes` — the unfolding meets an association again inside itself
* `Registry.expands_iff` — every unfolding of a registered association ends, with its route
* `Registry.expands_forgetful_iff` — without remembering anything it ends exactly if it never closes
* `Clauses.resolve_cyclic` — the associations that a level reports as cyclic
-/

namespace QueryPlanner

variable {σ : Type} {r : Registry}

/-- The same fault, `before` hops later. -/
def RouteFault.after (before : Nat) : RouteFault → RouteFault
  | noSchema hops => noSchema (before + hops)
  | fault => fault

@[simp] theorem RouteFault.after_zero (fault : RouteFault) : fault.after 0 = fault := by
  cases fault <;> simp [after]

@[simp] theorem RouteFault.after_after (fault : RouteFault) (m n : Nat) :
    (fault.after m).after n = fault.after (n + m) := by
  cases fault <;> simp [after, Nat.add_assoc]

theorem RouteFault.after_eq_cyclic {fault : RouteFault} {n : Nat} {name schema : String} :
    fault.after n = .cyclic name schema ↔ fault = .cyclic name schema := by
  cases fault <;> simp [after]

namespace Registry

/-! ### Unfolding without a depth -/

mutual

/-- The unfolding of the association `a` of `owner` ends with `outcome`.  It gives up at an
association in `opened`.  If it is to `remember`, it adds every chain to these while it goes along
it. -/
inductive Expands (r : Registry) (remember : Bool) :
    (opened : List (String × String)) → (owner : Schema) → (a : Association) →
      (outcome : Except RouteFault (List Hop)) → Prop
  | again {opened owner a} (met : (owner.name, a.name) ∈ opened) :
    Expands r remember opened owner a (.error (.cyclic a.name owner.name))
  | empty {opened owner a} (fresh : (owner.name, a.name) ∉ opened) (kind : a.kind = .through []) :
    Expands r remember opened owner a (.error (.emptyChain a.name))
  | chain {opened owner a names outcome} (fresh : (owner.name, a.name) ∉ opened)
      (kind : a.kind = .through names) (nonempty : names ≠ [])
      (along : ExpandsAlong r remember
        (if remember then (owner.name, a.name) :: opened else opened) a.name owner names outcome) :
    Expands r remember opened owner a outcome
  | manyToMany {opened owner a joinThrough ownerKey relatedKey filters}
      (fresh : (owner.name, a.name) ∉ opened)
      (kind : a.kind = .manyToMany joinThrough ownerKey relatedKey filters) :
    Expands r remember opened owner a (r.joinThroughHops a joinThrough ownerKey relatedKey filters)
  | direct {opened owner a} (fresh : (owner.name, a.name) ∉ opened)
      (kind : a.kind = .belongsTo ∨ a.kind = .hasMany ∨ a.kind = .hasOne) :
    Expands r remember opened owner a (r.directHop a)

/-- Going along the associations of the given names in turn, from `owner` on, ends with
`outcome`. -/
inductive ExpandsAlong (r : Registry) (remember : Bool) :
    (opened : List (String × String)) → (through : String) → (owner : Schema) → List String →
      (outcome : Except RouteFault (List Hop)) → Prop
  | missing {opened through owner name names} (missing : owner.association? name = none) :
    ExpandsAlong r remember opened through owner (name :: names)
      (.error (.hopMissing owner.name name through))
  | fails {opened through owner name names a fault} (found : owner.association? name = some a)
      (expands : Expands r remember opened owner a (.error fault)) :
    ExpandsAlong r remember opened through owner (name :: names) (.error fault)
  | last {opened through owner name a hops} (found : owner.association? name = some a)
      (expands : Expands r remember opened owner a (.ok hops)) :
    ExpandsAlong r remember opened through owner [name] (.ok hops)
  | stuck {opened through owner name names a hops} (found : owner.association? name = some a)
      (expands : Expands r remember opened owner a (.ok hops)) (nonempty : names ≠ [])
      (ends : hops.getLast?.bind (·.target.schema) = none) :
    ExpandsAlong r remember opened through owner (name :: names) (.error (.noSchema hops.length))
  | next {opened through owner name names a hops schema outcome}
      (found : owner.association? name = some a)
      (expands : Expands r remember opened owner a (.ok hops)) (nonempty : names ≠ [])
      (goesOn : hops.getLast?.bind (·.target.schema) = some schema)
      (along : ExpandsAlong r remember opened through schema names outcome) :
    ExpandsAlong r remember opened through owner (name :: names)
      ((outcome.mapError (·.after hops.length)).map (hops ++ ·))

end

/-- The associations of the given names unfold in turn, from `owner` on, and lead to `next`. -/
inductive Passes (r : Registry) (remember : Bool) (opened : List (String × String)) :
    (owner : Schema) → List String → (next : Schema) → Prop
  | stay {owner} : Passes r remember opened owner [] owner
  | step {owner name names a hops schema next} (found : owner.association? name = some a)
      (expands : r.Expands remember opened owner a (.ok hops))
      (goesOn : hops.getLast?.bind (·.target.schema) = some schema)
      (passes : Passes r remember opened schema names next) :
    Passes r remember opened owner (name :: names) next

/-- The unfolding of the association `first` of `start` comes to the association `a` of `owner`.
Around it the associations in `opened` are being unfolded, the innermost one first. -/
inductive Arrives (r : Registry) (start : Schema) (first : Association) :
    (opened : List (String × String)) → (owner : Schema) → (a : Association) → Prop
  | start : Arrives r start first [] start first
  | enter {opened owner a before hop after next b} (arrives : Arrives r start first opened owner a)
      (fresh : (owner.name, a.name) ∉ opened) (kind : a.kind = .through (before ++ hop :: after))
      (passes : r.Passes true ((owner.name, a.name) :: opened) owner before next)
      (found : next.association? hop = some b) :
    Arrives r start first ((owner.name, a.name) :: opened) next b

/-- The unfolding of the association `first` of `start` comes to the association `name` of `schema`
while that is being unfolded around it. -/
def Closes (r : Registry) (start : Schema) (first : Association) (schema name : String) : Prop :=
  ∃ opened owner a, r.Arrives start first opened owner a ∧ (schema, name) ∈ opened ∧
    owner.name = schema ∧ a.name = name

variable {remember : Bool} {opened : List (String × String)} {through : String}
  {owner start : Schema} {a first : Association} {names : List String}
  {outcome outcome' : Except RouteFault (List Hop)}

mutual

/-- An unfolding ends in one way only. -/
theorem Expands.unique : ∀ {opened : List (String × String)} {owner : Schema} {a : Association}
    {outcome outcome' : Except RouteFault (List Hop)}, r.Expands remember opened owner a outcome →
      r.Expands remember opened owner a outcome' → outcome = outcome'
  | _, _, _, _, _, .again met, h => by
    cases h with
    | again => rfl
    | empty fresh | chain fresh | manyToMany fresh | direct fresh => exact absurd met fresh
  | _, _, _, _, _, .empty fresh kind, h => by
    cases h with
    | again met => exact absurd met fresh
    | empty => rfl
    | chain _ kind' nonempty => simp_all
    | manyToMany _ kind' | direct _ kind' => simp [kind] at kind'
  | _, _, _, _, _, .chain fresh kind nonempty along, h => by
    cases h with
    | again met => exact absurd met fresh
    | empty _ kind' => simp_all
    | chain _ kind' _ along' =>
      obtain rfl := AssociationKind.through.inj (kind.symm.trans kind')
      exact along.unique along'
    | manyToMany _ kind' | direct _ kind' => simp [kind] at kind'
  | _, _, _, _, _, .manyToMany fresh kind, h => by
    cases h with
    | again met => exact absurd met fresh
    | empty _ kind' | chain _ kind' | direct _ kind' => simp [kind] at kind'
    | manyToMany _ kind' =>
      obtain ⟨rfl, rfl, rfl, rfl⟩ := AssociationKind.manyToMany.inj (kind.symm.trans kind')
      rfl
  | _, _, _, _, _, .direct fresh kind, h => by
    cases h with
    | again met => exact absurd met fresh
    | empty _ kind' | chain _ kind' | manyToMany _ kind' => simp [kind'] at kind
    | direct => rfl
  termination_by structural _ _ _ _ _ expands => expands

theorem ExpandsAlong.unique : ∀ {opened : List (String × String)} {through : String}
    {owner : Schema} {names : List String} {outcome outcome' : Except RouteFault (List Hop)},
      r.ExpandsAlong remember opened through owner names outcome →
        r.ExpandsAlong remember opened through owner names outcome' → outcome = outcome'
  | _, _, _, _, _, _, .missing missing, h => by
    cases h with
    | missing => rfl
    | fails found | last found | stuck found | next found => simp [missing] at found
  | _, _, _, _, _, _, .fails found expands, h => by
    cases h with
    | missing missing => simp [missing] at found
    | fails found' expands' =>
      obtain rfl := Option.some.inj (found.symm.trans found')
      exact expands.unique expands'
    | last found' expands' | stuck found' expands' | next found' expands' =>
      obtain rfl := Option.some.inj (found.symm.trans found')
      cases expands.unique expands'
  | _, _, _, _, _, _, .last found expands, h => by
    cases h with
    | missing missing => simp [missing] at found
    | fails found' expands' | last found' expands' =>
      obtain rfl := Option.some.inj (found.symm.trans found')
      exact expands.unique expands'
    | stuck _ _ nonempty | next _ _ nonempty => exact absurd rfl nonempty
  | _, _, _, _, _, _, .stuck found expands nonempty ends, h => by
    cases h with
    | missing missing => simp [missing] at found
    | fails found' expands' =>
      obtain rfl := Option.some.inj (found.symm.trans found')
      cases expands.unique expands'
    | last => exact absurd rfl nonempty
    | stuck found' expands' =>
      obtain rfl := Option.some.inj (found.symm.trans found')
      cases expands.unique expands'
      rfl
    | next found' expands' _ goesOn =>
      obtain rfl := Option.some.inj (found.symm.trans found')
      cases expands.unique expands'
      simp [ends] at goesOn
  | _, _, _, _, _, _, .next found expands nonempty goesOn along, h => by
    cases h with
    | missing missing => simp [missing] at found
    | fails found' expands' =>
      obtain rfl := Option.some.inj (found.symm.trans found')
      cases expands.unique expands'
    | last => exact absurd rfl nonempty
    | stuck found' expands' _ ends =>
      obtain rfl := Option.some.inj (found.symm.trans found')
      cases expands.unique expands'
      simp [ends] at goesOn
    | next found' expands' _ goesOn' along' =>
      obtain rfl := Option.some.inj (found.symm.trans found')
      cases expands.unique expands'
      obtain rfl := Option.some.inj (goesOn.symm.trans goesOn')
      rw [along.unique along']
  termination_by structural _ _ _ _ _ _ along => along

end

/-! ### What is made out to a depth -/

/-- A target is missing only if its schema is. -/
theorem target_cases (r : Registry) (related : Related) :
    (∃ target, r.target related = .ok target) ∨
      ∃ schema, r.target related = .error (.schemaMissing schema) := by
  cases related with
  | table name => exact .inl ⟨_, rfl⟩
  | schema name =>
    simp only [target]
    cases r.lookup? name with
    | none => exact .inr ⟨_, rfl⟩
    | some schema => exact .inl ⟨_, rfl⟩

theorem directHop_cases (r : Registry) (a : Association) :
    (∃ hops, r.directHop a = .ok hops) ∨
      ∃ schema, r.directHop a = .error (.schemaMissing schema) := by
  rcases r.target_cases a.related with ⟨target, h⟩ | ⟨schema, h⟩ <;>
    simp [directHop, h, bind, Except.bind]

theorem joinThroughHops_cases (r : Registry) (a : Association) (joinThrough : Related)
    (ownerKey relatedKey : String) (filters : List AssociationFilter) :
    (∃ hops, r.joinThroughHops a joinThrough ownerKey relatedKey filters = .ok hops) ∨
      ∃ schema, r.joinThroughHops a joinThrough ownerKey relatedKey filters =
        .error (.schemaMissing schema) := by
  rcases r.target_cases joinThrough with ⟨through, h⟩ | ⟨schema, h⟩ <;>
    rcases r.target_cases a.related with ⟨target, h'⟩ | ⟨schema', h'⟩ <;>
      simp [joinThroughHops, h, h', bind, Except.bind]

/-- A fault counts the hops that are made before it. -/
theorem chainHops_after {unfold : Nat → Schema → Association → Except RouteFault (List Hop)}
    (hunfold : ∀ count owner a, unfold count owner a = (unfold 0 owner a).mapError (·.after count))
    (through : String) : ∀ (names : List String) (count : Nat) (owner : Schema),
      chainHops unfold through count owner names =
        (chainHops unfold through 0 owner names).mapError (·.after count)
  | [], _, _ => rfl
  | name :: names, count, owner => by
    rw [chainHops, chainHops]
    cases owner.association? name with
    | none => rfl
    | some a =>
      simp only [hunfold count, bind, Except.bind]
      cases unfold 0 owner a with
      | error fault => rfl
      | ok first =>
        simp only [Except.mapError, Nat.zero_add]
        by_cases hlast : names.isEmpty
        · simp only [hlast, if_true]
        simp only [hlast, if_false, Bool.false_eq_true]
        cases first.getLast?.bind (·.target.schema) with
        | none => rfl
        | some next =>
          simp only [chainHops_after hunfold through names (count + first.length),
            chainHops_after hunfold through names first.length]
          cases chainHops unfold through 0 next names <;> simp [Except.mapError]

theorem unfold_after : ∀ (depth : Nat) (opened : List (String × String)) (count : Nat)
    (owner : Schema) (a : Association),
      r.unfold depth opened count owner a =
        (r.unfold depth opened 0 owner a).mapError (·.after count)
  | 0, _, _, _, _ => rfl
  | depth + 1, opened, count, owner, a => by
    rw [unfold, unfold]
    split
    · rfl
    cases hkind : a.kind with
    | through names =>
      cases names with
      | nil => rfl
      | cons name names => exact chainHops_after (unfold_after depth _) _ _ _ _
    | manyToMany joinThrough ownerKey relatedKey filters =>
      rcases r.joinThroughHops_cases a joinThrough ownerKey relatedKey filters with
        ⟨hops, h⟩ | ⟨schema, h⟩ <;> simp only [h] <;> rfl
    | belongsTo | hasMany | hasOne =>
      rcases r.directHop_cases a with ⟨hops, h⟩ | ⟨schema, h⟩ <;> simp only [h] <;> rfl

/-- Hops made one after the other are those of the associations of the chain in turn, if `unfold`
makes theirs. -/
theorem expandsAlong_chainHops
    {unfold : Nat → Schema → Association → Except RouteFault (List Hop)}
    (hcount : ∀ count owner a, unfold count owner a = (unfold 0 owner a).mapError (·.after count))
    (hexpands : ∀ owner a, r.lookup? owner.name = some owner → owner.association? a.name = some a →
      r.Expands remember opened owner a (unfold 0 owner a))
    (hreaches : ∀ owner a hops, unfold 0 owner a = .ok hops → ∀ hop ∈ hops, r.Reaches hop) :
    ∀ (names : List String) (owner : Schema), names ≠ [] → r.lookup? owner.name = some owner →
      r.ExpandsAlong remember opened through owner names (chainHops unfold through 0 owner names)
  | [], _, hne, _ => absurd rfl hne
  | name :: names, owner, _, howner => by
    rw [chainHops]
    cases hfound : owner.association? name with
    | none => exact .missing hfound
    | some a =>
      have hfirst := hexpands owner a howner (Schema.association?_name hfound)
      simp only [bind, Except.bind]
      cases hunfold : unfold 0 owner a with
      | error fault => exact .fails hfound (hunfold ▸ hfirst)
      | ok first =>
        rw [hunfold] at hfirst
        cases names with
        | nil => exact .last hfound hfirst
        | cons name' rest =>
          simp only [List.isEmpty_cons, Bool.false_eq_true, if_false, Nat.zero_add]
          cases hschema : first.getLast?.bind (·.target.schema) with
          | none => exact .stuck hfound hfirst (by simp) hschema
          | some next =>
            obtain ⟨last, hlast, hnext⟩ := Option.bind_eq_some_iff.mp hschema
            have hregistered : r.lookup? next.name = some next :=
              hreaches owner a first hunfold last (List.mem_of_getLast? hlast) next hnext
            have halong := ExpandsAlong.next hfound hfirst (List.cons_ne_nil _ _) hschema
              (expandsAlong_chainHops hcount hexpands hreaches (name' :: rest) next
                (List.cons_ne_nil _ _) hregistered)
            simp only [chainHops_after hcount through (name' :: rest) first.length]
            cases hothers : chainHops unfold through 0 next (name' :: rest) <;>
              simpa [hothers, Except.mapError, Except.map] using halong

theorem Opens.cons (h : r.Opens 0 opened) (howner : r.lookup? owner.name = some owner)
    (found : owner.association? a.name = some a) (fresh : (owner.name, a.name) ∉ opened) :
    r.Opens 0 ((owner.name, a.name) :: opened) where
  nodup := List.nodup_cons.mpr ⟨fresh, h.nodup⟩
  declared := List.forall_mem_cons.mpr ⟨⟨owner, a, howner, found⟩, h.declared⟩
  blocked _ _ _ _ _ leads := leads.depth_ne_zero rfl

/-- What is found to a depth is how the unfolding ends: no more associations are entered than the
registry has, so the depth does not run out. -/
theorem expands_unfold : ∀ (depth : Nat) (opened : List (String × String)) (owner : Schema)
    (a : Association), r.Opens 0 opened → r.associationCount < opened.length + depth →
      r.lookup? owner.name = some owner → owner.association? a.name = some a →
        r.Expands true opened owner a (r.unfold depth opened 0 owner a)
  | 0, opened, _, _, hopens, hdepth, _, _ => absurd hopens.length_le (by simpa using hdepth)
  | depth + 1, opened, owner, a, hopens, hdepth, howner, found => by
    rw [unfold]
    by_cases met : (owner.name, a.name) ∈ opened
    · rw [if_pos (by simpa using met)]
      exact .again met
    rw [if_neg (by simpa using met)]
    cases hkind : a.kind with
    | through names =>
      cases names with
      | nil => exact .empty met hkind
      | cons name names =>
        refine .chain met hkind (by simp) (expandsAlong_chainHops (unfold_after depth _)
          (fun owner' b howner' found' => ?_) (fun owner' b => reaches_unfold _ _ 0 owner' b)
          _ _ (by simp) howner)
        refine expands_unfold depth _ owner' b (hopens.cons howner found met) ?_ howner' found'
        simp only [if_true, List.length_cons]
        omega
    | manyToMany => exact .manyToMany met hkind
    | belongsTo | hasMany | hasOne => exact .direct met (by simp [hkind])

/-- **Every unfolding ends**, of whatever chains: that of an association of a registered schema ends
with its route. -/
theorem expands_iff (howner : r.lookup? owner.name = some owner)
    (found : owner.association? a.name = some a) :
    r.Expands true [] owner a outcome ↔ r.route owner a = outcome := by
  have hroute : r.Expands true [] owner a (r.route owner a) :=
    expands_unfold _ _ _ _ ⟨List.nodup_nil, by simp, by simp⟩ (by simp) howner found
  exact ⟨hroute.unique, fun h => h ▸ hroute⟩

/-! ### What is reported as cyclic -/

theorem Passes.concat {name : String} {before : List String} {hops : List Hop}
    {current next : Schema} (h : r.Passes remember opened owner before current)
    (found : current.association? name = some a)
    (expands : r.Expands remember opened current a (.ok hops))
    (goesOn : hops.getLast?.bind (·.target.schema) = some next) :
    r.Passes remember opened owner (before ++ [name]) next := by
  induction h with
  | stay => exact .step found expands goesOn .stay
  | step found' expands' goesOn' _ ih => exact .step found' expands' goesOn' (ih found expands)

/-- If the associations of `before` unfold, a chain is found cyclic where the rest of it is. -/
theorem Passes.expandsAlong {before : List String} {next : Schema} {name schema : String}
    (h : r.Passes remember opened owner before next) (hne : names ≠ [])
    (along : r.ExpandsAlong remember opened through next names (.error (.cyclic name schema))) :
    r.ExpandsAlong remember opened through owner (before ++ names)
      (.error (.cyclic name schema)) := by
  induction h with
  | stay => exact along
  | step found expands goesOn _ ih => exact .next found expands (by simp [hne]) goesOn (ih along)

/-- What an unfolding comes to and finds cyclic makes it cyclic. -/
theorem Arrives.cyclic {name schema : String} (h : r.Arrives start first opened owner a) :
    r.Expands true opened owner a (.error (.cyclic name schema)) →
      r.Expands true [] start first (.error (.cyclic name schema)) := by
  induction h with
  | start => exact id
  | enter _ fresh kind passes found ih =>
    exact fun expands => ih (.chain fresh kind (by simp)
      (passes.expandsAlong (by simp) (.fails found expands)))

mutual

/-- An unfolding that is found cyclic comes to what it is found cyclic at. -/
theorem Expands.closes {name schema : String} : ∀ {opened : List (String × String)}
    {owner : Schema} {a : Association} {outcome : Except RouteFault (List Hop)},
      r.Expands true opened owner a outcome → r.Arrives start first opened owner a →
        outcome = .error (.cyclic name schema) → r.Closes start first schema name
  | _, _, _, _, .again met => fun arrives h => by
    obtain ⟨rfl, rfl⟩ := RouteFault.cyclic.inj (Except.error.inj h)
    exact ⟨_, _, _, arrives, met, rfl, rfl⟩
  | _, _, _, _, .empty _ _ => fun _ h => nomatch h
  | _, _, _, _, .chain fresh kind _ along => fun arrives h =>
    along.closes [] (if_pos rfl) arrives fresh kind .stay h
  | _, _, a, _, @Expands.manyToMany _ _ _ _ _ joinThrough ownerKey relatedKey filters _ _ =>
    fun _ h => by
    rcases r.joinThroughHops_cases a joinThrough ownerKey relatedKey filters with
      ⟨_, hok⟩ | ⟨_, herror⟩ <;> simp_all
  | _, _, a, _, .direct _ _ => fun _ h => by
    rcases r.directHop_cases a with ⟨_, hok⟩ | ⟨_, herror⟩ <;> simp_all
  termination_by structural _ _ _ _ expands => expands

theorem ExpandsAlong.closes {name schema : String} : ∀ {opened : List (String × String)}
    {through : String} {current : Schema} {names : List String}
    {outcome : Except RouteFault (List Hop)},
      r.ExpandsAlong true opened through current names outcome →
      ∀ {around : List (String × String)} {owner : Schema} {a : Association}
        (before : List String), opened = (owner.name, a.name) :: around →
        r.Arrives start first around owner a → (owner.name, a.name) ∉ around →
        a.kind = .through (before ++ names) → r.Passes true opened owner before current →
        outcome = .error (.cyclic name schema) → r.Closes start first schema name
  | _, _, _, _, _, .missing _ => fun _ _ _ _ _ _ h => nomatch h
  | _, _, _, _, _, .fails found expands => fun _ hopened arrives fresh kind passes h =>
    expands.closes (hopened ▸ .enter arrives fresh kind (hopened ▸ passes) found) h
  | _, _, _, _, _, .last _ _ => fun _ _ _ _ _ _ h => nomatch h
  | _, _, _, _, _, .stuck _ _ _ _ => fun _ _ _ _ _ _ h => nomatch h
  | _, _, _, _, _, @ExpandsAlong.next _ _ _ _ _ _ _ _ _ _ others found expands _ goesOn along =>
    fun _ hopened arrives fresh kind passes h => by
    have hothers : others = .error (.cyclic name schema) := by
      cases others with
      | ok => cases h
      | error fault => exact congrArg _ (RouteFault.after_eq_cyclic.mp (Except.error.inj h))
    exact along.closes _ hopened arrives fresh (by simpa using kind)
      (passes.concat found expands goesOn) hothers
  termination_by structural _ _ _ _ _ along => along

end

/-- **An unfolding is cyclic exactly if it closes**: it comes to an association that is being
unfolded around it. -/
theorem expands_cyclic_iff {name schema : String} :
    r.Expands true [] owner a (.error (.cyclic name schema)) ↔ r.Closes owner a schema name := by
  refine ⟨fun h => h.closes .start rfl, ?_⟩
  rintro ⟨opened, owner', b, arrives, hmem, rfl, rfl⟩
  exact arrives.cyclic (.again hmem)

/-! ### Unfoldings that remember nothing -/

mutual

/-- What ends without being found cyclic ends in the same way if nothing is remembered. -/
theorem Expands.forget : ∀ {opened : List (String × String)} {owner : Schema} {a : Association}
    {outcome : Except RouteFault (List Hop)}, r.Expands remember opened owner a outcome →
      (∀ name schema, outcome ≠ .error (.cyclic name schema)) → r.Expands false [] owner a outcome
  | _, _, _, _, .again _, hacyclic => absurd rfl (hacyclic _ _)
  | _, _, _, _, .empty _ kind, _ => .empty List.not_mem_nil kind
  | _, _, _, _, .chain _ kind nonempty along, hacyclic =>
    .chain List.not_mem_nil kind nonempty (along.forget hacyclic)
  | _, _, _, _, .manyToMany _ kind, _ => .manyToMany List.not_mem_nil kind
  | _, _, _, _, .direct _ kind, _ => .direct List.not_mem_nil kind
  termination_by structural _ _ _ _ expands => expands

theorem ExpandsAlong.forget : ∀ {opened : List (String × String)} {through : String}
    {owner : Schema} {names : List String} {outcome : Except RouteFault (List Hop)},
      r.ExpandsAlong remember opened through owner names outcome →
      (∀ name schema, outcome ≠ .error (.cyclic name schema)) →
        r.ExpandsAlong false [] through owner names outcome
  | _, _, _, _, _, .missing missing, _ => .missing missing
  | _, _, _, _, _, .fails found expands, hacyclic => .fails found (expands.forget hacyclic)
  | _, _, _, _, _, .last found expands, hacyclic => .last found (expands.forget hacyclic)
  | _, _, _, _, _, .stuck found expands nonempty ends, _ =>
    .stuck found (expands.forget (by simp)) nonempty ends
  | _, _, _, _, _, .next found expands nonempty goesOn along, hacyclic =>
    .next found (expands.forget (by simp)) nonempty goesOn
      (along.forget fun name schema h => hacyclic name schema (by rw [h]; rfl))
  termination_by structural _ _ _ _ _ along => along

end

theorem Passes.forget {next : Schema} (h : r.Passes remember opened owner names next) :
    r.Passes false [] owner names next := by
  induction h with
  | stay => exact .stay
  | step found expands goesOn _ ih => exact .step found (expands.forget (by simp)) goesOn ih

/-- Unfolding the association `outer` of its schema, with nothing remembered, comes to unfolding
`inner` next. -/
def Calls (r : Registry) (inner outer : Schema × Association) : Prop :=
  ∃ before hop after, outer.2.kind = .through (before ++ hop :: after) ∧
    r.Passes false [] outer.1 before inner.1 ∧ inner.1.association? hop = some inner.2

mutual

/-- If an unfolding that remembers nothing ends, then no path of unfoldings goes on for ever. -/
theorem Expands.acc : ∀ {opened : List (String × String)} {owner : Schema} {a : Association}
    {outcome : Except RouteFault (List Hop)}, r.Expands false opened owner a outcome →
      opened = [] → Acc r.Calls (owner, a)
  | _, _, _, _, .again met => fun hopened => absurd (hopened ▸ met) List.not_mem_nil
  | _, _, _, _, .empty _ kind => fun _ =>
    .intro _ fun _ ⟨_, _, _, kind', _⟩ => by simp [kind] at kind'
  | _, _, _, _, .chain _ kind _ along => fun hopened =>
    .intro _ fun _ ⟨_, _, _, kind', passes, found⟩ =>
      along.acc ((if_neg Bool.false_ne_true).trans hopened)
        (AssociationKind.through.inj (kind.symm.trans kind')) passes found
  | _, _, _, _, .manyToMany _ kind => fun _ =>
    .intro _ fun _ ⟨_, _, _, kind', _⟩ => by simp [kind] at kind'
  | _, _, _, _, .direct _ kind => fun _ =>
    .intro _ fun _ ⟨_, _, _, kind', _⟩ => by
      rcases kind with kind | kind | kind <;> simp [kind] at kind'
  termination_by structural _ _ _ _ expands => expands

theorem ExpandsAlong.acc : ∀ {opened : List (String × String)} {through : String}
    {owner : Schema} {names : List String} {outcome : Except RouteFault (List Hop)},
      r.ExpandsAlong false opened through owner names outcome → opened = [] →
      ∀ {before : List String} {hop : String} {after : List String} {next : Schema}
        {b : Association}, names = before ++ hop :: after → r.Passes false [] owner before next →
          next.association? hop = some b → Acc r.Calls (next, b)
  | _, _, _, _, _, .missing missing => fun _ before _ _ _ _ hnames passes found => by
    cases passes with
    | stay => simp_all
    | step found' => simp_all
  | _, _, _, _, _, .fails found expands => fun hopened _ _ _ _ _ hnames passes found' => by
    cases passes with
    | stay =>
      obtain ⟨rfl, -⟩ := List.cons.inj hnames
      obtain rfl := Option.some.inj (found.symm.trans found')
      exact expands.acc hopened
    | step found'' expands' =>
      obtain ⟨rfl, -⟩ := List.cons.inj hnames
      obtain rfl := Option.some.inj (found.symm.trans found'')
      cases expands'.unique (hopened ▸ expands)
  | _, _, _, _, _, .last found expands => fun hopened _ _ _ _ _ hnames passes found' => by
    cases passes with
    | stay =>
      obtain ⟨rfl, -⟩ := List.cons.inj hnames
      obtain rfl := Option.some.inj (found.symm.trans found')
      exact expands.acc hopened
    | step => simp at hnames
  | _, _, _, _, _, .stuck found expands _ ends => fun hopened _ _ _ _ _ hnames passes found' => by
    cases passes with
    | stay =>
      obtain ⟨rfl, -⟩ := List.cons.inj hnames
      obtain rfl := Option.some.inj (found.symm.trans found')
      exact expands.acc hopened
    | step found'' expands' goesOn =>
      obtain ⟨rfl, -⟩ := List.cons.inj hnames
      obtain rfl := Option.some.inj (found.symm.trans found'')
      cases expands'.unique (hopened ▸ expands)
      simp [ends] at goesOn
  | _, _, _, _, _, .next found expands _ goesOn along => fun hopened _ _ _ _ _ hnames passes
      found' => by
    cases passes with
    | stay =>
      obtain ⟨rfl, -⟩ := List.cons.inj hnames
      obtain rfl := Option.some.inj (found.symm.trans found')
      exact expands.acc hopened
    | step found'' expands' goesOn' passes =>
      obtain ⟨rfl, hrest⟩ := List.cons.inj hnames
      obtain rfl := Option.some.inj (found.symm.trans found'')
      cases expands'.unique (hopened ▸ expands)
      obtain rfl := Option.some.inj (goesOn.symm.trans goesOn')
      exact along.acc hopened hrest passes found'
  termination_by structural _ _ _ _ _ along => along

end

mutual

/-- The hops that an unfolding ends with lead to tables with registered schemas, if with any. -/
theorem Expands.reaches : ∀ {opened : List (String × String)} {owner : Schema} {a : Association}
    {outcome : Except RouteFault (List Hop)}, r.Expands remember opened owner a outcome →
      ∀ hops, outcome = .ok hops → ∀ hop ∈ hops, r.Reaches hop
  | _, _, _, _, .again _ => fun _ h => nomatch h
  | _, _, _, _, .empty _ _ => fun _ h => nomatch h
  | _, _, _, _, .chain _ _ _ along => along.reaches
  | _, _, _, _, .manyToMany _ _ => fun _ => reaches_joinThroughHops
  | _, _, _, _, .direct _ _ => fun _ => reaches_directHop
  termination_by structural _ _ _ _ expands => expands

theorem ExpandsAlong.reaches : ∀ {opened : List (String × String)} {through : String}
    {owner : Schema} {names : List String} {outcome : Except RouteFault (List Hop)},
      r.ExpandsAlong remember opened through owner names outcome →
        ∀ hops, outcome = .ok hops → ∀ hop ∈ hops, r.Reaches hop
  | _, _, _, _, _, .missing _ => fun _ h => nomatch h
  | _, _, _, _, _, .fails _ _ => fun _ h => nomatch h
  | _, _, _, _, _, .last _ expands => expands.reaches
  | _, _, _, _, _, .stuck _ _ _ _ => fun _ h => nomatch h
  | _, _, _, _, _, @ExpandsAlong.next _ _ _ _ _ _ _ _ first _ outcome _ expands _ _ along =>
    fun hops h => by
    obtain ⟨others, hothers, rfl⟩ : ∃ others, outcome = .ok others ∧ first ++ others = hops := by
      cases outcome with
      | error fault => cases h
      | ok others => exact ⟨others, rfl, Except.ok.inj h⟩
    exact List.forall_mem_append.mpr ⟨expands.reaches first rfl, along.reaches others hothers⟩
  termination_by structural _ _ _ _ _ along => along

end

theorem Passes.registered {next : Schema} (h : r.Passes remember opened owner names next)
    (howner : r.lookup? owner.name = some owner) : r.lookup? next.name = some next := by
  induction h with
  | stay => exact howner
  | step _ expands goesOn _ ih =>
    obtain ⟨last, hlast, hnext⟩ := Option.bind_eq_some_iff.mp goesOn
    exact ih (expands.reaches _ rfl last (List.mem_of_getLast? hlast) _ hnext)

/-- An association with its schema as the registry knows it. -/
def Knows (r : Registry) (p : Schema × Association) : Prop :=
  r.lookup? p.1.name = some p.1 ∧ p.1.association? p.2.name = some p.2

/-- A known association is known by the names of its schema and its own. -/
theorem Knows.ext {p p' : Schema × Association} (h : r.Knows p) (h' : r.Knows p')
    (hschema : p.1.name = p'.1.name) (hname : p.2.name = p'.2.name) : p = p' := by
  obtain ⟨hlookup, hfound⟩ := h
  obtain ⟨hlookup', hfound'⟩ := h'
  have howner : p.1 = p'.1 := Option.some.inj (hlookup.symm.trans (hschema ▸ hlookup'))
  rw [howner, hname, hfound'] at hfound
  exact Prod.ext howner (Option.some.inj hfound).symm

/-- What is being unfolded around an association has called it, and was called at the start or is
where the unfolding starts. -/
theorem Arrives.calls (h : r.Arrives start first opened owner a) (hstart : r.Knows (start, first)) :
    r.Knows (owner, a) ∧ Relation.ReflTransGen r.Calls (owner, a) (start, first) ∧
      ∀ key ∈ opened, ∃ outer, r.Knows outer ∧ (outer.1.name, outer.2.name) = key ∧
        Relation.TransGen r.Calls (owner, a) outer ∧
        Relation.ReflTransGen r.Calls outer (start, first) := by
  induction h with
  | start => exact ⟨hstart, .refl, by simp⟩
  | @enter opened owner a before hop after next b _ _ kind passes found ih =>
    obtain ⟨hknows, hcalls, hopened⟩ := ih
    have hcall : r.Calls (next, b) (owner, a) := ⟨before, hop, after, kind, passes.forget, found⟩
    refine ⟨⟨passes.registered hknows.1, Schema.association?_name found⟩, .head hcall hcalls, ?_⟩
    refine List.forall_mem_cons.mpr ⟨⟨(owner, a), hknows, rfl, .single hcall, hcalls⟩, ?_⟩
    intro key hkey
    obtain ⟨outer, houter, hname, hinner, hstart⟩ := hopened key hkey
    exact ⟨outer, houter, hname, .head hcall hinner, hstart⟩

/-- An unfolding that closes goes on for ever if nothing is remembered. -/
theorem Closes.not_acc {schema name : String} (h : r.Closes start first schema name)
    (hstart : r.Knows (start, first)) : ¬ Acc r.Calls (start, first) := by
  intro hacc
  obtain ⟨opened, owner, a, arrives, hmem, rfl, rfl⟩ := h
  obtain ⟨hknows, -, hopened⟩ := arrives.calls hstart
  obtain ⟨outer, houter, hname, hinner, hcalls⟩ := hopened _ hmem
  obtain ⟨hschema, hassociation⟩ := Prod.mk.inj hname
  obtain rfl := hknows.ext houter hschema.symm hassociation.symm
  have hloop : Acc r.Calls (owner, a) := by
    rcases Relation.reflTransGen_iff_eq_or_transGen.mp hcalls with heq | hcalls
    · exact heq ▸ hacc
    · exact hacc.inv_of_transGen hcalls
  -- what is accessible does not come to itself
  generalize (owner, a) = p at hloop hinner
  induction hloop with
  | intro p hbelow ih =>
    obtain ⟨q, hrest, hlast⟩ := Relation.TransGen.tail'_iff.mp hinner
    exact ih q hlast (.head' hlast hrest)

/-- **An unfolding that remembers nothing ends exactly if the unfolding never closes**, and then with
the route. -/
theorem expands_forgetful_iff (howner : r.lookup? owner.name = some owner)
    (found : owner.association? a.name = some a) :
    r.Expands false [] owner a outcome ↔
      r.route owner a = outcome ∧ ∀ schema name, ¬ r.Closes owner a schema name := by
  have hends : r.Expands true [] owner a (r.route owner a) := (expands_iff howner found).mpr rfl
  have hforget : (∀ schema name, ¬ r.Closes owner a schema name) →
      r.Expands false [] owner a (r.route owner a) := fun hopen =>
    hends.forget fun name schema h => hopen schema name (expands_cyclic_iff.mp (h ▸ hends))
  constructor
  · intro expands
    have hopen : ∀ schema name, ¬ r.Closes owner a schema name :=
      fun _ _ hcloses => hcloses.not_acc ⟨howner, found⟩ (expands.acc rfl)
    exact ⟨(hforget hopen).unique expands, hopen⟩
  · rintro ⟨rfl, hopen⟩
    exact hforget hopen

end Registry

/-! ### What a level reports as cyclic -/

section

variable {α β ε : Type}

/-- A chain of steps fails where one of them does after all before it have succeeded. -/
theorem Except.foldlM_eq_error_iff {f : β → α → Except ε β} {e : ε} : ∀ {xs : List α} {b : β},
    xs.foldlM f b = .error e ↔ ∃ before x after b', xs = before ++ x :: after ∧
      before.foldlM f b = .ok b' ∧ f b' x = .error e
  | [], b => by simp [pure, Except.pure]
  | x :: xs, b => by
    rw [List.foldlM_cons]
    cases hfirst : f b x with
    | error e' =>
      refine ⟨fun h => ⟨[], x, xs, b, rfl, rfl, hfirst.trans h⟩, ?_⟩
      rintro ⟨before, x', after, b', hxs, hbefore, hx'⟩
      cases before with
      | nil =>
        obtain ⟨rfl, rfl⟩ := List.cons.inj hxs
        obtain rfl := Except.ok.inj hbefore
        exact hfirst.symm.trans hx'
      | cons y before =>
        obtain ⟨rfl, -⟩ := List.cons.inj hxs
        simp [hfirst, bind, Except.bind] at hbefore
    | ok b₁ =>
      refine (@foldlM_eq_error_iff f e xs b₁).trans ⟨?_, ?_⟩
      · rintro ⟨before, x', after, b', rfl, hbefore, hx'⟩
        refine ⟨x :: before, x', after, b', rfl, ?_, hx'⟩
        rw [List.foldlM_cons, hfirst]
        exact hbefore
      · rintro ⟨before, x', after, b', hxs, hbefore, hx'⟩
        cases before with
        | nil =>
          obtain ⟨rfl, -⟩ := List.cons.inj hxs
          obtain rfl := Except.ok.inj hbefore
          simp [hfirst] at hx'
        | cons y before =>
          obtain ⟨rfl, rfl⟩ := List.cons.inj hxs
          rw [List.foldlM_cons, hfirst] at hbefore
          exact ⟨before, x', after, b', rfl, hbefore, hx'⟩

end

/-- What fails in two steps fails in the first one or in the second. -/
theorem Except.bind_eq_error_iff {α β ε : Type} {x : Except ε α} {f : α → Except ε β} {e : ε} :
    x >>= f = .error e ↔ x = .error e ∨ ∃ a, x = .ok a ∧ f a = .error e := by
  cases x <;> simp [bind, Except.bind]

variable {ctx : Context} {queryPrefix : Option String} {site : Site} {name schema : String}

theorem RouteFault.toFault_eq_cyclic {fault : RouteFault} {fresh : Nat} :
    fault.toFault fresh = .cyclicAssociation name schema ↔ fault = .cyclic name schema := by
  cases fault <;> simp [toFault]

namespace Arena

variable {a : Arena σ}

/-- A declared join is reported as cyclic exactly if its association has no route for that
reason. -/
theorem bindJoin_cyclic_iff {ix : Nat} {j : Join σ} :
    bindJoin ctx queryPrefix a (ix, j) =
        .error (.malformed site (.cyclicAssociation name schema)) ↔
      ∃ ref owner association, j.association = some ref ∧ ref.parent < ix ∧
        a.schemaAt ctx ⟨.join, j.render⟩ ref.parent = .ok owner ∧
        owner.association? ref.name = some association ∧
        ctx.registry.route owner association = .error (.cyclic name schema) ∧
        site = ⟨.join, j.render⟩ := by
  constructor
  · intro h
    cases hassociation : j.association with
    | none =>
      simp only [bindJoin, hassociation, bindExplicit] at h
      cases hsource : j.source with
      | none => simp [hsource] at h
      | some s =>
        simp only [hsource] at h
        rcases Except.bind_eq_error_iff.mp h with hbind | ⟨_, -, hresult⟩
        · exact absurd hbind (Source.avoids_bind (by simp) _ _ _ site)
        · cases hresult
    | some ref =>
      simp only [bindJoin, hassociation, bindAssociation] at h
      by_cases hparent : ix ≤ ref.parent
      · simp [hparent, throw, throwThe, MonadExceptOf.throw, bind, Except.bind] at h
      simp only [hparent, if_false] at h
      rcases Except.bind_eq_error_iff.mp h with hschema | ⟨owner, howner, h⟩
      · exact absurd hschema (a.avoids_schemaAt (by simp) (by simp) (by simp) _ _ site)
      cases hfound : owner.association? ref.name with
      | none => simp [hfound, throw, throwThe, MonadExceptOf.throw] at h
      | some association =>
        simp only [hfound] at h
        cases hroute : ctx.registry.route owner association with
        | ok hops => simp [hroute, pure, Except.pure] at h
        | error fault =>
          simp only [hroute, throw, throwThe, MonadExceptOf.throw, Except.error.injEq,
            PlanError.malformed.injEq, RouteFault.toFault_eq_cyclic] at h
          obtain ⟨rfl, rfl⟩ := h
          exact ⟨ref, owner, association, rfl, Nat.not_le.mp hparent, howner, hfound, hroute, rfl⟩
  · rintro ⟨ref, owner, association, hassociation, hparent, howner, hfound, hroute, rfl⟩
    simp [bindJoin, bindAssociation, hassociation, Nat.not_le.mpr hparent, howner, hfound, hroute,
      bind, Except.bind, throw, throwThe, MonadExceptOf.throw, RouteFault.toFault]

end Arena

namespace Clauses

variable {c : Clauses σ}

/-- The level comes to unfold the association `a` of `owner` for its declared join `j`: all joins
before it are bound. -/
def Enters (ctx : Context) (c : Clauses σ) (j : Join σ) (owner : Schema) (a : Association) : Prop :=
  ∃ root source before ix after arena ref, c.root = some root ∧
    root.source.bind ctx c.queryPrefix root.tablePrefix .fromSource = .ok source ∧
    c.declaredJoins = before ++ (ix, j) :: after ∧
    before.foldlM (Arena.bindJoin ctx c.queryPrefix)
      ⟨c.joins.length + 1, [(0, source)], [], []⟩ = .ok arena ∧
    j.association = some ref ∧ ref.parent < ix ∧
    arena.schemaAt ctx ⟨.join, j.render⟩ ref.parent = .ok owner ∧
    owner.association? ref.name = some a

/-- What a level comes to unfold is known to the registry. -/
theorem Enters.knows {j : Join σ} {owner : Schema} {a : Association} (h : c.Enters ctx j owner a) :
    ctx.registry.Knows (owner, a) := by
  obtain ⟨-, -, -, -, -, arena, ref, -, -, -, -, -, -, howner, hfound⟩ := h
  refine ⟨?_, Schema.association?_name hfound⟩
  have hlookup := congrArg Except.toOption howner
  rw [Arena.toOption_schemaAt] at hlookup
  obtain ⟨name, -, hname⟩ := Option.bind_eq_some_iff.mp hlookup
  rw [Registry.name_of_lookup? hname, hname]

/-- A level reports an association as cyclic exactly if it comes to unfold one that has no route
for this reason. -/
theorem resolve_eq_cyclic_iff :
    c.resolve ctx = .error (.malformed site (.cyclicAssociation name schema)) ↔
      ∃ j owner a, c.Enters ctx j owner a ∧
        ctx.registry.route owner a = .error (.cyclic name schema) ∧ site = ⟨.join, j.render⟩ := by
  constructor
  · intro h
    unfold resolve at h
    cases hroot : c.root with
    | none => simp [hroot, throw, throwThe, MonadExceptOf.throw] at h
    | some root =>
      simp only [hroot] at h
      rcases Except.bind_eq_error_iff.mp h with hbind | ⟨source, hsource, h⟩
      · exact absurd hbind (Source.avoids_bind (by simp) _ _ _ site)
      rcases Except.bind_eq_error_iff.mp h with hfold | ⟨arena, hfold, h⟩
      · obtain ⟨before, ⟨ix, j⟩, after, arena, hdeclared, hbefore, hjoin⟩ :=
          Except.foldlM_eq_error_iff.mp hfold
        obtain ⟨ref, owner, a, hassociation, hparent, howner, hfound, hroute, rfl⟩ :=
          Arena.bindJoin_cyclic_iff.mp hjoin
        exact ⟨j, owner, a, ⟨root, source, before, ix, after, arena, ref, hroot, hsource,
          hdeclared, hbefore, hassociation, hparent, howner, hfound⟩, hroute, rfl⟩
      rcases Except.bind_eq_error_iff.mp h with hcheck | ⟨_, -, h⟩
      · exact absurd hcheck (avoids_checkPreloadJoins (by simp) _ _ site)
      obtain ⟨blocks, hblocked⟩ := exists_blocked hfold
      obtain ⟨sources, hsources⟩ :=
        Arena.exists_sources (Arena.sound_of_foldlM hsource hfold) hblocked
      simp [hsources, bind, Except.bind, pure, Except.pure] at h
  · rintro ⟨j, owner, a, ⟨root, source, before, ix, after, arena, ref, hroot, hsource, hdeclared,
      hbefore, hassociation, hparent, howner, hfound⟩, hroute, rfl⟩
    have hjoin : Arena.bindJoin ctx c.queryPrefix arena (ix, j) =
        .error (.malformed ⟨.join, j.render⟩ (.cyclicAssociation name schema)) :=
      Arena.bindJoin_cyclic_iff.mpr
        ⟨ref, owner, a, hassociation, hparent, howner, hfound, hroute, rfl⟩
    have hfold := Except.foldlM_eq_error_iff.mpr
      ⟨before, (ix, j), after, arena, hdeclared, hbefore, hjoin⟩
    simp [resolve, hroot, hsource, hfold, bind, Except.bind]

/-- **Which associations are cyclic.**  Whatever associations a registry has, the unfolding of every
association that a level comes to ends, and with the route that the joins are made from.  If nothing
is remembered on the way, then it ends exactly if it never comes to an association that is being
unfolded around it, however often associations follow one another.  A level reports an association
as cyclic exactly if it comes to unfold one that does come to this association again while that is
being unfolded. -/
theorem resolve_cyclic (ctx : Context) (c : Clauses σ) :
    (∀ j owner a, c.Enters ctx j owner a →
      (∀ outcome, ctx.registry.Expands true [] owner a outcome ↔
        ctx.registry.route owner a = outcome) ∧
      ∀ outcome, ctx.registry.Expands false [] owner a outcome ↔
        ctx.registry.route owner a = outcome ∧
          ∀ schema name, ¬ ctx.registry.Closes owner a schema name) ∧
    ∀ site name schema, c.resolve ctx = .error (.malformed site (.cyclicAssociation name schema)) ↔
      ∃ j owner a, c.Enters ctx j owner a ∧ ctx.registry.Closes owner a schema name ∧
        site = ⟨.join, j.render⟩ := by
  refine ⟨fun j owner a henters => ?_, fun site name schema => resolve_eq_cyclic_iff.trans ?_⟩
  · obtain ⟨howner, hfound⟩ := henters.knows
    exact ⟨fun _ => Registry.expands_iff howner hfound,
      fun _ => Registry.expands_forgetful_iff howner hfound⟩
  · refine exists_congr fun j => exists_congr fun owner => exists_congr fun a =>
      and_congr_right fun henters => and_congr_left fun _ => ?_
    obtain ⟨howner, hfound⟩ := henters.knows
    rw [← Registry.expands_iff howner hfound, Registry.expands_cyclic_iff]

end Clauses

/-- Nodes with neighbours, with a chain of neighbours of neighbours, and with two chains that name
each other. -/
def Schema.circular : Schema :=
  ((((Schema.ofTable "Node" "nodes").hasMany "near" "Node").hasThrough "far" ["near", "near", "near"]
    ).hasThrough "ping" ["near", "pong"]).hasThrough "pong" ["ping"]

/-- The nodes alone. -/
def Registry.circular : Registry := empty.insertAll [.circular]

/-- A chain that names one association three times is bound, and its unfolding ends without
remembering anything; of the two chains that name each other the first one is reported. -/
theorem Clauses.resolve_cyclic_circular :
    (∃ j owner a hops, (nodesWith "far").Enters (.reading .circular) j owner a ∧
      Registry.circular.Expands false [] owner a (.ok hops) ∧ hops.length = 3) ∧
    (∃ site, (nodesWith "ping").resolve (.reading .circular) =
      .error (.malformed site (.cyclicAssociation "ping" "Node"))) ∧
    ∃ j owner a, (nodesWith "ping").Enters (.reading .circular) j owner a ∧
      Registry.circular.Closes owner a "Node" "ping" := by
  obtain ⟨hends, hreports⟩ := resolve_cyclic (.reading .circular) (nodesWith "far")
  refine ⟨?_, ?_⟩
  · obtain ⟨j, a, henters, hlength⟩ : ∃ j a, (nodesWith "far").Enters (.reading .circular) j
        .circular a ∧ (Registry.circular.route .circular a).toOption.map List.length = some 3 :=
      ⟨_, _, ⟨_, _, [], 1, [], _, _, rfl, rfl, rfl, rfl, rfl, by decide, rfl, rfl⟩, by
        decide +kernel⟩
    obtain ⟨hops, hroute, hlength⟩ := Option.map_eq_some_iff.mp hlength
    have hbound : ((nodesWith "far").resolve (.reading .circular)).toOption.isSome = true := by
      decide +kernel
    refine ⟨j, .circular, a, hops, henters, ((hends j _ a henters).2 _).mpr
      ⟨Except.toOption_eq_some_iff.mp hroute, fun schema name hcloses => ?_⟩, hlength⟩
    rw [(hreports _ name schema).mpr ⟨j, _, a, henters, hcloses, rfl⟩] at hbound
    cases hbound
  · obtain ⟨site, hsite⟩ : ∃ site, (nodesWith "ping").resolve (.reading .circular) =
        .error (.malformed site (.cyclicAssociation "ping" "Node")) :=
      ⟨⟨.join, (Join.alongUnder .left none 0 "ping").render⟩, rfl⟩
    obtain ⟨j, owner, a, henters, hcloses, -⟩ :=
      ((resolve_cyclic (.reading .circular) (nodesWith "ping")).2 _ _ _).mp hsite
    exact ⟨⟨site, hsite⟩, j, owner, a, henters, hcloses⟩

end QueryPlanner
