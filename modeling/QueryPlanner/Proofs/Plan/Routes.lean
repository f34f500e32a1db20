import QueryPlanner.Plan.Bindings

/-!
# What an association stands for

An association that is no chain is one link, or two by way of a table in between.  A chain stands
for the links of its associations, each of which starts from the schema that the one before it leads
to.  This says it without bindings, without depth and without the order of the search.

* `Registry.Unfolds` — the associations that an association stands for, and the target they lead to
* `Association.links` — the keys and conditions of an association that is no chain
* `Registry.route_unfolds` — the hops of a route are the links of what its association stands for
-/

namespace QueryPlanner

/-- A join of tables as an association declares it. -/
structure Link where
  /-- The key on the table that is joined. -/
  relatedKey : String
  /-- The key on the table that it is joined to. -/
  ownerKey : String
  /-- Conditions on the table that is joined. -/
  filters : List AssociationFilter

/-- The links of an association: one to its target, after one to the table in between if there is
such a table.  A chain has no links of its own. -/
def Association.links (a : Association) : List Link :=
  match a.kind with
  | .through _ => []
  | .manyToMany _ joinOwnerKey joinRelatedKey joinFilters =>
    [⟨joinOwnerKey, a.ownerKey, joinFilters⟩, ⟨a.relatedKey, joinRelatedKey, a.filters⟩]
  | .belongsTo | .hasMany | .hasOne => [⟨a.relatedKey, a.ownerKey, a.filters⟩]

/-- The link that a hop makes. -/
def Hop.link (hop : Hop) : Link := ⟨hop.relatedKey, hop.ownerKey, hop.filters⟩

/-- The source of a target. -/
def Target.source {σ : Type} (t : Target) : Source σ :=
  match t.schema with
  | some schema => .schema t.table schema.name
  | none => .table t.table

namespace Registry

mutual

/-- An association of `owner` stands for `steps`, none of which is a chain, and leads to
`target`. -/
inductive Unfolds (r : Registry) :
    (owner : Schema) → Association → (steps : List Association) → (target : Target) → Prop
  | single {owner a target} (kind : ∀ chain, a.kind ≠ .through chain)
      (related : r.target a.related = .ok target) : Unfolds r owner a [a] target
  | chain {owner a names steps target} (kind : a.kind = .through names)
      (follows : Follows r owner names steps target) : Unfolds r owner a steps target

/-- The associations of the given names, from `owner` on, stand for `steps` and lead to `target`. -/
inductive Follows (r : Registry) :
    (owner : Schema) → List String → (steps : List Association) → (target : Target) → Prop
  | last {owner name a steps target} (found : owner.association? name = some a)
      (unfolds : Unfolds r owner a steps target) : Follows r owner [name] steps target
  | next {owner name a steps between schema names others target}
      (found : owner.association? name = some a) (unfolds : Unfolds r owner a steps between)
      (goesOn : between.schema = some schema) (follows : Follows r schema names others target) :
      Follows r owner (name :: names) (steps ++ others) target

end

variable {r : Registry}

/-- Hops that make the links of `steps` and lead to `target`. -/
def Makes (hops : List Hop) (steps : List Association) (target : Target) : Prop :=
  hops.map Hop.link = steps.flatMap Association.links ∧
    hops.getLast?.map Hop.target = some target

theorem Makes.append {hops others : List Hop} {steps steps' : List Association}
    {between target : Target} (h : Makes hops steps between) (h' : Makes others steps' target) :
    Makes (hops ++ others) (steps ++ steps') target := by
  refine ⟨by rw [List.map_append, List.flatMap_append, h.1, h'.1], ?_⟩
  obtain ⟨last, hlast, htarget⟩ := Option.map_eq_some_iff.mp h'.2
  rw [List.getLast?_append, hlast, Option.some_or, Option.map_some, htarget]

theorem makes_directHop {a : Association} {hops : List Hop}
    (hlinks : a.links = [⟨a.relatedKey, a.ownerKey, a.filters⟩]) (h : r.directHop a = .ok hops) :
    ∃ target, r.target a.related = .ok target ∧ Makes hops [a] target := by
  unfold directHop at h
  cases hrelated : r.target a.related with
  | error fault => simp [hrelated, bind, Except.bind] at h
  | ok target =>
    simp only [hrelated, bind, Except.bind, Except.ok.injEq] at h
    exact ⟨target, rfl, by simp [Makes, ← h, hlinks, Hop.link]⟩

theorem makes_joinThroughHops {a : Association} {joinThrough : Related}
    {joinOwnerKey joinRelatedKey : String} {joinFilters : List AssociationFilter}
    {hops : List Hop}
    (hkind : a.kind = .manyToMany joinThrough joinOwnerKey joinRelatedKey joinFilters)
    (h : r.joinThroughHops a joinThrough joinOwnerKey joinRelatedKey joinFilters = .ok hops) :
    ∃ target, r.target a.related = .ok target ∧ Makes hops [a] target := by
  unfold joinThroughHops at h
  cases hthrough : r.target joinThrough with
  | error fault => simp [hthrough, bind, Except.bind] at h
  | ok through =>
    cases hrelated : r.target a.related with
    | error fault => simp [hthrough, hrelated, bind, Except.bind] at h
    | ok target =>
      simp only [hthrough, hrelated, bind, Except.bind, Except.ok.injEq] at h
      exact ⟨target, rfl, by simp [Makes, ← h, Association.links, hkind, Hop.link]⟩

/-- The hops of a chain are those of its associations in turn, if `unfold` makes theirs. -/
theorem makes_chainHops {unfold : Nat → Schema → Association → Except RouteFault (List Hop)}
    {through : String}
    (hunfold : ∀ count owner a hops, unfold count owner a = .ok hops →
      ∃ steps target, r.Unfolds owner a steps target ∧ Makes hops steps target) :
    ∀ (names : List String) (count : Nat) (owner : Schema) (hops : List Hop), names ≠ [] →
      chainHops unfold through count owner names = .ok hops →
        ∃ steps target, r.Follows owner names steps target ∧ Makes hops steps target
  | [], _, _, _, hne, _ => absurd rfl hne
  | name :: names, count, owner, hops, _, h => by
    unfold chainHops at h
    cases hfound : owner.association? name with
    | none => simp [hfound] at h
    | some a =>
      simp only [hfound] at h
      cases hfirst : unfold count owner a with
      | error fault => simp [hfirst, bind, Except.bind] at h
      | ok first =>
        simp only [hfirst, bind, Except.bind] at h
        obtain ⟨steps, between, hsteps, hmakes⟩ := hunfold count owner a first hfirst
        cases names with
        | nil =>
          obtain rfl : first = hops := by simpa using h
          exact ⟨steps, between, .last hfound hsteps, hmakes⟩
        | cons next rest =>
          have hschema : first.getLast?.bind (·.target.schema) = between.schema := by
            obtain ⟨last, hlast, rfl⟩ := Option.map_eq_some_iff.mp hmakes.2
            rw [hlast, Option.bind_some]
          simp only [List.isEmpty_cons, Bool.false_eq_true, if_false, hschema] at h
          cases hbetween : between.schema with
          | none => simp [hbetween] at h
          | some schema =>
            simp only [hbetween] at h
            cases hothers : chainHops unfold through (count + first.length) schema
                (next :: rest) with
            | error fault => simp [hothers] at h
            | ok others =>
              simp only [hothers, Except.ok.injEq] at h
              obtain ⟨steps', target, hfollows, hmakes'⟩ :=
                makes_chainHops hunfold (next :: rest) _ schema others (by simp) hothers
              exact ⟨steps ++ steps', target, .next hfound hsteps hbetween hfollows,
                h ▸ hmakes.append hmakes'⟩

/-- The hops of an association are the links of what it stands for. -/
theorem unfold_unfolds : ∀ (depth : Nat) (opened : List (String × String)) (count : Nat)
    (owner : Schema) (a : Association) (hops : List Hop),
      r.unfold depth opened count owner a = .ok hops →
        ∃ steps target, r.Unfolds owner a steps target ∧ Makes hops steps target
  | 0, _, _, _, _, _, h => by simp [unfold] at h
  | depth + 1, opened, count, owner, a, hops, h => by
    rw [unfold] at h
    have hdirect : (∀ chain, a.kind ≠ .through chain) →
        (∃ target, r.target a.related = .ok target ∧ Makes hops [a] target) →
          ∃ steps target, r.Unfolds owner a steps target ∧ Makes hops steps target :=
      fun hkind ⟨target, hrelated, hmakes⟩ => ⟨[a], target, .single hkind hrelated, hmakes⟩
    by_cases hopened : opened.contains (owner.name, a.name)
    · rw [if_pos hopened] at h
      cases h
    rw [if_neg hopened] at h
    cases hkind : a.kind with
    | through names =>
      cases names with
      | nil => simp [hkind] at h
      | cons name names =>
        simp only [hkind] at h
        obtain ⟨steps, target, hfollows, hmakes⟩ := makes_chainHops
          (unfold_unfolds depth ((owner.name, a.name) :: opened)) (name :: names) count owner hops
          (by simp) h
        exact ⟨steps, target, .chain hkind hfollows, hmakes⟩
    | manyToMany joinThrough joinOwnerKey joinRelatedKey joinFilters =>
      simp only [hkind] at h
      exact hdirect (by simp [hkind]) (makes_joinThroughHops hkind h)
    | belongsTo | hasMany | hasOne =>
      simp only [hkind] at h
      exact hdirect (by simp [hkind]) (makes_directHop (by simp [Association.links, hkind]) h)

/-- **The hops of a route** are the links of the associations that its association stands for, and
the last one leads where they lead. -/
theorem route_unfolds {owner : Schema} {a : Association} {hops : List Hop}
    (h : r.route owner a = .ok hops) :
    ∃ steps target, r.Unfolds owner a steps target ∧
      hops.map Hop.link = steps.flatMap Association.links ∧
        hops.getLast?.map Hop.target = some target :=
  unfold_unfolds _ _ _ owner a hops h

end Registry

end QueryPlanner
