import Mathlib.Algebra.Order.BigOperators.Group.List
import Mathlib.Algebra.Order.Group.Nat
import Mathlib.Data.List.Nodup
import Mathlib.Data.List.Perm.Subperm
import QueryPlanner.Proofs.Normal.Preloads
import QueryPlanner.Proofs.Plan.Agreement
import QueryPlanner.Proofs.Plan.Prefixes

/-!
# Planning with more schemas

A query that is planned looks up only schemas that are there.  So it is planned just so with any
registry that has these and more.

* `Registry.Extends` — a registry that has what another one has
* `Registry.Extends.route` — associations take the same route
* `Clauses.resolve_registered` — the schemas of bound sources are registered
* `Query.plan_knowing` — what is planned with a registry is planned with one that has more
-/

namespace QueryPlanner

open Binder

variable {σ : Type}

/-! ### Computations -/

/-- Whatever comes out of the first computation comes out of the second one. -/
def Except.Refines {ε α : Type} (x y : Except ε α) : Prop := ∀ ⦃a⦄, x = .ok a → y = .ok a

namespace Except.Refines

variable {ε α β ι : Type} {x y : Except ε α}

theorem refl (x : Except ε α) : Refines x x := fun _ h => h

theorem error (e : ε) (y : Except ε α) : Refines (.error e) y := fun _ h => nomatch h

theorem bind {f g : α → Except ε β} (h : Refines x y) (hf : ∀ a, Refines (f a) (g a)) :
    Refines (x >>= f) (y >>= g) := by
  cases x with
  | error e => exact error e _
  | ok a =>
    rw [h rfl]
    exact hf a

theorem foldlM {f g : α → ι → Except ε α} (h : ∀ a i, Refines (f a i) (g a i)) :
    ∀ (xs : List ι) (a : α), Refines (xs.foldlM f a) (xs.foldlM g a)
  | [], _ => refl _
  | i :: xs, a => by
    rw [List.foldlM_cons, List.foldlM_cons]
    exact (h a i).bind fun a' => foldlM h xs a'

end Except.Refines

/-! ### Registries -/

namespace Registry

variable {r r' : Registry}

/-- A registry that has the schemas of another one.  Any others have other names, since no two
schemas of a registry share one. -/
def Extends (r' r : Registry) : Prop := r.schemas ⊆ r'.schemas

theorem lookup?_of_mem {s : Schema} (h : s ∈ r.schemas) : r.lookup? s.name = some s := by
  cases hlookup : r.lookup? s.name with
  | none => simpa using List.find?_eq_none.mp hlookup s h
  | some t =>
    have hsame := List.inj_on_of_nodup_map r.nodup (mem_of_lookup? hlookup) h
    rw [hsame (name_of_lookup? hlookup)]

/-- Adding a schema of a new name extends a registry. -/
theorem extends_insert {s : Schema} (h : r.lookup? s.name = none) : (r.insert s).Extends r := by
  intro t ht
  have hne : t.name ≠ s.name := by simpa using List.find?_eq_none.mp h t ht
  exact List.mem_append_left _ (List.mem_filter.mpr ⟨ht, by simpa using hne⟩)

namespace Extends

variable (h : r'.Extends r)
include h

theorem lookup? {name : String} {schema : Schema} (hlookup : r.lookup? name = some schema) :
    r'.lookup? name = some schema := by
  obtain rfl := name_of_lookup? hlookup
  exact lookup?_of_mem (h (mem_of_lookup? hlookup))

theorem associationCount_le : r.associationCount ≤ r'.associationCount := by
  obtain ⟨schemas, hperm, hsub⟩ := List.subperm_of_subset r.nodup.of_map h
  unfold associationCount
  rw [← List.sum_eq_foldl, ← List.sum_eq_foldl, ← (hperm.map _).sum_eq]
  exact (hsub.map _).sum_le_sum fun _ _ => Nat.zero_le _

/-! ### Routes -/

theorem target (related : Related) : Except.Refines (r.target related) (r'.target related) := by
  cases related with
  | table name => exact .refl _
  | schema name =>
    simp only [Registry.target]
    cases hlookup : r.lookup? name with
    | none => exact .error _ _
    | some schema =>
      rw [h.lookup? hlookup]
      exact .refl _

theorem directHop (a : Association) : Except.Refines (r.directHop a) (r'.directHop a) :=
  (h.target a.related).bind fun _ => .refl _

theorem joinThroughHops (a : Association) (joinThrough : Related)
    (ownerKey relatedKey : String) (filters : List AssociationFilter) :
    Except.Refines (r.joinThroughHops a joinThrough ownerKey relatedKey filters)
      (r'.joinThroughHops a joinThrough ownerKey relatedKey filters) :=
  (h.target joinThrough).bind fun _ => (h.target a.related).bind fun _ => .refl _

omit h in
theorem chainHops {unfold unfold' : Nat → Schema → Association → Except RouteFault (List Hop)}
    (hunfold : ∀ count owner a, Except.Refines (unfold count owner a) (unfold' count owner a))
    (through : String) : ∀ (names : List String) (count : Nat) (owner : Schema),
      Except.Refines (Registry.chainHops unfold through count owner names)
        (Registry.chainHops unfold' through count owner names)
  | [], _, _ => .refl _
  | name :: names, count, owner => by
    unfold Registry.chainHops
    cases owner.association? name with
    | none => exact .refl _
    | some a =>
      refine (hunfold count owner a).bind fun first => ?_
      cases names.isEmpty with
      | true => exact .refl _
      | false =>
        simp only [Bool.false_eq_true, if_false]
        split
        · exact .refl _
        · exact (chainHops hunfold through names _ _).bind fun _ => .refl _

/-- What unfolds within some depth unfolds within a greater one. -/
theorem unfold : ∀ {depth depth' : Nat} (_ : depth ≤ depth') (opened : List (String × String))
    (count : Nat) (owner : Schema) (a : Association),
      Except.Refines (r.unfold depth opened count owner a) (r'.unfold depth' opened count owner a)
  | 0, _, _, _, _, _, _ => .error _ _
  | depth + 1, depth' + 1, hle, opened, count, owner, a => by
    have hnested := fun opened => unfold (Nat.le_of_succ_le_succ hle) opened
    unfold Registry.unfold
    split
    · exact .refl _
    · split
      · exact .refl _
      · exact chainHops (hnested _) _ _ _ _
      · exact h.joinThroughHops a _ _ _ _
      all_goals exact h.directHop a

/-- **The route of an association** is the same with more schemas. -/
theorem route (owner : Schema) (a : Association) :
    Except.Refines (r.route owner a) (r'.route owner a) :=
  h.unfold (Nat.succ_le_succ h.associationCount_le) [] 0 owner a

end Extends

end Registry

/-! ### Bound sources -/

/-- The context with another registry. -/
def Context.knowing (ctx : Context) (r : Registry) : Context := { ctx with registry := r }

/-- A source whose schema is registered, if it has one. -/
def BoundSource.Registered (r : Registry) (source : BoundSource) : Prop :=
  ∀ name, source.schema? = some name → ∃ schema, r.lookup? name = some schema

/-- Registered schemas are the same with more of them. -/
theorem Context.alike_knowing {ctx : Context} {r : Registry} (h : r.Extends ctx.registry)
    {sources : List BoundSource} (hsources : ∀ source ∈ sources, source.Registered ctx.registry) :
    ctx.Alike sources (ctx.knowing r) where
  conversions := rfl
  schemas source hsource name hname := by
    obtain ⟨schema, hschema⟩ := hsources source hsource name hname
    exact (h.lookup? hschema).trans hschema.symm

section

variable {ctx : Context} {r : Registry} (h : r.Extends ctx.registry)
include h

theorem Context.schema_knowing (site : Site) (name : String) :
    Except.Refines (ctx.schema site name) ((ctx.knowing r).schema site name) := by
  unfold schema
  cases hlookup : ctx.registry.lookup? name with
  | none => exact .error _ _
  | some schema =>
    have hmore : (ctx.knowing r).registry.lookup? name = some schema := h.lookup? hlookup
    rw [hmore]
    exact .refl _

theorem Source.bind_knowing (queryPrefix clausePrefix : Option String) (clause : Clause)
    (s : Source σ) : Except.Refines (s.bind ctx queryPrefix clausePrefix clause)
      (s.bind (ctx.knowing r) queryPrefix clausePrefix clause) := by
  cases s with
  | schema table name => exact (Context.schema_knowing h _ name).bind fun _ => .refl _
  | _ => exact .refl _

namespace Arena

theorem schemaAt_knowing (a : Arena σ) (site : Site) (ix : Nat) :
    Except.Refines (a.schemaAt ctx site ix) (a.schemaAt (ctx.knowing r) site ix) := by
  unfold schemaAt
  split
  · split
    · exact Context.schema_knowing h site _
    · exact .refl _
  · exact .refl _

theorem bindAssociation_knowing (queryPrefix : Option String) (a : Arena σ) (ix : Nat)
    (j : Join σ) (ref : AssociationRef) :
    Except.Refines (a.bindAssociation ctx queryPrefix ix j ref)
      (a.bindAssociation (ctx.knowing r) queryPrefix ix j ref) := by
  unfold bindAssociation
  split
  · exact .error _ _
  · refine (a.schemaAt_knowing h _ ref.parent).bind fun owner => ?_
    cases owner.association? ref.name with
    | none => exact .error _ _
    | some association =>
      simp only
      cases hroute : ctx.registry.route owner association with
      | error fault => exact .error _ _
      | ok hops =>
        have hmore : (ctx.knowing r).registry.route owner association = .ok hops :=
          h.route owner association hroute
        rw [hmore]
        exact .refl _

theorem bindJoin_knowing (queryPrefix : Option String) (a : Arena σ) (declared : Nat × Join σ) :
    Except.Refines (bindJoin ctx queryPrefix a declared)
      (bindJoin (ctx.knowing r) queryPrefix a declared) := by
  unfold bindJoin
  split
  · unfold bindExplicit
    split
    · exact .refl _
    · exact (Source.bind_knowing h queryPrefix _ _ _).bind fun _ => .refl _
  · exact bindAssociation_knowing h queryPrefix a _ _ _

end Arena

/-- **The sources of a level** are bound to the same with more schemas. -/
theorem Clauses.resolve_knowing (c : Clauses σ) :
    Except.Refines (c.resolve ctx) (c.resolve (ctx.knowing r)) := by
  unfold resolve
  cases c.root with
  | none => exact .refl _
  | some root =>
    refine (Source.bind_knowing h _ _ _ _).bind fun bound => ?_
    exact (Except.Refines.foldlM (Arena.bindJoin_knowing h c.queryPrefix) _ _).bind
      fun _ => .refl _

end

/-! ### What is bound is registered -/

section

variable {ctx : Context} {queryPrefix : Option String}

theorem Source.registered_bind {clausePrefix : Option String} {clause : Clause} {s : Source σ}
    {source : BoundSource} (h : s.bind ctx queryPrefix clausePrefix clause = .ok source) :
    source.Registered ctx.registry := by
  cases s with
  | schema table type =>
    obtain ⟨schema, hschema, hsource⟩ := Except.bind_eq_ok.mp h
    obtain ⟨rfl, hlookup⟩ := Context.schema_eq_ok_iff.mp hschema
    cases hsource
    rintro name ⟨⟩
    exact ⟨schema, hlookup⟩
  | _ =>
    cases h
    rintro name ⟨⟩

theorem Hop.registered_bound {joinPrefix : Option String} {hop : Hop}
    (h : ctx.registry.Reaches hop) :
    (hop.bound ctx queryPrefix joinPrefix).Registered ctx.registry := by
  intro name hname
  obtain ⟨schema, hschema, rfl⟩ := Option.map_eq_some_iff.mp hname
  exact ⟨schema, h schema hschema⟩

theorem Arena.registered_bindJoin {a a' : Arena σ} {ix : Nat} {j : Join σ}
    (ha : ∀ p ∈ a.bound, p.2.Registered ctx.registry)
    (h : bindJoin ctx queryPrefix a (ix, j) = .ok a') :
    ∀ p ∈ a'.bound, p.2.Registered ctx.registry := by
  rcases bindJoin_cases h with
    ⟨s, b, -, -, hb, rfl⟩ | ⟨ref, owner, association, hops, -, -, -, -, hhops, rfl⟩
  · exact List.forall_mem_append.mpr
      ⟨ha, List.forall_mem_singleton.mpr (Source.registered_bind hb)⟩
  · refine List.forall_mem_append.mpr ⟨ha, List.forall_mem_map.mpr fun placed hplaced => ?_⟩
    have hhop := List.mem_map_of_mem (f := (·.2.2)) hplaced
    rw [hop_placeHops] at hhop
    exact Hop.registered_bound (Registry.reaches_unfold _ _ _ _ _ _ hhops _ hhop)

/-- **The schemas of bound sources** are registered. -/
theorem Clauses.resolve_registered {c : Clauses σ} {b : Bindings σ} (h : c.resolve ctx = .ok b) :
    ∀ source ∈ b.sources, source.Registered ctx.registry := by
  obtain ⟨root, source, a, -, hsource, ha, -, hsources, -, -⟩ := resolve_cases h
  have hstart : ∀ p ∈ [(0, source)], p.2.Registered ctx.registry :=
    List.forall_mem_singleton.mpr (Source.registered_bind hsource)
  have hbound : ∀ p ∈ a.bound, p.2.Registered ctx.registry :=
    Arena.foldlM_declared (fun _ a => ∀ p ∈ a.bound, p.2.Registered ctx.registry)
      (fun _ _ _ _ _ hinv hstep => Arena.registered_bindJoin hinv hstep) hstart ha
  intro source hmem
  obtain ⟨ix, hix⟩ := List.getElem?_of_mem hmem
  obtain ⟨-, hlookup⟩ := (Arena.getElem?_sources hsources).mp hix
  obtain ⟨l₁, l₂, hl, -⟩ := List.lookup_eq_some_iff.mp hlookup
  exact hbound (ix, source) (hl ▸ List.mem_append_right _ List.mem_cons_self)

end

/-! ### Queries -/

/-- **A query that is planned** is planned just so with more schemas. -/
theorem Query.plan_knowing {r : Registry} (q : Query) : ∀ ctx : Context, r.Extends ctx.registry →
    Binder.Refines (q.plan ctx) (q.plan (ctx.knowing r)) := by
  refine Query.induction (P := fun q => ∀ ctx : Context, r.Extends ctx.registry →
    Binder.Refines (q.plan ctx) (q.plan (ctx.knowing r))) ?_ q
  intro c ih ctx hmore ps t qs hyields
  obtain ⟨hcheck, b, hb, hlevel⟩ := yields_plan_iff.mp hyields
  have halike := Context.alike_knowing hmore (Clauses.resolve_registered hb)
  have hbind : Binder.Refines (c.level ctx b).bind
      ((c.level ctx b).inside (ctx.knowing r)).bind := by
    refine Level.refines_bind halike rfl fun clause inner hinner => ?_
    obtain ⟨q, hq, rfl⟩ := Clauses.nested_level hinner
    have hq := (Clauses.mem_considered_nested hb).mpr ⟨clause, hq⟩
    exact ih q (Clauses.considered_nested_subset hq) (ctx.nested c.queryPrefix) hmore
  exact yields_plan_iff.mpr ⟨hcheck, b, Clauses.resolve_knowing hmore c hb, hbind hlevel⟩

/-- **The schemas of a plan** are registered, at every level. -/
theorem Query.plan_registered (q : Query) : ∀ (ctx : Context) ps t qs,
    (q.plan ctx).Yields ps t qs →
      t.Everywhere (fun ctx c => ∀ source ∈ c.sources, source.Registered ctx.registry) ctx := by
  refine Query.induction (P := fun q => ∀ (ctx : Context) ps t qs, (q.plan ctx).Yields ps t qs →
    t.Everywhere _ ctx) ?_ q
  intro c ih ctx ps t qs hyields
  obtain ⟨b, hb, hframe, -⟩ := plan_cases hyields
  obtain ⟨d⟩ := t
  have hsources : d.sources = b.sources := congrArg Clauses.sources hframe
  have hprefix : d.queryPrefix = c.queryPrefix :=
    congrArg (fun f : Clauses Unit => f.queryPrefix) hframe
  refine .mk (hsources ▸ Clauses.resolve_registered hb) fun planned hplanned => ?_
  have hqueries := plan_queries hyields
  obtain ⟨i, hi, rfl⟩ := List.getElem_of_mem hplanned
  have hi' : i < c.considered.nested.length := hqueries.length_eq ▸ hi
  obtain ⟨rs, ts, hinner⟩ := hqueries.get hi' hi
  have hconsidered := Clauses.considered_nested_subset (List.getElem_mem hi')
  exact hprefix ▸ ih _ hconsidered (ctx.nested c.queryPrefix) rs _ ts hinner

end QueryPlanner
