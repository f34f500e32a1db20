import QueryPlanner.Proofs.Plan.Agreement
import QueryPlanner.Proofs.Plan.Nested

/-!
# What a database decides

A database decides nothing but whether the shape of each level is supported.  A query that is
planned for one database is planned for another as soon as its levels are supported there, and the
plan is the same.

* `Clauses.Supported`, `Query.Supported` — the shapes that a database supports
* `Clauses.checkCapabilities_iff` — the check decides just that for one level
* `Query.plan_supported`, `Query.plan_agree` — a planned query is supported, and databases that
  support it plan it alike
* `Planner.plan_iff_supported` — both together
-/

namespace QueryPlanner

open Binder

variable {σ τ : Type} {caps other : Capabilities}

/-! ### Supported shapes -/

/-- A level whose shape a database supports: the qualifiers of its joins, recursion in its common
table expressions, the windows that it declares, and its lock. -/
structure Clauses.Supported (caps : Capabilities) (c : Clauses σ) : Prop where
  joins : ∀ j ∈ c.joins, caps.supports j.qualifier
  recursion : ∀ cte ∈ c.ctes, cte.recursive → caps.recursiveCte
  windows : c.windows ≠ [] → caps.namedWindows
  lock : c.lock.isSome → caps.rowLocks

/-- A query of which every level that is planned has a supported shape: its own, and those of its
common table expressions, its combinations, and the subqueries that it reads from and joins.  The
source beside an association is not planned. -/
inductive Query.Supported (caps : Capabilities) : Query → Prop
  | mk {c : Clauses Query} (level : c.Supported caps)
    (nested : ∀ q ∈ c.considered.nested, Supported caps q) : Supported caps ⟨c⟩

/-- A database that supports at least what another one does. -/
structure Capabilities.Within (caps other : Capabilities) : Prop where
  lateral : caps.lateral → other.lateral
  rightJoin : caps.rightJoin → other.rightJoin
  fullOuterJoin : caps.fullOuterJoin → other.fullOuterJoin
  namedWindows : caps.namedWindows → other.namedWindows
  recursiveCte : caps.recursiveCte → other.recursiveCte
  rowLocks : caps.rowLocks → other.rowLocks

theorem Capabilities.Within.supports (h : caps.Within other) {qualifier : JoinQualifier}
    (hq : caps.supports qualifier) : other.supports qualifier := by
  cases qualifier with
  | right => exact h.rightJoin hq
  | full => exact h.fullOuterJoin hq
  | innerLateral | leftLateral => exact h.lateral hq
  | inner | left | cross => rfl

/-- A database that supports everything. -/
def Capabilities.full (name : String) : Capabilities := { name }

theorem Capabilities.within_full (caps : Capabilities) (name : String) :
    caps.Within (full name) := by
  constructor <;> exact fun _ => rfl

theorem Clauses.Supported.mono {c : Clauses σ} (hwithin : caps.Within other)
    (h : c.Supported caps) : c.Supported other where
  joins j hj := hwithin.supports (h.joins j hj)
  recursion cte hcte hrecursive := hwithin.recursiveCte (h.recursion cte hcte hrecursive)
  windows hwindows := hwithin.namedWindows (h.windows hwindows)
  lock hlock := hwithin.rowLocks (h.lock hlock)

theorem Query.Supported.mono {q : Query} (hwithin : caps.Within other) (h : q.Supported caps) :
    q.Supported other := by
  induction h with
  | mk level _ ih => exact .mk (level.mono hwithin) ih

/-- Shapes do not depend on what a level holds. -/
theorem Clauses.supported_edit {c : Clauses σ} {f : Expr → Expr} {g : σ → τ} :
    (c.edit f g).Supported caps ↔ c.Supported caps := by
  have hjoins : (∀ j ∈ (c.edit f g).joins, caps.supports j.qualifier) ↔
      ∀ j ∈ c.joins, caps.supports j.qualifier := List.forall_mem_map
  have hctes : (∀ cte ∈ (c.edit f g).ctes, cte.recursive → caps.recursiveCte) ↔
      ∀ cte ∈ c.ctes, cte.recursive → caps.recursiveCte := List.forall_mem_map
  have hwindows : (c.edit f g).windows = [] ↔ c.windows = [] := List.map_eq_nil_iff
  have hlock : (c.edit f g).lock.isSome = c.lock.isSome := Option.isSome_map
  constructor
  · rintro ⟨hj, hc, hw, hl⟩
    exact ⟨hjoins.mp hj, hctes.mp hc, fun h => hw (mt hwindows.mp h), fun h => hl (hlock ▸ h)⟩
  · rintro ⟨hj, hc, hw, hl⟩
    exact ⟨hjoins.mpr hj, hctes.mpr hc, fun h => hw (mt hwindows.mpr h), fun h => hl (hlock ▸ h)⟩

/-! ### The check -/

/-- **The check of a level** passes just if its shape is supported. -/
theorem Clauses.checkCapabilities_iff {c : Clauses σ} :
    c.checkCapabilities caps = .ok () ↔ c.Supported caps := by
  have hjoins : (∀ j ∈ c.joins, caps.supports j.qualifier) ↔
      c.joins.find? (!caps.supports ·.qualifier) = none := by simp
  have hctes : (∀ cte ∈ c.ctes, cte.recursive → caps.recursiveCte) ↔
      c.ctes.find? (·.recursive) = none ∨ caps.recursiveCte := by
    rw [List.find?_eq_none, or_iff_not_imp_right]
    exact ⟨fun h hno cte hcte hrecursive => hno (h cte hcte hrecursive),
      fun h cte hcte hrecursive => by_contra fun hno => h hno cte hcte hrecursive⟩
  have hwindows : (c.windows ≠ [] → caps.namedWindows) ↔
      c.windows.head? = none ∨ caps.namedWindows := by
    rw [List.head?_eq_none_iff, or_iff_not_imp_left]
  have hlock : (c.lock.isSome → caps.rowLocks) ↔ (c.lock.isSome && !caps.rowLocks) = false := by
    cases c.lock.isSome <;> cases caps.rowLocks <;> simp
  have hfields : c.Supported caps ↔ (∀ j ∈ c.joins, caps.supports j.qualifier) ∧
      (∀ cte ∈ c.ctes, cte.recursive → caps.recursiveCte) ∧
      (c.windows ≠ [] → caps.namedWindows) ∧ (c.lock.isSome → caps.rowLocks) :=
    ⟨fun ⟨hj, hc, hw, hl⟩ => ⟨hj, hc, hw, hl⟩, fun ⟨hj, hc, hw, hl⟩ => ⟨hj, hc, hw, hl⟩⟩
  rw [hfields, hjoins, hctes, hwindows, hlock, checkCapabilities]
  cases c.joins.find? (!caps.supports ·.qualifier) <;> cases c.ctes.find? (·.recursive) <;>
    cases caps.recursiveCte <;> cases c.windows.head? <;> cases caps.namedWindows <;>
    cases (c.lock.isSome && !caps.rowLocks) <;>
    simp [throw, throwThe, MonadExceptOf.throw, pure, Except.pure, bind, Except.bind]

/-! ### Queries -/

namespace Query

/-- **What is planned is supported**, at every level. -/
theorem plan_supported (q : Query) : ∀ (ctx : Context) ps t qs, (q.plan ctx).Yields ps t qs →
    q.Supported ctx.capabilities := by
  refine Query.induction (P := fun q => ∀ (ctx : Context) ps t qs, (q.plan ctx).Yields ps t qs →
    q.Supported ctx.capabilities) ?_ q
  intro c ih ctx ps t qs h
  have hlevel := Clauses.supported_edit.mp
    (Clauses.checkCapabilities_iff.mp (yields_plan_iff.mp h).1)
  refine .mk hlevel fun inner hinner => ?_
  obtain ⟨rs, s, ts, hyields⟩ := plan_nested h hinner
  exact ih inner (Clauses.considered_nested_subset hinner) (ctx.nested c.queryPrefix) rs s ts
    hyields

/-- A query is planned for a database that supports it as it is for any other. -/
theorem plan_refines {q : Query} (h : q.Supported caps) : ∀ ctx : Context,
    Refines (q.plan ctx) (q.plan (ctx.under ctx.operation caps)) := by
  induction h with
  | @mk c level nested ih =>
    intro ctx ps t qs hyields
    obtain ⟨-, b, hb, hlevel⟩ := yields_plan_iff.mp hyields
    have hcheck : (c.edit id Query.plan).checkCapabilities caps = .ok () :=
      Clauses.checkCapabilities_iff.mpr (Clauses.supported_edit.mpr level)
    have hbind : Refines (c.level ctx b).bind
        ((c.level ctx b).inside (ctx.under ctx.operation caps)).bind := by
      refine Level.refines_bind (ctx.alike_under _ _ caps) rfl fun clause inner hinner => ?_
      obtain ⟨q, hq, rfl⟩ := Clauses.nested_level hinner
      have hq := (Clauses.mem_considered_nested hb).mpr ⟨clause, hq⟩
      exact ih q hq (ctx.nested c.queryPrefix)
    exact yields_plan_iff.mpr ⟨hcheck, b, hb, hbind hlevel⟩

/-- **Databases that support a query** plan it alike. -/
theorem plan_agree {q : Query} (h : q.Supported caps) (ctx : Context)
    (h' : q.Supported ctx.capabilities) :
    Agree (q.plan ctx) (q.plan (ctx.under ctx.operation caps)) :=
  .of_refines (plan_refines h ctx) (plan_refines h' (ctx.under ctx.operation caps))

end Query

/-- **A database decides nothing but whether it supports the shapes of a query.**  For every query,
operation and database: a plan is the one for this database if and only if it is, cache key
included, the plan for a database that supports everything, and every level that is planned has a
shape that this database supports.  So what is planned for a database is planned just so for every
database that supports at least as much. -/
theorem Planner.plan_iff_supported (p : Planner) (q : Query) (operation : Operation)
    (caps : Capabilities) (name : String) :
    (∀ plan, p.plan q operation caps = .ok plan ↔
      p.plan q operation (.full name) = .ok plan ∧ q.Supported caps) ∧
    ∀ other plan, caps.Within other → p.plan q operation caps = .ok plan →
      p.plan q operation other = .ok plan := by
  have hsupported : ∀ {caps plan}, p.plan q operation caps = .ok plan → q.Supported caps :=
    fun h => q.plan_supported _ _ _ _ (plan_cases h).1
  have htransfer : ∀ {caps other plan}, q.Supported caps → q.Supported other →
      p.plan q operation caps = .ok plan → p.plan q operation other = .ok plan := by
    intro caps other plan hcaps hother h
    obtain ⟨hyields, hkey, hfingerprint⟩ := plan_iff.mp h
    have hagree := Query.plan_agree hother (p.context operation caps) hcaps
    exact plan_iff.mpr ⟨hagree.yields_iff.mp hyields, hkey, hfingerprint⟩
  refine ⟨fun plan => ⟨fun h => ?_, fun ⟨hfull, hcaps⟩ => ?_⟩, fun other plan hwithin h => ?_⟩
  · exact ⟨htransfer (hsupported h) ((hsupported h).mono (caps.within_full name)) h, hsupported h⟩
  · exact htransfer (hcaps.mono (caps.within_full name)) hcaps hfull
  · exact htransfer (hsupported h) ((hsupported h).mono hwithin) h

/-- Authors ranked by a window that a common table expression declares, with every user. -/
def Query.rankedAuthors : Query :=
  ((Query.ofTable "ranked").withCte "ranked"
    ((Query.ofTable "posts").window "by_author" ⟨[.field 0 "author"], [], none⟩) false).join
      (.explicit .right (.table "users") (some ((Expr.field 0 "author").eq (.field 1 "id"))))

/-- What one database plans, another one that supports more plans just so; a third one refuses the
window, although it is not the query itself that declares it. -/
theorem Planner.plan_iff_supported_ranked :
    ∃ plan, (⟨.empty, .builtin, none, {}⟩ : Planner).plan Query.rankedAuthors .all
        Dialect.sqlite.capabilities = .ok plan ∧
      (⟨.empty, .builtin, none, {}⟩ : Planner).plan Query.rankedAuthors .all
        Dialect.postgres.capabilities = .ok plan ∧
      ∀ plan, (⟨.empty, .builtin, none, {}⟩ : Planner).plan Query.rankedAuthors .all
        Dialect.tsql.capabilities ≠ .ok plan := by
  have hplanned : ((⟨.empty, .builtin, none, {}⟩ : Planner).plan Query.rankedAuthors .all
      Dialect.sqlite.capabilities).toOption.map (fun _ => ()) = some () := by
    decide +kernel
  obtain ⟨plan, hplan, -⟩ := Option.map_eq_some_iff.mp hplanned
  have hok := Except.toOption_eq_some_iff.mp hplan
  have hwithin : Dialect.sqlite.capabilities.Within Dialect.postgres.capabilities :=
    Capabilities.within_full _ _
  refine ⟨plan, hok, (Planner.plan_iff_supported _ _ .all _ "any").2 _ plan hwithin hok, ?_⟩
  intro plan' hplan'
  have hsupported := ((Planner.plan_iff_supported _ _ .all _ "any").1 plan').mp hplan'
  obtain @⟨_, -, nested⟩ := hsupported.2
  obtain @⟨_, level, -⟩ := nested _ List.mem_cons_self
  exact absurd (level.windows (List.cons_ne_nil _ _)) (by decide)

end QueryPlanner
