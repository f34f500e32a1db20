import QueryPlanner.Proofs.Conversion.RoundTrip
import QueryPlanner.Proofs.Plan.Appends

/-!
# Null is compared with nothing

A comparison refuses an interpolated null, whether it is written with an operator or as a keyword,
before the value is bound.  Values of built-in types become null in no other way, so the parameters
that stand in comparisons are never null.

* `Scope.reads_comparison` — a comparison that is read has no null among its operands
* `Expr.ComparesValues` — the parameters that are compared store values other than null
* `Scope.reads_compares`, `Query.plan_compares` — so do those of expressions and queries
* `Planner.plan_comparisons` — a whole plan
-/

namespace QueryPlanner

open Binder

variable {ps qs : List BoundParameter} {conversions : Conversions}

/-- A parameter that stores a value other than null. -/
def BoundParameter.StoresValue (conversions : Conversions) (p : BoundParameter) : Prop :=
  ∃ given : Value × Clause, given.1 ≠ .null ∧ p.Stores conversions given

/-- The parameter at a position stores a value other than null. -/
def ValueAt (conversions : Conversions) (parameters : List BoundParameter) (ix : Nat) : Prop :=
  ∃ p, parameters[ix]? = some p ∧ p.StoresValue conversions

theorem ValueAt.mono {ix : Nat} (h : ValueAt conversions ps ix) (hkept : ps <+: qs) :
    ValueAt conversions qs ix := by
  obtain ⟨p, hp, hvalue⟩ := h
  exact ⟨p, List.getElem?_of_prefix hkept hp, hvalue⟩

/-- If a node is a comparison with a placeholder for an operand, the parameter of the placeholder
stores a value other than null. -/
def Expr.ComparesHere (conversions : Conversions) (parameters : List BoundParameter) (e : Expr) :
    Prop :=
  ∀ op left right, e = .binary op left right → op.isComparison = true →
    ∀ ix, left = .param ix ∨ right = .param ix → ValueAt conversions parameters ix

/-- In every comparison of an expression the parameters that are operands store values other than
null. -/
def Expr.ComparesValues (conversions : Conversions) (parameters : List BoundParameter) (e : Expr) :
    Prop :=
  ∀ x ∈ e.walk, x.ComparesHere conversions parameters

theorem Expr.comparesValues_mk {n : Node Expr} :
    Expr.ComparesValues conversions ps ⟨n⟩ ↔ Expr.ComparesHere conversions ps ⟨n⟩ ∧
      ∀ c ∈ n.children, c.ComparesValues conversions ps := forall_walk_mk

theorem Expr.ComparesValues.mono {e : Expr} (h : e.ComparesValues conversions ps)
    (hkept : ps <+: qs) : e.ComparesValues conversions qs :=
  fun x hx op left right heq hop ix hix => (h x hx op left right heq hop ix hix).mono hkept

/-! ### Expressions -/

namespace Scope

variable {s : Scope}

/-- A placeholder comes from an interpolated value. -/
theorem reads_param {e : Expr} {expected : FieldType} {ix : Nat} (hnone : e.details .numbers = [])
    (h : s.Reads e expected ps (.param ix) qs) :
    ∃ v p, e = .pin v ∧ p.Stores s.ctx.conversions (v, s.site.clause) ∧ qs[ix]? = some p := by
  obtain ⟨n⟩ := e
  rcases reads_stores h with
    ⟨v, p, rfl, -, hstores, ha, rfl⟩ | ⟨left, values, left', rs, added, -, -, -, ha, -⟩ |
    ⟨-, cs, m, -, ha, hshape, -⟩
  · obtain rfl := Node.param.inj (congrArg Expr.node ha)
    exact ⟨v, p, rfl, hstores, by simp⟩
  · cases congrArg Expr.node ha
  · obtain rfl : Node.param ix = m := congrArg Expr.node ha
    have hdata := (Expr.details_eq_nil_mk.mp hnone).1
    rw [← Detail.data_of_shape_eq _ hshape] at hdata
    cases hdata

/-- Null is refused on both sides of a comparison. -/
theorem operands_ne_null {op : BinaryOp} {left right a : Expr} {expected : FieldType}
    (hop : op.isComparison = true) (h : s.Reads (.binary op left right) expected ps a qs) :
    left ≠ .pin .null ∧ right ≠ .pin .null := by
  have hrefused {text : String} {operand : Expr} {type : FieldType}
      (hok : (s.showing text).refuseNull operand type = .ok ()) : operand ≠ .pin .null := by
    rintro rfl
    cases hok
  generalize he : Expr.binary op left right = e at h
  cases h with
  | both =>
    obtain ⟨rfl, -, -⟩ := Node.binary.inj (congrArg Expr.node he)
    cases hop
  | bound text h =>
    subst he
    rw [bindExpr_mk] at h
    obtain ⟨⟨leftType, rightType⟩, -, hrest⟩ := yields_lift_bind.mp h
    simp only [hop, if_true] at hrest
    obtain ⟨⟨⟩, hleft, hrest⟩ := yields_lift_bind.mp hrest
    obtain ⟨⟨⟩, hright, -⟩ := yields_lift_bind.mp hrest
    exact ⟨hrefused hleft, hrefused hright⟩

/-- **A comparison that is read** compares no parameter that stores null. -/
theorem reads_comparison {op : BinaryOp} {left right a : Expr} {expected : FieldType}
    (hop : op.isComparison = true) (hleft : left.details .numbers = [])
    (hright : right.details .numbers = []) (h : s.Reads (.binary op left right) expected ps a qs) :
    a.ComparesHere s.ctx.conversions qs := by
  obtain ⟨hleftNull, hrightNull⟩ := operands_ne_null hop h
  have hoperand {e : Expr} {type : FieldType} {rs ts : List BoundParameter} {ix : Nat}
      (hnone : e.details .numbers = []) (hnull : e ≠ .pin .null)
      (hread : s.Reads e type rs (.param ix) ts) (hts : ts <+: qs) :
      ValueAt s.ctx.conversions qs ix := by
    obtain ⟨v, p, rfl, hstores, hp⟩ := reads_param hnone hread
    have hv : v ≠ .null := by
      rintro rfl
      exact hnull rfl
    exact ValueAt.mono ⟨p, hp, _, hv, hstores⟩ hts
  rcases reads_stores h with ⟨_, _, hn, -⟩ | ⟨_, _, _, _, _, hn, -⟩ |
    ⟨-, cs, m, hcs, rfl, hshape, hreads⟩
  · cases hn
  · cases hn
  · rintro op' left' right' heq - ix hix
    obtain rfl : m = .binary op' left' right' := congrArg Expr.node heq
    obtain ⟨types, -, rfl⟩ := Option.map_eq_some_iff.mp hcs
    have hkept := hreads.kept fun c _ _ _ _ => reads_appends c.1
    obtain ⟨⟨rs, ts, hread, hts⟩, hrest⟩ := List.forall₂_cons.mp hkept
    obtain ⟨⟨rs', ts', hread', hts'⟩, -⟩ := List.forall₂_cons.mp hrest
    rcases hix with rfl | rfl
    · exact hoperand hleft hleftNull hread hts
    · exact hoperand hright hrightNull hread' hts'

/-- **Reading an expression** that has no placeholder yet leaves no comparison with a parameter that
stores null. -/
theorem reads_compares (e : Expr) : e.details .numbers = [] →
    ∀ expected ps a qs, s.Reads e expected ps a qs → a.ComparesValues s.ctx.conversions qs := by
  refine Expr.induction (P := fun e => e.details .numbers = [] →
    ∀ expected ps a qs, s.Reads e expected ps a qs →
      a.ComparesValues s.ctx.conversions qs) ?_ e
  intro n ih hnone expected ps a qs hread
  obtain ⟨-, hchildren⟩ := Expr.details_eq_nil_mk.mp hnone
  rcases reads_cases hread with
    ⟨v, p, -, -, -, rfl, -⟩ | ⟨left, values, left', rs, added, rfl, hleft, -, rfl, rfl⟩ |
    ⟨-, cs, m, hcs, rfl, hshape, hreads⟩
  · exact Expr.comparesValues_mk.mpr ⟨nofun, by simp [Node.children]⟩
  · have hmem : left ∈ (Node.isIn left (.pin (.list values))).children := List.mem_cons_self
    have hside := ih left hmem (hchildren left hmem) _ _ _ _ hleft
    have hrange : (Expr.paramRange rs.length values.length).ComparesValues s.ctx.conversions
        (rs ++ added) := Expr.comparesValues_mk.mpr ⟨nofun, by simp [Node.children]⟩
    refine Expr.comparesValues_mk.mpr ⟨nofun, ?_⟩
    simpa [Node.children] using ⟨hside.mono (List.prefix_append rs added), hrange⟩
  · refine Expr.comparesValues_mk.mpr ⟨?_, ?_⟩
    · intro op left' right' heq hop
      obtain rfl : m = .binary op left' right' := congrArg Expr.node heq
      cases n with
      | binary op' left right =>
        obtain rfl : op = op' := by simpa [Node.shape, Node.map] using hshape
        exact reads_comparison hop (hchildren left (by simp [Node.children]))
          (hchildren right (by simp [Node.children])) hread op left' right' rfl hop
      | _ => cases hshape
    · refine hreads.forall_kept (P := fun ps a => a.ComparesValues s.ctx.conversions ps)
        (fun c _ _ _ _ => reads_appends c.1) (fun _ _ _ hkept h => h.mono hkept) ?_
      intro c hc ps a qs hread
      have hmem : c.1 ∈ n.children := children_of_typedChildren hcs ▸ List.mem_map_of_mem hc
      exact ih c.1 hmem (hchildren c.1 hmem) _ _ _ _ hread

end Scope

/-! ### Queries -/

/-- **Planning a query** that has no placeholder yet leaves no comparison with a parameter that
stores null, at any depth. -/
theorem Query.plan_compares (q : Query) : q.slots .all = [] → ∀ (ctx : Context) ps t qs,
    (q.plan ctx).Yields ps t qs → t.All (Expr.ComparesValues ctx.conversions qs) := by
  refine Query.induction_items (P := fun q => q.slots .all = [] → ∀ (ctx : Context) ps t qs,
    (q.plan ctx).Yields ps t qs → t.All (Expr.ComparesValues ctx.conversions qs)) ?_ q
  intro c ih hnone ctx ps t qs h
  obtain ⟨b, hb, -, hchain⟩ := Query.plan_cases h
  have hknown := Query.prepared_unplaced hb hnone ih
  refine Query.all_of_results (hchain.forall_kept
    (P := fun ps i => i.All (Expr.ComparesValues ctx.conversions ps))
    (fun task _ ps i qs hperforms => Query.performs_appends hperforms)
    (fun rs ts i hkept h => ?_) ?_)
  · exact Item.all_iff.mpr fun e he => (Item.all_iff.mp h e he).mono hkept
  · intro task htask ps i qs hperforms
    exact Task.performs_cases (S := fun i => i.All (Expr.ComparesValues ctx.conversions qs))
      hperforms (Clauses.forall_tasks hknown _ task htask)
      (fun e type a he _ hread => Scope.reads_compares e he type ps a qs hread)
      (fun q t hq hyields => hq (ctx.nested c.queryPrefix) ps t qs hyields)

/-! ### Plans -/

/-- **No comparison has null for a parameter.**  In a plan of a query without placeholders of its
own, take a comparison anywhere in the planned query, at any depth of nesting, and a placeholder
that is an operand of it.  The parameter of the placeholder stores a value other than null, and if
its type is built in, its stored form is not null either. -/
theorem Planner.plan_comparisons {p : Planner} {q : Query} {operation : Operation}
    {caps : Capabilities} {plan : Plan} (hquery : q.slots .all = [])
    (hplan : p.plan q operation caps = .ok plan) :
    ∀ e ∈ plan.query.reading operation, ∀ op left right, .binary op left right ∈ e.walk →
      op.isComparison = true → ∀ ix, left = .param ix ∨ right = .param ix →
        ∃ parameter, plan.parameters[ix]? = some parameter ∧
          (∃ given : Value × Clause, given.1 ≠ .null ∧ parameter.Stores p.conversions given) ∧
          (parameter.type.Builtin p.conversions → parameter.value ≠ .null) := by
  obtain ⟨hyields, -⟩ := Planner.plan_cases hplan
  have hall := q.plan_compares hquery _ _ _ _ hyields
  intro e he op left right hmem hop ix hix
  obtain ⟨parameter, hparameter, given, hgiven, hstores⟩ :=
    hall e (Query.mem_reading.mp he) _ hmem op left right rfl hop ix hix
  refine ⟨parameter, hparameter, ⟨given, hgiven, hstores⟩, fun hbuiltin => ?_⟩
  obtain ⟨-, logical, hcast, hdump⟩ := hstores
  exact hbuiltin.ne_null hcast hdump hgiven

/-- Users with a name and an age. -/
def Planner.ofUsers : Planner where
  registry := Registry.empty.insert
    (((Schema.ofTable "User" "users").field "name" .string).field "age" .integer)
  conversions := .builtin

/-- The rows of a table of users of a given name, if they are of age. -/
def Query.adultsNamed (name : Value) : Query :=
  ((Query.ofTable "named").withCte "named"
    ((Query.ofSchema "users" "User").filter (.keywords [("name", name)])) false).filter
      ((Expr.field 0 "age").gte (.pin (.int 18)))

/-- The comparison of a name with the first placeholder. -/
def Expr.comparesName : Expr → Bool
  | .binary .eq (.field _ name) (.param ix) => name == "name" && ix == 0
  | _ => false

/-- A name that is given as a keyword in a nested query is compared with, and it is not null. -/
theorem Planner.plan_comparisons_named :
    ∃ plan, ofUsers.plan (.adultsNamed (.string "Ann")) .all
        Dialect.postgres.capabilities = .ok plan ∧
      (plan.query.reading .all).map Expr.render = ["&0.name == ?0", "&0.age >= ?1"] ∧
      ∃ parameter, plan.parameters[0]? = some parameter ∧ parameter.value ≠ .null := by
  have hplanned : (ofUsers.plan (.adultsNamed (.string "Ann")) .all
      Dialect.postgres.capabilities).toOption.map (fun plan =>
        ((plan.query.reading .all).map Expr.render,
          (plan.query.reading .all).any Expr.comparesName,
          plan.parameters[0]?.map BoundParameter.type)) =
      some (["&0.name == ?0", "&0.age >= ?1"], true, some .string) := by
    decide +kernel
  obtain ⟨plan, hplan, hfacts⟩ := Option.map_eq_some_iff.mp hplanned
  have hok := Except.toOption_eq_some_iff.mp hplan
  simp only [Prod.mk.injEq] at hfacts
  obtain ⟨hrender, hcompares, htype⟩ := hfacts
  obtain ⟨e, he, hname⟩ := List.any_eq_true.mp hcompares
  refine ⟨plan, hok, hrender, ?_⟩
  unfold Expr.comparesName at hname
  split at hname
  · next ix name k =>
    have hk : k = 0 := by simp_all
    subst hk
    have hself : Expr.binary .eq (.field ix name) (.param 0) ∈
        (Expr.binary .eq (.field ix name) (.param 0)).walk := by
      rw [Expr.walk_mk]
      exact List.mem_cons_self
    obtain ⟨parameter, hparameter, -, hvalue⟩ :=
      plan_comparisons (by decide +kernel) hok _ he .eq _ _ hself rfl 0 (.inr rfl)
    rw [hparameter, Option.map_some, Option.some.injEq] at htype
    exact ⟨parameter, hparameter, hvalue (htype ▸ .string)⟩
  · cases hname

end QueryPlanner
