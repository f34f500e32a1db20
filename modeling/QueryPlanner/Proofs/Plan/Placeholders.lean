import QueryPlanner.Conversion.BinaryId
import QueryPlanner.Proofs.Plan.Query
import QueryPlanner.Query.Builder

/-!
# Placeholders enumerate the parameters

Every step of planning that adds parameters puts their placeholders where it stands, so the
placeholders of a planned query, read in the order of the operation, run through the positions of
the list of parameters.  Nothing that is interpolated remains.

* `Slot.Tiles` — runs of placeholders that follow one another
* `Scope.reads_tiles` — an expression's placeholders are the parameters that reading it adds
* `Planner.plan_placeholders` — the placeholders of a plan are `0, 1, …` in reading order
-/

namespace QueryPlanner

open Binder

variable {α β δ : Type} {ps qs : List BoundParameter}

/-! ### Runs in a row -/

namespace Slot

/-- Runs that follow one another without a gap, from `a` up to `b`. -/
def Tiles : List Slot → Nat → Nat → Prop
  | [], a, b => a = b
  | s :: slots, a, b => s.start = a ∧ Tiles slots (a + s.length) b

theorem tiles_single (start length : Nat) : Tiles [⟨start, length⟩] start (start + length) :=
  ⟨rfl, rfl⟩

theorem Tiles.append {slots slots' : List Slot} {a b c : Nat} (h : Tiles slots a b)
    (h' : Tiles slots' b c) : Tiles (slots ++ slots') a c := by
  induction slots generalizing a with
  | nil =>
    obtain rfl : a = b := h
    exact h'
  | cons s slots ih => exact ⟨h.1, ih h.2⟩

theorem Tiles.le {slots : List Slot} {a b : Nat} (h : Tiles slots a b) : a ≤ b := by
  induction slots generalizing a with
  | nil => exact Nat.le_of_eq h
  | cons s slots ih => exact Nat.le_trans (Nat.le_add_right a s.length) (ih h.2)

/-- Runs in a row stand for every number between their ends, once and in order. -/
theorem Tiles.indices {slots : List Slot} {a b : Nat} (h : Tiles slots a b) :
    slots.flatMap Slot.indices = List.range' a (b - a) := by
  induction slots generalizing a with
  | nil =>
    obtain rfl : a = b := h
    simp
  | cons s slots ih =>
    have hle := h.2.le
    have hsplit : b - a = s.length + (b - (a + s.length)) := by omega
    rw [List.flatMap_cons, ih h.2, Slot.indices, h.1, hsplit, List.range'_append_1]

/-- A run starts after as many placeholders as stand before it. -/
theorem Tiles.start_eq {before after : List Slot} {s : Slot} {a b : Nat}
    (h : Tiles (before ++ s :: after) a b) :
    s.start = a + (before.flatMap Slot.indices).length := by
  induction before generalizing a with
  | nil => simpa using h.1
  | cons r before ih =>
    rw [ih h.2, List.flatMap_cons, List.length_append, Slot.indices, List.length_range']
    omega

end Slot

open Slot

/-- Steps in a row tile what they add together. -/
theorem Chain.tiles {R : α → List BoundParameter → β → List BoundParameter → Prop}
    {slots : β → List Slot} {xs : List α} {ys : List β} (h : Chain R xs ps ys qs)
    (hR : ∀ x ∈ xs, ∀ ps y qs, R x ps y qs → Tiles (slots y) ps.length qs.length) :
    Tiles (ys.flatMap slots) ps.length qs.length := by
  induction h with
  | nil => rfl
  | cons head _ ih =>
    rw [List.flatMap_cons]
    exact (hR _ List.mem_cons_self _ _ _ head).append
      (ih fun x hx => hR x (List.mem_cons_of_mem _ hx))

/-! ### Expressions -/

/-- An interpolated value, expression or keyword list. -/
def Node.interpolates : Node α → Bool
  | .pin _ | .dynamic _ | .keywords _ => true
  | _ => false

/-- An expression from which every interpolation has been extracted. -/
def Expr.Extracted (e : Expr) : Prop := ∀ x ∈ e.walk, x.node.interpolates = false

theorem Expr.extracted_mk {n : Node Expr} :
    Expr.Extracted ⟨n⟩ ↔ n.interpolates = false ∧ ∀ c ∈ n.children, c.Extracted := forall_walk_mk

theorem Node.interpolates_map (f : α → β) (n : Node α) :
    (n.map f).interpolates = n.interpolates := by
  cases n <;> rfl

theorem Node.interpolates_of_shape_eq {n : Node α} {m : Node β} (h : m.shape = n.shape) :
    m.interpolates = n.interpolates := by
  rw [← interpolates_map (fun _ => ()) m, ← interpolates_map (fun _ => ()) n]
  exact congrArg interpolates h

theorem Node.Plain.interpolates {n : Node Expr} (h : n.Plain) : n.interpolates = false := by
  cases n <;> first | rfl | cases h

/-- Nodes of one shape carry the same data of any detail. -/
theorem Detail.data_of_shape_eq (d : Detail δ) {n : Node α} {m : Node β}
    (h : m.shape = n.shape) : d.data m = d.data n := by
  rw [← d.data_map (fun _ => ()) m, ← d.data_map (fun _ => ()) n]
  exact congrArg d.data h

/-- An expression without a detail has children without it. -/
theorem Expr.details_eq_nil_mk {d : Detail δ} {n : Node Expr} :
    Expr.details d ⟨n⟩ = [] ↔ d.data n = [] ∧ ∀ c ∈ n.children, c.details d = [] := by
  rw [details_mk, List.append_eq_nil_iff, List.flatMap_eq_nil_iff]

theorem Expr.details_param (ix : Nat) : Expr.details .numbers (.param ix) = [⟨ix, 1⟩] := by
  rw [details_mk]
  rfl

theorem Expr.details_paramRange (start length : Nat) :
    Expr.details .numbers (.paramRange start length) = [⟨start, length⟩] := by
  rw [details_mk]
  rfl

/-- Reading an expression leaves nothing interpolated. -/
theorem Scope.reads_extracted {s : Scope} (e : Expr) :
    ∀ expected ps a qs, s.Reads e expected ps a qs → a.Extracted := by
  refine Expr.induction (P := fun e =>
    ∀ expected ps a qs, s.Reads e expected ps a qs → a.Extracted) ?_ e
  intro n ih expected ps a qs hread
  rcases reads_cases hread with
    ⟨v, p, -, -, -, rfl, rfl⟩ | ⟨left, values, left', rs, added, rfl, hleft, -, rfl, rfl⟩ |
    ⟨hplain, cs, m, hcs, rfl, hshape, hreads⟩
  · exact Expr.extracted_mk.mpr ⟨rfl, by simp [Node.children]⟩
  · have hextracted := ih left List.mem_cons_self _ _ _ _ hleft
    refine Expr.extracted_mk.mpr ⟨rfl, fun c hc => ?_⟩
    simp only [Node.children, List.mem_cons, List.not_mem_nil, or_false] at hc
    rcases hc with rfl | rfl
    · exact hextracted
    · exact Expr.extracted_mk.mpr ⟨rfl, by simp [Node.children]⟩
  · refine Expr.extracted_mk.mpr
      ⟨(Node.interpolates_of_shape_eq hshape).trans hplain.interpolates, ?_⟩
    exact hreads.forall_results fun c hc ps a qs hread =>
      ih c.1 (children_of_typedChildren hcs ▸ List.mem_map_of_mem hc) _ _ _ _ hread

/-- **Reading an expression** that has no placeholder yet puts the placeholders of the parameters
that it adds in their places, in order. -/
theorem Scope.reads_tiles {s : Scope} (e : Expr) : e.details .numbers = [] →
    ∀ expected ps a qs, s.Reads e expected ps a qs →
      Tiles (a.details .numbers) ps.length qs.length := by
  refine Expr.induction (P := fun e => e.details .numbers = [] →
    ∀ expected ps a qs, s.Reads e expected ps a qs →
      Tiles (a.details .numbers) ps.length qs.length) ?_ e
  intro n ih hnone expected ps a qs hread
  obtain ⟨hdata, hchildren⟩ := Expr.details_eq_nil_mk.mp hnone
  rcases reads_cases hread with
    ⟨v, p, -, -, -, rfl, rfl⟩ | ⟨left, values, left', rs, added, rfl, hleft, hlength, rfl, rfl⟩ |
    ⟨-, cs, m, hcs, rfl, hshape, hreads⟩
  · rw [Expr.details_param, List.length_append]
    exact tiles_single ps.length 1
  · have hmem : left ∈ (Node.isIn left (.pin (.list values))).children := List.mem_cons_self
    have htiles := ih left hmem (hchildren left hmem) _ _ _ _ hleft
    have hrange : Tiles (Expr.details .numbers (.paramRange rs.length values.length)) rs.length
        (rs ++ added).length := by
      rw [Expr.details_paramRange, List.length_append, hlength]
      exact tiles_single rs.length values.length
    rw [Expr.details_mk]
    simpa [Detail.numbers, Node.children] using htiles.append hrange
  · rw [Expr.details_mk, Detail.data_of_shape_eq _ hshape, hdata, List.nil_append]
    refine hreads.tiles fun c hc ps a qs hread => ?_
    have hmem : c.1 ∈ n.children := children_of_typedChildren hcs ▸ List.mem_map_of_mem hc
    exact ih c.1 hmem (hchildren c.1 hmem) _ _ _ _ hread

/-! ### Queries -/

theorem Item.details_expr (d : Detail δ) (e : Expr) : (Item.expr e).details d = e.details d :=
  List.flatMap_singleton ..

/-- A query without a detail has items without it. -/
theorem Query.details_eq_nil_mk {d : Detail δ} {c : Clauses Query} {operation : Operation} :
    Query.details d operation ⟨c⟩ = [] ↔ ∀ clause, ∀ i ∈ c.items clause, i.details d = [] := by
  simp only [details_mk, List.flatMap_eq_nil_iff, Operation.mem_clauseOrder]
  constructor
  · intro h clause i hi
    refine h clause ?_ i hi
    rintro rfl
    cases hi
  · exact fun h clause _ i hi => h clause i hi

namespace Expr

theorem details_binary_eq_nil {op : BinaryOp} {left right : Expr}
    (hleft : left.details .numbers = []) (hright : right.details .numbers = []) :
    (Expr.binary op left right).details .numbers = [] := by
  refine details_eq_nil_mk.mpr ⟨rfl, fun c hc => ?_⟩
  simp only [Node.children, List.mem_cons, List.not_mem_nil, or_false] at hc
  rcases hc with rfl | rfl
  · exact hleft
  · exact hright

theorem details_keywordTest (ix : Nat) (pair : String × Value) :
    (keywordTest ix pair).details .numbers = [] :=
  details_binary_eq_nil (details_of_inert Detail.sparesInert_numbers _ (inert_field ix pair.1))
    (details_eq_nil_mk.mpr ⟨rfl, fun _ h => nomatch h⟩)

/-- Writing a condition out makes no placeholder. -/
theorem details_opened (ix : Nat) (e : Expr) (h : e.details .numbers = []) :
    (e.opened ix).details .numbers = [] := by
  obtain ⟨n⟩ := e
  cases n with
  | dynamic inner => exact (details_eq_nil_mk.mp h).2 inner (List.mem_singleton_self inner)
  | keywords pairs =>
    have hfold : ∀ (pairs : List (String × Value)) (first : Expr), first.details .numbers = [] →
        ((pairs.map (keywordTest ix)).foldl Expr.and first).details .numbers = [] := by
      intro pairs
      induction pairs with
      | nil => exact fun first hfirst => hfirst
      | cons pair pairs ih =>
        exact fun first hfirst => ih _ (details_binary_eq_nil hfirst (details_keywordTest ix pair))
    cases pairs with
    | nil => exact details_of_inert Detail.sparesInert_numbers _ (inert_literal _)
    | cons pair pairs => exact hfold pairs _ (details_keywordTest ix pair)
  | _ => exact h

end Expr

theorem Query.unplaced_items {c : Clauses Query} (hnone : Query.slots .all ⟨c⟩ = []) :
    ∀ clause, ∀ i ∈ c.items clause,
      i.Holds (fun e => e.details .numbers = []) fun q => q.slots .all = [] := by
  intro clause i hi
  have hitem := Query.details_eq_nil_mk.mp hnone clause i hi
  cases i with
  | expr e => exact (Item.details_expr .numbers e).symm.trans hitem
  | nested q => exact hitem

/-- A level without placeholders is prepared as one without them. -/
theorem Query.prepared_unplaced {ctx : Context} {c : Clauses Query} {b : Bindings Query}
    {R : Query → Prop} (hb : c.resolve ctx = .ok b) (hnone : Query.slots .all ⟨c⟩ = [])
    (hnested : ∀ clause q, .nested q ∈ c.items clause → q.slots .all = [] → R q) :
    ∀ clause, ∀ i ∈ (c.prepared b).items clause, i.Holds (fun e => e.details .numbers = []) R := by
  refine Clauses.prepared_forall hb (fun clause i hi => ?_) (fun hop parent ix => ?_)
    Expr.details_opened (fun _ _ => Expr.details_binary_eq_nil) (fun ix name => ?_)
  · have hitem := Query.unplaced_items hnone clause i hi
    cases i with
    | expr e => exact hitem
    | nested q => exact hnested clause q hi hitem
  · exact Expr.details_of_inert Detail.sparesInert_numbers _ (hop.inert_condition parent ix)
  · exact Expr.details_of_inert Detail.sparesInert_numbers _ (Expr.inert_field ix name)

/-- Planning a query leaves nothing interpolated, at any depth. -/
theorem Query.plan_extracted (q : Query) : ∀ (ctx : Context) ps t qs,
    (q.plan ctx).Yields ps t qs → t.All Expr.Extracted := by
  refine Query.induction_items (P := fun q => ∀ (ctx : Context) ps t qs,
    (q.plan ctx).Yields ps t qs → t.All Expr.Extracted) ?_ q
  intro c ih ctx ps t qs h
  obtain ⟨b, hb, -, hchain⟩ := Query.plan_cases h
  have hknown := Clauses.prepared_nested hb ih
  exact Query.all_of_results (hchain.forall_results fun task htask ps i qs hperforms =>
    Task.performs_cases (S := fun i => i.All Expr.Extracted) hperforms
      (Clauses.forall_tasks hknown _ task htask)
      (fun e type a _ _ hread => Scope.reads_extracted e type ps a qs hread)
      (fun q t hq hyields => hq _ ps t qs hyields))

/-- **Planning a query** that has no placeholder yet puts the placeholders of the parameters that it
adds in their places, in the order of the operation, and leaves nothing interpolated. -/
theorem Query.plan_tiles (q : Query) : q.slots .all = [] → ∀ (ctx : Context) ps t qs,
    (q.plan ctx).Yields ps t qs →
      Tiles (t.slots ctx.operation) ps.length qs.length ∧ t.All Expr.Extracted := by
  suffices h : q.slots .all = [] → ∀ (ctx : Context) ps t qs, (q.plan ctx).Yields ps t qs →
      Tiles (t.slots ctx.operation) ps.length qs.length from
    fun hnone ctx ps t qs hyields =>
      ⟨h hnone ctx ps t qs hyields, q.plan_extracted ctx ps t qs hyields⟩
  refine Query.induction_items (P := fun q => q.slots .all = [] → ∀ (ctx : Context) ps t qs,
    (q.plan ctx).Yields ps t qs → Tiles (t.slots ctx.operation) ps.length qs.length) ?_ q
  intro c ih hnone ctx ps t qs h
  obtain ⟨b, hb, -, hchain⟩ := Query.plan_cases h
  have hknown := Query.prepared_unplaced hb hnone ih
  have htiles := hchain.tiles fun task htask ps i qs hperforms =>
    Task.performs_cases (S := fun i => Tiles (i.details .numbers) ps.length qs.length) hperforms
      (Clauses.forall_tasks hknown _ task htask)
      (fun e type a he _ hread => by
        rw [Item.details_expr]
        exact Scope.reads_tiles e he type ps a qs hread)
      (fun q t hq hyields => hq _ ps t qs hyields)
  rw [List.flatMap_assoc] at htiles
  obtain ⟨d⟩ := t
  rw [Query.slots, Query.details_mk]
  exact htiles

/-- **The placeholders of a plan enumerate its parameters.**  For every query without placeholders
of its own, planned for any operation: read in the order of the operation, the placeholders are
`0, …, n - 1`, where `n` is the number of parameters; each run, even an empty one, starts at the
number of placeholders before it; and nothing interpolated remains at any depth. -/
theorem Planner.plan_placeholders (p : Planner) (q : Query) (operation : Operation)
    (caps : Capabilities) (plan : Plan) (hquery : q.slots .all = [])
    (hplan : p.plan q operation caps = .ok plan) :
    (plan.query.slots operation).flatMap Slot.indices = List.range plan.parameters.length ∧
    (∀ before s after, plan.query.slots operation = before ++ s :: after →
      s.start = (before.flatMap Slot.indices).length) ∧
    ∀ e ∈ plan.query.reading operation, ∀ x ∈ e.walk, x.node.interpolates = false := by
  obtain ⟨hyields, -⟩ := Planner.plan_cases hplan
  obtain ⟨htiles, hextracted⟩ := Query.plan_tiles q hquery _ _ _ _ hyields
  refine ⟨?_, fun before s after hslots => ?_, fun e he => ?_⟩
  · rw [List.range_eq_range']
    exact htiles.indices
  · have hstart := (hslots ▸ htiles : Tiles (before ++ s :: after) _ _).start_eq
    rwa [List.length_nil, Nat.zero_add] at hstart
  · exact hextracted e (Query.mem_reading.mp he)

/-- A joined subquery is read before the condition of its join, whose empty collection stands for no
parameter but has a place between those before and after it. -/
theorem Planner.plan_placeholders_subquery :
    ∃ plan, (⟨.empty, .builtin, none, {}⟩ : Planner).plan
        (((Query.ofTable "posts").innerJoin
          (.subquery ((Query.ofTable "users").filter ((Expr.field 0 "age").gt (.pin (.int 18)))))
          (.isIn (.field 0 "author") (.pin (.list [])))).filter
            ((Expr.field 0 "title").eq (.pin (.string "t"))))
        .all Dialect.postgres.capabilities = .ok plan ∧
      plan.query.slots .all = [⟨0, 1⟩, ⟨1, 0⟩, ⟨1, 1⟩] ∧
      (plan.query.slots .all).flatMap Slot.indices = List.range plan.parameters.length := by
  have hslots : ((⟨.empty, .builtin, none, {}⟩ : Planner).plan
      (((Query.ofTable "posts").innerJoin
        (.subquery ((Query.ofTable "users").filter ((Expr.field 0 "age").gt (.pin (.int 18)))))
        (.isIn (.field 0 "author") (.pin (.list [])))).filter
          ((Expr.field 0 "title").eq (.pin (.string "t"))))
      .all Dialect.postgres.capabilities).toOption.map (·.query.slots .all) =
        some [⟨0, 1⟩, ⟨1, 0⟩, ⟨1, 1⟩] := by
    decide +kernel
  obtain ⟨plan, hplan, hplanned⟩ := Option.map_eq_some_iff.mp hslots
  have hok := Except.toOption_eq_some_iff.mp hplan
  exact ⟨plan, hok, hplanned,
    (Planner.plan_placeholders _ _ .all _ plan (by decide +kernel) hok).1⟩

end QueryPlanner
