import QueryPlanner.Proofs.Normal.Form
import QueryPlanner.Proofs.Plan.Nested

/-!
# What an operation allows

Normalization accepts a planned query only if every level is lawful: it has no clause that its
operation does not allow, and an ordering of combined queries names no bindings.  The level itself
is there for the operation, nested ones are there for reading.  The checks that look for this refuse
nothing else.

* `Clauses.Allows`, `Clauses.Lawful` — what a level may hold
* `Query.Everywhere` — what holds of every level of a query
* `Clauses.checkOperation_iff`, `Clauses.checkCombinedOrder_iff` — each check decides its rule
* `Query.Planned.normalize_iff` — normalization accepts a query level by level
* `Planner.normalize_lawful` — what it accepts is lawful, and what is lawful passes the checks
-/

namespace QueryPlanner

open HasExprs

variable {σ : Type} {operation : Operation} {c : Clauses σ}

/-! ### The rules -/

/-- A node that names a binding. -/
inductive Node.NamesBinding {α : Type} : Node α → Prop
  | field (ix name) : NamesBinding (.field ix name)
  | binding (ix) : NamesBinding (.binding ix)
  | structOf (ix take) : NamesBinding (.structOf ix take)
  | mapOf (ix take) : NamesBinding (.mapOf ix take)

namespace Clauses

/-- A level without any clause that only reading allows. -/
structure OnlyFilters (c : Clauses σ) : Prop where
  distinct : c.distinct = none
  select : c.select = none
  groupBys : c.groupBys = []
  havings : c.havings = []
  windows : c.windows = []
  combinations : c.combinations = []
  orderBys : c.orderBys = []
  limit : c.limit = none
  offset : c.offset = none
  lock : c.lock = none
  preloads : c.preloads = []

/-- What an operation allows.  Reading takes no updates; deleting takes none either, and only
filters; updating takes only filters, and assigns some fields, none of them twice. -/
def Allows (c : Clauses σ) : Operation → Prop
  | .all => c.updates = []
  | .deleteAll => c.updates = [] ∧ c.OnlyFilters
  | .updateAll => c.updatedFields ≠ [] ∧ c.updatedFields.Nodup ∧ c.OnlyFilters

/-- A level that its operation allows, with an ordering that names no binding if there are set
operations. -/
structure Lawful (operation : Operation) (c : Clauses σ) : Prop where
  allows : c.Allows operation
  order : c.combinations ≠ [] → ∀ e, .expr e ∈ c.items .orderBy → ∀ x ∈ e.walk,
    ¬ x.node.NamesBinding

/-- A level that no check of what is lawful refuses. -/
structure Unrefused (operation : Operation) (c : Clauses σ) : Prop where
  operation : c.checkOperation operation = .ok ()
  order : c.checkCombinedOrder = .ok ()

end Clauses

/-- What normalization asks of a level besides: that it is planned, and that its references, its
preloads and its selection make sense. -/
structure Clauses.Coherent (ctx : Context) (c : Clauses Query) : Prop where
  planned : c.sources ≠ []
  references : c.Refers ctx
  preloads : ∃ u, c.checkPreloads ctx = .ok u
  projection : ∃ r, c.projectFor ctx = .ok r

/-- What holds of every level of a query, each in its own context. -/
inductive Query.Everywhere (P : Context → Clauses Query → Prop) : Context → Query → Prop
  | mk {ctx : Context} {c : Clauses Query} (level : P ctx c)
    (nested : ∀ q ∈ c.nested, Everywhere P (ctx.nested c.queryPrefix) q) : Everywhere P ctx ⟨c⟩

namespace Query.Everywhere

variable {P P' : Context → Clauses Query → Prop} {ctx : Context} {q : Query}

theorem imp (h : q.Everywhere P ctx) (hP : ∀ ctx c, P ctx c → P' ctx c) : q.Everywhere P' ctx := by
  induction h with
  | mk level _ ih => exact .mk (hP _ _ level) ih

theorem and (h : q.Everywhere P ctx) (h' : q.Everywhere P' ctx) :
    q.Everywhere (fun ctx c => P ctx c ∧ P' ctx c) ctx := by
  induction h with
  | mk level _ ih =>
    obtain @⟨_, _, level', nested'⟩ := h'
    exact .mk ⟨level, level'⟩ fun q hq => ih q hq (nested' q hq)

theorem level (h : q.Everywhere P ctx) : P ctx q.clauses := by
  obtain @⟨_, _, level, -⟩ := h
  exact level

theorem nested (h : q.Everywhere P ctx) : ∀ inner ∈ q.clauses.nested,
    inner.Everywhere P (ctx.nested q.clauses.queryPrefix) := by
  obtain @⟨_, _, -, nested⟩ := h
  exact nested

end Query.Everywhere

/-! ### The checks -/

theorem Expr.usesBinding_iff {e : Expr} : e.usesBinding = true ↔ e.node.NamesBinding := by
  obtain ⟨n⟩ := e
  constructor
  · intro h
    cases n <;> first | constructor | cases h
  · rintro (_ | _ | _ | _) <;> rfl

namespace Clauses

/-- A list that is searched for repetitions without success has none. -/
theorem firstRepeated?_eq_none {names : List String} : ∀ {seen : List String},
    firstRepeated? seen names = none ↔ names.Nodup ∧ ∀ name ∈ names, name ∉ seen := by
  induction names with
  | nil => simp [firstRepeated?]
  | cons name names ih =>
    intro seen
    rw [firstRepeated?, List.nodup_cons, List.forall_mem_cons]
    by_cases hseen : name ∈ seen
    · simp [hseen]
    · simp only [List.contains_iff_mem, hseen, if_false, ih, List.mem_cons, not_or,
        not_false_eq_true, true_and]
      constructor
      · rintro ⟨hnodup, hnew⟩
        exact ⟨⟨fun hmem => (hnew name hmem).1 rfl, hnodup⟩,
          fun other hother => (hnew other hother).2⟩
      · rintro ⟨⟨hname, hnodup⟩, hnew⟩
        exact ⟨hnodup, fun other hother => ⟨fun heq => hname (heq ▸ hother), hnew other hother⟩⟩

theorem checkNoUpdate_iff : c.checkNoUpdate operation = .ok () ↔ c.updates = [] := by
  unfold checkNoUpdate
  cases c.updates <;> simp

theorem checkOnlyFilters_iff : c.checkOnlyFilters operation = .ok () ↔ c.OnlyFilters := by
  have hnone : c.checkOnlyFilters operation = .ok () ↔ c.readClauses.find? (·.2) = none := by
    unfold checkOnlyFilters
    cases c.readClauses.find? (·.2) <;> simp
  rw [hnone, List.find?_eq_none]
  simp only [readClauses, List.forall_mem_cons, Bool.not_eq_true, Option.isSome_eq_false_iff,
    Option.isNone_iff_eq_none, Bool.not_eq_eq_eq_not, Bool.not_false, List.isEmpty_iff]
  constructor
  · rintro ⟨distinct, select, groupBys, havings, windows, combinations, orderBys, limit, offset,
      lock, preloads, -⟩
    exact ⟨distinct, select, groupBys, havings, windows, combinations, orderBys, limit, offset,
      lock, preloads⟩
  · rintro ⟨distinct, select, groupBys, havings, windows, combinations, orderBys, limit, offset,
      lock, preloads⟩
    exact ⟨distinct, select, groupBys, havings, windows, combinations, orderBys, limit, offset,
      lock, preloads, List.forall_mem_nil _⟩

theorem checkUpdates_iff :
    c.checkUpdates = .ok () ↔ c.updatedFields ≠ [] ∧ c.updatedFields.Nodup := by
  have hnodup : c.updatedFields.Nodup ↔ firstRepeated? [] c.updatedFields = none := by
    simp [firstRepeated?_eq_none]
  rw [hnodup, checkUpdates]
  cases hfields : c.updatedFields with
  | nil => simp
  | cons name names => cases firstRepeated? [] (name :: names) <;> simp

/-- **The check of an operation** passes just if the operation allows the level. -/
theorem checkOperation_iff : c.checkOperation operation = .ok () ↔ c.Allows operation := by
  cases operation with
  | all => exact checkNoUpdate_iff
  | deleteAll =>
    rw [checkOperation, Except.bind_eq_ok, Unique.exists_iff]
    exact and_congr checkNoUpdate_iff checkOnlyFilters_iff
  | updateAll =>
    rw [checkOperation, Except.bind_eq_ok, Unique.exists_iff]
    exact (and_congr checkUpdates_iff checkOnlyFilters_iff).trans and_assoc

/-- **The check of an ordering** passes just if it names no binding, or if nothing is combined. -/
theorem checkCombinedOrder_iff : c.checkCombinedOrder = .ok () ↔ (c.combinations ≠ [] →
    ∀ e, .expr e ∈ c.items .orderBy → ∀ x ∈ e.walk, ¬ x.node.NamesBinding) := by
  have hok : c.checkCombinedOrder = .ok () ↔ ∃ u, c.checkCombinedOrder = .ok u :=
    ⟨fun h => ⟨(), h⟩, fun ⟨_, h⟩ => h⟩
  have hwalk : ∀ e : Expr, e.any Expr.usesBinding = false ↔
      ∀ x ∈ e.walk, ¬ x.node.NamesBinding := by
    intro e
    simp only [Expr.any, List.any_eq_false, Expr.usesBinding_iff]
  rw [hok, checkCombinedOrder_ok, or_iff_not_imp_left]
  simp only [hwalk, items, Item.expr_mem_ofExprs, ne_eq]

theorem lawful_iff : c.Lawful operation ↔ c.Unrefused operation :=
  ⟨fun h => ⟨checkOperation_iff.mpr h.allows, checkCombinedOrder_iff.mpr h.order⟩,
    fun h => ⟨checkOperation_iff.mp h.operation, checkCombinedOrder_iff.mp h.order⟩⟩

end Clauses

/-! ### Planned queries -/

theorem Clauses.accepted_iff {ctx : Context} {c : Clauses Query} :
    c.Accepted ctx ↔ c.Lawful ctx.operation ∧ c.Coherent ctx := by
  rw [lawful_iff]
  constructor
  · rintro ⟨hbound, ⟨_, hoperation⟩, ⟨_, horder⟩, hreferences, hpreloads, hprojection⟩
    exact ⟨⟨hoperation, horder⟩, ⟨by simpa using hbound, hreferences, hpreloads, hprojection⟩⟩
  · rintro ⟨⟨hoperation, horder⟩, ⟨hplanned, hreferences, hpreloads, hprojection⟩⟩
    exact ⟨by simpa using hplanned, ⟨(), hoperation⟩, ⟨(), horder⟩, hreferences, hpreloads,
      hprojection⟩

/-- A planned query is accepted if all its levels are. -/
theorem Query.Planned.normalize_iff {q : Query} (hq : q.Planned) : ∀ ctx : Context,
    (∃ r, q.normalize ctx = .ok r) ↔ q.Everywhere Clauses.Accepted ctx := by
  induction hq with
  | @mk c level _ ih =>
    intro ctx
    rw [normalize_ok level.select]
    constructor
    · rintro ⟨haccepted, hnested⟩
      refine .mk haccepted fun q hq => ?_
      obtain ⟨clause, hitem⟩ := Clauses.mem_nested.mp hq
      exact (ih clause q hitem (ctx.nested _)).mp (hnested clause q hitem)
    · intro h
      refine ⟨h.level, fun clause q hitem => (ih clause q hitem (ctx.nested _)).mpr ?_⟩
      exact h.nested q (Clauses.mem_nested.mpr ⟨clause, hitem⟩)

/-- **What is accepted is lawful**, and what is lawful is not refused for it.  Take a plan of any
query, and any operation.  The plan is normalized just if all its levels are lawful, its own one for
the operation and the nested ones for reading, and all of them are coherent.  They are lawful just
if the checks of normalization for what is lawful pass at all of them.

Lawful is a level for reading if it has no update entry.  For deleting, it has none either, and none
of `distinct`, `select`, `group_by`, `having`, `windows`, `combinations`, `order_by`, `limit`,
`offset`, `lock` and preloads.  For updating, it has none of these, it assigns a field, and no field
twice.  In any case, beside set operations nothing in its `order_by` names a binding. -/
theorem Planner.normalize_lawful (p : Planner) (query : Query) (planned operation : Operation)
    (caps caps' : Capabilities) (plan : Plan) (hplan : p.plan query planned caps = .ok plan) :
    ((∃ normalized, p.normalize plan.query operation caps' = .ok normalized) ↔
      plan.query.Everywhere (fun ctx => Clauses.Lawful ctx.operation) (p.context operation caps') ∧
        plan.query.Everywhere Clauses.Coherent (p.context operation caps')) ∧
    (plan.query.Everywhere (fun ctx => Clauses.Lawful ctx.operation) (p.context operation caps') ↔
      plan.query.Everywhere (fun ctx => Clauses.Unrefused ctx.operation)
        (p.context operation caps')) := by
  have hplanned := query.plan_planned _ _ _ _ (plan_cases hplan).1
  refine ⟨(hplanned.normalize_iff _).trans ⟨fun h => ⟨?_, ?_⟩, fun ⟨hlawful, hcoherent⟩ => ?_⟩,
    fun h => ?_, fun h => ?_⟩
  · exact h.imp fun _ _ haccepted => (Clauses.accepted_iff.mp haccepted).1
  · exact h.imp fun _ _ haccepted => (Clauses.accepted_iff.mp haccepted).2
  · exact (hlawful.and hcoherent).imp fun _ _ => Clauses.accepted_iff.mpr
  · exact h.imp fun _ _ => Clauses.lawful_iff.mp
  · exact h.imp fun _ _ => Clauses.lawful_iff.mpr

/-- Posts with another title and a view more, beside what is archived. -/
def Query.viewedPosts : Query :=
  (((Query.ofTable "posts").update .set [("title", .literal (.string "t"))]).update .inc
    [("views", .literal (.int 1))]).withCte "old"
      ((Query.ofTable "archive").select (.field 0 "id")) false

/-- Posts to be deleted, beside archived ones that get another title. -/
def Query.purgedPosts : Query :=
  (Query.ofTable "posts").withCte "old"
    ((Query.ofTable "archive").update .set [("title", .literal (.string "t"))]) false

/-- A bulk update that assigns two fields is accepted.  A bulk delete is refused for the update
entry in its common table expression. -/
theorem Planner.normalize_lawful_bulk :
    (∃ plan normalized, (⟨.empty, .builtin, none, {}⟩ : Planner).plan .viewedPosts .updateAll
        Dialect.postgres.capabilities = .ok plan ∧
      (⟨.empty, .builtin, none, {}⟩ : Planner).normalize plan.query .updateAll
        Dialect.postgres.capabilities = .ok normalized ∧
      plan.query.Everywhere (fun ctx => Clauses.Lawful ctx.operation)
        ((⟨.empty, .builtin, none, {}⟩ : Planner).context .updateAll
          Dialect.postgres.capabilities)) ∧
    ∃ plan, (⟨.empty, .builtin, none, {}⟩ : Planner).plan .purgedPosts .deleteAll
        Dialect.postgres.capabilities = .ok plan ∧
      ∀ normalized, (⟨.empty, .builtin, none, {}⟩ : Planner).normalize plan.query .deleteAll
        Dialect.postgres.capabilities ≠ .ok normalized := by
  constructor
  · have haccepted : ((⟨.empty, .builtin, none, {}⟩ : Planner).plan .viewedPosts .updateAll
        Dialect.postgres.capabilities).toOption.map (fun plan =>
          ((⟨.empty, .builtin, none, {}⟩ : Planner).normalize plan.query .updateAll
            Dialect.postgres.capabilities).toOption.isSome) = some true := by
      decide +kernel
    obtain ⟨plan, hplan, haccepted⟩ := Option.map_eq_some_iff.mp haccepted
    obtain ⟨normalized, hnormalized⟩ := Option.isSome_iff_exists.mp haccepted
    have hok := Except.toOption_eq_some_iff.mp hplan
    have hnormal := Except.toOption_eq_some_iff.mp hnormalized
    have hlawful := (Planner.normalize_lawful _ _ .updateAll .updateAll _ _ plan hok).1.mp
      ⟨normalized, hnormal⟩
    exact ⟨plan, normalized, hok, hnormal, hlawful.1⟩
  · have hupdates : ((⟨.empty, .builtin, none, {}⟩ : Planner).plan .purgedPosts .deleteAll
        Dialect.postgres.capabilities).toOption.map
          (·.query.clauses.nested.map (·.clauses.updates.length)) = some [1] := by
      decide +kernel
    obtain ⟨plan, hplan, hupdates⟩ := Option.map_eq_some_iff.mp hupdates
    have hok := Except.toOption_eq_some_iff.mp hplan
    refine ⟨plan, hok, fun normalized hnormal => ?_⟩
    obtain ⟨hlawful, -⟩ := (Planner.normalize_lawful _ _ .deleteAll .deleteAll _ _ plan hok).1.mp
      ⟨normalized, hnormal⟩
    obtain ⟨inner, rest, hinner, hcount, -⟩ := List.map_eq_cons_iff.mp hupdates
    have hnone : inner.clauses.updates = [] :=
      (hlawful.nested inner (hinner ▸ List.mem_cons_self)).level.allows
    rw [hnone] at hcount
    cases hcount

end QueryPlanner
