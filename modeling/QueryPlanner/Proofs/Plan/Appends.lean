import QueryPlanner.Proofs.Plan.Standalone

/-!
# Planning only appends

No step of planning changes a parameter that is bound or takes it back, so the parameters that a
step leaves are among the final ones, in their places.  What a step says of its own parameters can
therefore be read off the finished plan.

* `Chain.kept` — steps in a row, each with the parameters that it leaves
* `Scope.reads_child` — the children of an expression that is read
* `Query.plan_kept` — the items of a query that is planned
-/

namespace QueryPlanner

variable {α β : Type} {ps qs : List BoundParameter}

/-! ### Steps in a row -/

namespace Chain

variable {R : α → List BoundParameter → β → List BoundParameter → Prop} {xs : List α} {ys : List β}

theorem appends (h : Chain R xs ps ys qs) (hR : ∀ x ∈ xs, ∀ ps y qs, R x ps y qs → ps <+: qs) :
    ps <+: qs := by
  induction h with
  | nil => exact List.prefix_rfl
  | cons head _ ih =>
    exact (hR _ List.mem_cons_self _ _ _ head).trans
      (ih fun x hx => hR x (List.mem_cons_of_mem _ hx))

/-- Steps in a row yield one thing each. -/
theorem forall₂ (h : Chain R xs ps ys qs) :
    List.Forall₂ (fun x y => ∃ rs ts, R x rs y ts) xs ys := by
  induction h with
  | nil => exact .nil
  | cons head _ ih => exact .cons ⟨_, _, head⟩ ih

/-- The parameters that each of several steps leaves are left in the end. -/
theorem kept (h : Chain R xs ps ys qs) (hR : ∀ x ∈ xs, ∀ ps y qs, R x ps y qs → ps <+: qs) :
    List.Forall₂ (fun x y => ∃ rs ts, R x rs y ts ∧ ts <+: qs) xs ys := by
  induction h with
  | nil => exact .nil
  | cons head tail ih =>
    have hrest := fun x hx => hR x (List.mem_cons_of_mem _ hx)
    exact .cons ⟨_, _, head, tail.appends hrest⟩ (ih hrest)

/-- What is so of a result when its step is done is so in the end, if it stays so as parameters are
added. -/
theorem forall_kept {P : List BoundParameter → β → Prop} (h : Chain R xs ps ys qs)
    (happends : ∀ x ∈ xs, ∀ ps y qs, R x ps y qs → ps <+: qs)
    (hmono : ∀ rs ts y, rs <+: ts → P rs y → P ts y)
    (hP : ∀ x ∈ xs, ∀ ps y qs, R x ps y qs → P qs y) : ∀ y ∈ ys, P qs y := by
  induction h with
  | nil => exact List.forall_mem_nil _
  | cons head tail ih =>
    have hrest := fun x hx => happends x (List.mem_cons_of_mem _ hx)
    refine List.forall_mem_cons.mpr
      ⟨hmono _ _ _ (tail.appends hrest) (hP _ List.mem_cons_self _ _ _ head), ?_⟩
    exact ih hrest fun x hx => hP x (List.mem_cons_of_mem _ hx)

end Chain

/-- What is at a place of a list is related to what is there in a related list. -/
theorem List.exists_getElem?_of_forall₂ {R : α → β → Prop} {xs : List α} {ys : List β}
    (h : List.Forall₂ R xs ys) {i : Nat} {x : α} (hx : xs[i]? = some x) :
    ∃ y, ys[i]? = some y ∧ R x y := by
  obtain ⟨hi, rfl⟩ := List.getElem?_eq_some_iff.mp hx
  have hi' : i < ys.length := h.length_eq ▸ hi
  exact ⟨ys[i], List.getElem?_eq_getElem hi', h.get hi hi'⟩

/-- What is at a place of a prefix is there in the whole. -/
theorem List.getElem?_of_prefix {xs ys : List α} (h : xs <+: ys) {i : Nat} {x : α}
    (hx : xs[i]? = some x) : ys[i]? = some x := by
  obtain ⟨rest, rfl⟩ := h
  rw [List.getElem?_append_left (List.getElem?_eq_some_iff.mp hx).1, hx]

/-! ### Expressions -/

namespace Scope

variable {s : Scope}

theorem reads_appends (e : Expr) : ∀ {expected : FieldType} {ps a qs},
    s.Reads e expected ps a qs → ps <+: qs := by
  refine Expr.induction (P := fun e => ∀ {expected : FieldType} {ps a qs},
    s.Reads e expected ps a qs → ps <+: qs) ?_ e
  intro n ih expected ps a qs h
  rcases reads_cases h with
    ⟨v, p, -, -, -, -, rfl⟩ | ⟨left, values, left', rs, added, rfl, hleft, -, -, rfl⟩ |
    ⟨-, cs, m, hcs, -, -, hreads⟩
  · exact List.prefix_append ps [p]
  · exact (ih left List.mem_cons_self hleft).trans (List.prefix_append rs added)
  · refine hreads.appends fun c hc ps a qs => ?_
    exact ih c.1 (children_of_typedChildren hcs ▸ List.mem_map_of_mem hc)

/-- Each child of a plain node that is read is read in its place, with the type handed to it. -/
theorem reads_typedChild {n : Node Expr} {expected : FieldType} {a : Expr}
    {cs : List (Expr × FieldType)} {c : Expr × FieldType} {i : Nat} (hplain : n.Plain)
    (h : s.Reads ⟨n⟩ expected ps a qs) (hcs : s.typedChildren n expected = some cs)
    (hc : cs[i]? = some c) :
    ∃ rs a' ts, s.Reads c.1 c.2 rs a' ts ∧ a.node.children[i]? = some a' ∧ ts <+: qs := by
  rcases reads_cases h with
    ⟨v, p, rfl, -⟩ | ⟨left, values, left', rs, added, rfl, -⟩ | ⟨-, cs', m, hcs', rfl, -, hreads⟩
  · cases hplain
  · cases hplain
  · obtain rfl := Option.some.inj (hcs.symm.trans hcs')
    have hkept := hreads.kept fun c _ _ _ _ => reads_appends c.1
    obtain ⟨a', ha', rs, ts, hread, hts⟩ := List.exists_getElem?_of_forall₂ hkept hc
    exact ⟨rs, a', ts, hread, ha', hts⟩

/-- **Each child of an expression that is read** is read in its place, unless it is interpolated. -/
theorem reads_child {n : Node Expr} {expected : FieldType} {a c : Expr} {i : Nat}
    (h : s.Reads ⟨n⟩ expected ps a qs) (hc : n.children[i]? = some c) (hpin : ∀ v, c ≠ .pin v) :
    ∃ type rs a' ts, s.Reads c type rs a' ts ∧ a.node.children[i]? = some a' ∧ ts <+: qs := by
  rcases reads_cases h with
    ⟨v, p, rfl, -⟩ | ⟨left, values, left', rs, added, rfl, hleft, -, rfl, rfl⟩ |
    ⟨hplain, cs, m, hcs, -⟩
  · cases hc
  · match i, hc with
    | 0, hc =>
      obtain rfl : left = c := Option.some.inj hc
      exact ⟨.any, ps, left', rs, hleft, rfl, List.prefix_append rs added⟩
    | 1, hc => exact absurd (Option.some.inj hc).symm (hpin _)
  · rw [← children_of_typedChildren hcs, List.getElem?_map] at hc
    obtain ⟨typed, htyped, rfl⟩ := Option.map_eq_some_iff.mp hc
    obtain ⟨rs, a', ts, hread⟩ := reads_typedChild hplain h hcs htyped
    exact ⟨typed.2, rs, a', ts, hread⟩

end Scope

/-! ### Queries -/

namespace Query

theorem plan_appends (q : Query) : ∀ {ctx : Context} {ps t qs},
    (q.plan ctx).Yields ps t qs → ps <+: qs := by
  refine Query.induction_items (P := fun q => ∀ {ctx : Context} {ps t qs},
    (q.plan ctx).Yields ps t qs → ps <+: qs) ?_ q
  intro c ih ctx ps t qs h
  obtain ⟨b, hb, -, hchain⟩ := plan_cases h
  have hknown := Clauses.prepared_nested hb ih
  refine hchain.appends fun task htask ps i qs hperforms => ?_
  exact Task.performs_cases (S := fun _ => ps <+: qs) hperforms
    (Clauses.forall_tasks hknown _ task htask)
    (fun e _ _ _ _ hread => Scope.reads_appends e hread)
    (fun q _ hq hyields => hq hyields)

/-- A task of a level, be it an expression or a nested query, takes no parameter back. -/
theorem performs_appends {place : Clause → Scope} {ctx : Context} {task : Task Query}
    {i : Item Query} (h : task.Performs place (fun q => q.plan ctx) ps i qs) : ps <+: qs :=
  Task.performs_cases (S := fun _ => ps <+: qs) (P := fun _ => True) (R := fun _ => True) h
    (by cases task.item <;> trivial) (fun e _ _ _ _ hread => Scope.reads_appends e hread)
    (fun q _ _ hyields => q.plan_appends hyields)

/-- **The items of a planned clause** are what its tasks yield, one by one, and the parameters that
each of them leaves are left in the end. -/
theorem plan_kept {c : Clauses Query} {ctx : Context} {t : Query}
    (h : (plan ⟨c⟩ ctx).Yields ps t qs) :
    ∃ b, c.resolve ctx = .ok b ∧ t.clauses.frame = (c.prepared b).frame ∧
      ∀ clause ∈ ctx.operation.clauseOrder,
        List.Forall₂ (fun task i => ∃ rs ts, Task.Performs (ctx.place b.sources)
            (fun q => q.plan (ctx.nested c.queryPrefix)) task rs i ts ∧ ts <+: qs)
          ((c.prepared b).tasks (ctx.typeOf b.sources) clause) (t.clauses.items clause) := by
  obtain ⟨b, hb, hframe, hchain⟩ := plan_cases h
  have hkept := hchain.kept fun _ _ _ _ _ hperforms => performs_appends hperforms
  refine ⟨b, hb, hframe, List.forall₂_of_flatMap (fun other _ => ?_) hkept⟩
  rw [← Clauses.length_items hframe.symm, ← Clauses.map_item_tasks, List.length_map]

end Query

end QueryPlanner
