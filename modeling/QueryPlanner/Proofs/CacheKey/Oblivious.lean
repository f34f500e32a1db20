import QueryPlanner.Proofs.CacheKey.Faithful
import QueryPlanner.Proofs.CacheKey.InStep

/-!
# Keys are oblivious of interpolated values

Two queries that differ in interpolated values only are planned in step, so their plans differ in
the numbers of placeholders at most.  Keys do not hold these, so the keys are the same; and a plan
that has a key reads no interpolated collection, so not even the numbers differ.

* `Query.code_without_numbers`, `Query.key_eq_of_without_eq` — keys do not see numbers
* `Planner.plan_interpolated` — what the plans of such queries have in common
-/

namespace QueryPlanner

theorem Expr.codeIn_without_numbers {form : LiteralForm} (e : Expr) :
    (e.without .numbers).codeIn form = e.codeIn form := by
  rw [codeIn, codeIn, ← code_without_numbers (e.settle form .nothing), ← settle_without_numbers]
  rfl

namespace Query

/-- Numbers do not tell whether a query holds a range. -/
theorem rangeFree_without_numbers (q : Query) :
    (q.without .numbers).All Expr.RangeFree ↔ q.All Expr.RangeFree := by
  rw [All, All, without, reading_edit, List.forall_mem_map]
  exact forall₂_congr fun e _ => Expr.rangeFree_without_numbers e

/-- Numbers are not written down. -/
theorem code_without_numbers {form : List BoundSource → LiteralForm} (q : Query) :
    ∀ operation, (q.without .numbers).code form operation = q.code form operation := by
  refine induction_items (P := fun q => ∀ operation,
    (q.without .numbers).code form operation = q.code form operation) ?_ q
  intro c ih operation
  have hexpr : Expr.codeIn (form c.sources) ∘ Expr.without .numbers =
      Expr.codeIn (form c.sources) := funext Expr.codeIn_without_numbers
  have hnested : c.edit id ((fun q => q.code form .all) ∘ without .numbers) =
      c.edit id fun q => q.code form .all := by
    refine Clauses.edit_congr fun clause i hi => ?_
    cases i with
    | expr e => rfl
    | nested q => exact congrArg Item.nested (ih clause q hi .all)
  have hcode : ∀ ν : Query → List KeyNode, c.code (Expr.codeIn (form c.sources)) ν operation =
      (c.edit id ν).code (Expr.codeIn (form c.sources)) id operation := by
    intro ν
    rw [Clauses.code_edit _ _ _ _ rfl, Function.comp_id, Function.id_comp]
  have htrue : Expr.without .numbers (.literal (.bool true)) = .literal (.bool true) := rfl
  have hsources : (c.edit (Expr.without .numbers) (without .numbers)).sources = c.sources := rfl
  rw [without_mk, code_mk, code_mk, hsources, Clauses.code_edit _ _ _ _ htrue, hexpr, hcode,
    hnested, ← hcode]

/-- Planned queries that differ in numbers only have the same key, if any. -/
theorem key_eq_of_without_eq {ctx : Context} {q₁ q₂ : Query} (h₁ : q₁.Planned) (h₂ : q₂.Planned)
    (h : q₁.without .numbers = q₂.without .numbers) (operation : Operation) :
    q₁.key ctx operation = q₂.key ctx operation := by
  have hkey₂ : Guarded _ _ (q₂.key ctx operation) := guarded_key h₂ operation
  rw [← code_without_numbers, ← rangeFree_without_numbers, ← h, code_without_numbers,
    rangeFree_without_numbers] at hkey₂
  exact Option.ext fun k => (guarded_key h₁ operation k).trans (hkey₂ k).symm

end Query

/-- **Interpolated values do not matter** for a plan but for the values of its parameters.  Two
queries that differ in nothing else, planned for one operation, have the same key or both have
none; and if they have one, the planned queries are the same, numbers of placeholders included, and
the parameters agree one by one in type and clause. -/
theorem Planner.plan_interpolated (p : Planner) (q₁ q₂ : Query) (operation : Operation)
    (caps : Capabilities) (plan₁ plan₂ : Plan)
    (hq : q₁.without .interpolated = q₂.without .interpolated)
    (h₁ : p.plan q₁ operation caps = .ok plan₁) (h₂ : p.plan q₂ operation caps = .ok plan₂) :
    plan₁.cacheKey = plan₂.cacheKey ∧
      (plan₁.cacheKey ≠ .uncacheable → plan₁.query = plan₂.query ∧
        plan₁.parameters.map (·.kind) = plan₂.parameters.map (·.kind)) := by
  obtain ⟨hyields₁, hkey₁⟩ := Planner.plan_cases h₁
  obtain ⟨hyields₂, hkey₂⟩ := Planner.plan_cases h₂
  have hstep := Query.plan_inStep q₁ q₂ _ _ _ _ _ _ _ hq hyields₁ hyields₂
  have hplanned₁ := Query.plan_planned q₁ _ _ _ _ hyields₁
  have hplanned₂ := Query.plan_planned q₂ _ _ _ _ hyields₂
  refine ⟨?_, fun hcacheable => ?_⟩
  · rw [hkey₁, hkey₂]
    simp only [cacheKey, Query.cacheKey,
      Query.key_eq_of_without_eq hplanned₁ hplanned₂ hstep.same]
  · cases hkey : plan₁.cacheKey with
    | uncacheable => exact absurd hkey hcacheable
    | key nodes =>
      have hquery := Planner.key_of_cacheKey (hkey₁.symm.trans hkey)
      exact hstep.exact ((Query.guarded_key hplanned₁ _ _).mp hquery).1 rfl

/-- Posts of an author with more likes than a value; both are interpolated. -/
def Query.postsBy (author : String) (likes : Int) : Query :=
  ((Query.ofTable "posts").filter (.keywords [("author", .string author)])).filter
    ((Expr.field 0 "likes").gt (.pin (.int likes)))

/-- Whose posts are asked for, and how many likes they need, makes no difference. -/
theorem Planner.plan_interpolated_keywords :
    ∃ plan₁ plan₂ nodes,
      blog.plan (Query.postsBy "ann" 18) .all Dialect.postgres.capabilities = .ok plan₁ ∧
      blog.plan (Query.postsBy "bob" 99) .all Dialect.postgres.capabilities = .ok plan₂ ∧
      plan₁.cacheKey = .key nodes ∧ plan₂.cacheKey = .key nodes ∧ plan₁.query = plan₂.query ∧
      plan₁.parameters.map (·.kind) = plan₂.parameters.map (·.kind) := by
  have hcached : (blog.plan (Query.postsBy "ann" 18) .all
      Dialect.postgres.capabilities).toOption.map (·.cacheKey.text?.isSome) = some true := by
    decide +kernel
  have hplanned : (blog.plan (Query.postsBy "bob" 99) .all
      Dialect.postgres.capabilities).toOption.map (fun _ => ()) = some () := by
    decide +kernel
  obtain ⟨plan₁, hplan₁, htext⟩ := Option.map_eq_some_iff.mp hcached
  obtain ⟨plan₂, hplan₂, -⟩ := Option.map_eq_some_iff.mp hplanned
  have h₁ := Except.toOption_eq_some_iff.mp hplan₁
  have h₂ := Except.toOption_eq_some_iff.mp hplan₂
  have hforgotten : (Query.postsBy "ann" 18).without .interpolated =
      (Query.postsBy "bob" 99).without .interpolated := by
    rfl
  obtain ⟨hkeys, hsame⟩ := Planner.plan_interpolated _ _ _ .all _ plan₁ plan₂ hforgotten h₁ h₂
  cases hkey : plan₁.cacheKey with
  | uncacheable => simp [hkey, CacheKey.text?] at htext
  | key nodes =>
    obtain ⟨hquery, hkinds⟩ := hsame (by simp [hkey])
    exact ⟨plan₁, plan₂, nodes, h₁, h₂, hkey, hkeys.symm.trans hkey, hquery, hkinds⟩

end QueryPlanner
