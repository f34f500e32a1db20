import QueryPlanner.Expr.Node
import QueryPlanner.Plan.Error

/-!
# Computations that fail

What is refused is refused with an error, and often all that matters is what kind of error it is.
A computation made of others fails with the errors of these.

* `FailsWith` — the errors of a computation, with one lemma for each way to make a computation
-/

namespace QueryPlanner

variable {α β : Type}

/-- Where a computation fails, it does so with an error of the given kind. -/
def FailsWith (E : PlanError → Prop) (x : Except PlanError α) : Prop :=
  ∀ err, x = .error err → E err

namespace FailsWith

variable {E E' : PlanError → Prop} {x : Except PlanError α} {f : α → Except PlanError β}

theorem ok (a : α) : FailsWith E (.ok a) := fun _ h => nomatch h

theorem error {err : PlanError} (h : E err) : FailsWith E (.error err : Except PlanError α) := by
  rintro _ ⟨⟩
  exact h

theorem imp (h : FailsWith E x) (hE : ∀ err, E err → E' err) : FailsWith E' x :=
  fun err herr => hE err (h err herr)

theorem bind (hx : FailsWith E x) (hf : ∀ a, x = .ok a → FailsWith E (f a)) :
    FailsWith E (x >>= f) := by
  cases x with
  | error err => exact error (hx err rfl)
  | ok a => exact hf a rfl

theorem map (hx : FailsWith E x) (g : α → β) : FailsWith E (g <$> x) := by
  cases x with
  | error err => exact error (hx err rfl)
  | ok a => exact ok (g a)

/-- One step after another, each from what the one before it yields. -/
theorem foldlM {f : β → α → Except PlanError β} {xs : List α}
    (h : ∀ b, ∀ x ∈ xs, FailsWith E (f b x)) (b : β) : FailsWith E (xs.foldlM f b) := by
  induction xs generalizing b with
  | nil => exact ok b
  | cons x xs ih =>
    rw [List.foldlM_cons]
    refine (h b x List.mem_cons_self).bind fun b' _ => ?_
    exact ih (fun c z hz => h c z (List.mem_cons_of_mem x hz)) b'

/-- A step for each element of a list. -/
theorem mapM {xs : List α} (h : ∀ x ∈ xs, FailsWith E (f x)) : FailsWith E (xs.mapM f) := by
  induction xs with
  | nil => exact ok []
  | cons x xs ih =>
    rw [List.mapM_cons]
    refine (h x List.mem_cons_self).bind fun y _ => ?_
    exact (ih fun z hz => h z (List.mem_cons_of_mem x hz)).bind fun ys _ => ok (y :: ys)

end FailsWith

end QueryPlanner
