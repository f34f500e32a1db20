import Mathlib.Data.List.TakeWhile

/-!
# Runs of characters

A run of things with a property ends before the first thing without it.  So a text that is made of
a run and of something that does not go on with it can be taken apart again.

* `Text.span_append`, `Text.exists_span` — the run that a list starts with
* `Text.run_append_inj` — a run ends where it ends
* `Text.toList_toString_inj`, `Text.toString_append_inj` — so does a number, which is told by its
  digits
-/

namespace QueryPlanner

namespace Text

section

variable {α : Type} {p : α → Bool}

/-- A run ends before the first thing without the property. -/
theorem span_append {run rest : List α} (hrun : ∀ a ∈ run, p a = true)
    (hrest : ∀ a ∈ rest.head?, p a = false) :
    (run ++ rest).takeWhile p = run ∧ (run ++ rest).dropWhile p = rest := by
  rw [List.takeWhile_append_of_pos hrun, List.dropWhile_append_of_pos hrun]
  cases rest with
  | nil => simp
  | cons a rest => simp [hrest a rfl]

/-- Every list starts with such a run. -/
theorem exists_span (p : α → Bool) (as : List α) : ∃ run rest, as = run ++ rest ∧
    (∀ a ∈ run, p a = true) ∧ ∀ a ∈ rest.head?, p a = false := by
  refine ⟨as.takeWhile p, as.dropWhile p, List.takeWhile_append_dropWhile.symm,
    fun a ha => List.mem_takeWhile_imp ha, fun a ha => ?_⟩
  have hhead := List.head?_dropWhile_not p as
  rw [Option.mem_def.mp ha] at hhead
  simpa using hhead

/-- A run ends where it ends, whatever comes after it. -/
theorem run_append_inj {xs ys s t : List α} (hxs : ∀ a ∈ xs, p a = true)
    (hys : ∀ a ∈ ys, p a = true) (hs : ∀ a ∈ s.head?, p a = false)
    (ht : ∀ a ∈ t.head?, p a = false) (h : xs ++ s = ys ++ t) : xs = ys ∧ s = t := by
  obtain ⟨hxrun, hxrest⟩ := span_append hxs hs
  obtain ⟨hyrun, hyrest⟩ := span_append hys ht
  rw [h] at hxrun hxrest
  exact ⟨hxrun.symm.trans hyrun, hxrest.symm.trans hyrest⟩

end

theorem isDigit_of_mem_toString {n : Nat} {c : Char} (h : c ∈ (toString n).toList) :
    c.isDigit = true := by
  rw [Nat.toString_eq_repr, Nat.toList_repr] at h
  exact Nat.isDigit_of_mem_toDigits (by decide) (by decide) h

/-- A number is read back from its digits. -/
theorem toList_toString_inj {m n : Nat} : (toString m).toList = (toString n).toList ↔ m = n := by
  refine ⟨fun h => ?_, fun h => h ▸ rfl⟩
  rw [Nat.toString_eq_repr, Nat.toString_eq_repr, Nat.toList_repr, Nat.toList_repr] at h
  have hread := congrArg (Nat.ofDigitChars 10 · 0) h
  simpa only [Nat.ofDigitChars_ten_toDigits] using hread

/-- A number ends where its digits end. -/
theorem toString_append_inj {m n : Nat} {s t : List Char}
    (hs : ∀ c ∈ s.head?, c.isDigit = false) (ht : ∀ c ∈ t.head?, c.isDigit = false)
    (h : (toString m).toList ++ s = (toString n).toList ++ t) : m = n ∧ s = t := by
  obtain ⟨hnumber, hrest⟩ := run_append_inj (fun _ => isDigit_of_mem_toString)
    (fun _ => isDigit_of_mem_toString) hs ht h
  exact ⟨toList_toString_inj.mp hnumber, hrest⟩

end Text

end QueryPlanner
