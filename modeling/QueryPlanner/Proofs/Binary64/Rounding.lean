import Mathlib.Algebra.Order.Field.Power
import Mathlib.Algebra.Order.Field.Rat
import Mathlib.Order.Monotone.Basic
import Mathlib.Tactic.Linarith
import Mathlib.Tactic.LinearCombination
import Mathlib.Tactic.NormNum
import Mathlib.Tactic.Ring
import QueryPlanner.Binary64.Shortest

/-!
# Which rationals round to a number

The magnitude words count the finite numbers from zero up.  Between each of them and the next lies
a midpoint, and a rational rounds to the word whose two midpoints it lies between; a midpoint
itself goes to the even one of its two words.

* `Binary64.valueAt` — the value of a magnitude word; `valueAt_succ` is the step to the next
* `Binary64.Rounds` — the rationals that round to a word; no two words share one (`Rounds.unique`)
* `Binary64.rounds_of_contains` — a decimal in the rounding interval of a number rounds to it
-/

namespace QueryPlanner

namespace Binary64

/-! ### The values of the words -/

/-- The integer factor of a magnitude word. -/
def significandAt (m : ℕ) : ℕ :=
  if m / fractionSize = 0 then m else fractionSize + m % fractionSize

/-- The power of two that scales the integer factor of a magnitude word. -/
def powerAt (m : ℕ) : ℤ :=
  if m / fractionSize = 0 then -1074 else ((m / fractionSize : ℕ) : ℤ) - 1075

/-- The value of a magnitude word.  The words from infinity on go on as if the exponent had room
for more. -/
def valueAt (m : ℕ) : ℚ := significandAt m * 2 ^ powerAt m

theorem significand_eq (x : Binary64) : x.significand = significandAt x.magnitude := rfl

theorem power_eq (x : Binary64) : x.power = powerAt x.magnitude := rfl

theorem fractionSize_eq : fractionSize = 4503599627370496 := rfl

/-- Within an exponent the factor grows by one and the scale stays; where the exponent steps up,
the factor falls back to half of what it would have been. -/
theorem step_cases (m : ℕ) :
    (significandAt (m + 1) = significandAt m + 1 ∧ powerAt (m + 1) = powerAt m ∧
      ¬ ((m + 1) % fractionSize = 0 ∧ 1 < (m + 1) / fractionSize)) ∨
    (2 * significandAt (m + 1) = significandAt m + 1 ∧ powerAt (m + 1) = powerAt m + 1 ∧
      (m + 1) % fractionSize = 0 ∧ 1 < (m + 1) / fractionSize) := by
  unfold significandAt powerAt
  by_cases hzero : m / fractionSize = 0
  · left
    rw [if_pos hzero, if_pos hzero]
    by_cases hnext : (m + 1) / fractionSize = 0
    · rw [if_pos hnext, if_pos hnext]
      rw [fractionSize_eq] at *
      omega
    · rw [if_neg hnext, if_neg hnext]
      rw [fractionSize_eq] at *
      omega
  · have hnext : (m + 1) / fractionSize ≠ 0 := by
      rw [fractionSize_eq] at *
      omega
    rw [if_neg hzero, if_neg hzero, if_neg hnext, if_neg hnext]
    rw [fractionSize_eq] at *
    omega

/-- From a word to the next the value grows by one last place. -/
theorem valueAt_succ (m : ℕ) : valueAt (m + 1) = valueAt m + 2 ^ powerAt m := by
  unfold valueAt
  rcases step_cases m with ⟨hsignificand, hpower, -⟩ | ⟨hsignificand, hpower, -⟩
  · rw [hsignificand, hpower]
    push_cast
    ring
  · have hdouble : 2 * (significandAt (m + 1) : ℚ) = significandAt m + 1 := mod_cast hsignificand
    rw [hpower, zpow_add_one₀ two_ne_zero]
    linear_combination (2 : ℚ) ^ powerAt m * hdouble

theorem valueAt_strictMono : StrictMono valueAt := by
  refine strictMono_nat_of_lt_succ fun m => ?_
  have hpos : (0 : ℚ) < 2 ^ powerAt m := by positivity
  rw [valueAt_succ]
  linarith

theorem valueAt_zero : valueAt 0 = 0 := by simp [valueAt, significandAt]

/-- Half way from a word to the next. -/
def midpoint (m : ℕ) : ℚ := (valueAt m + valueAt (m + 1)) / 2

theorem midpoint_strictMono : StrictMono midpoint := by
  intro m n h
  have hvalue := valueAt_strictMono h
  have hnext := valueAt_strictMono (Nat.add_lt_add_right h 1)
  unfold midpoint
  linarith

theorem midpoint_pos (m : ℕ) : 0 < midpoint m := by
  have hnonneg : 0 ≤ valueAt m := by
    rw [← valueAt_zero]
    exact valueAt_strictMono.monotone (Nat.zero_le m)
  have hlt := valueAt_strictMono (Nat.lt_add_one m)
  unfold midpoint
  linarith

/-! ### Rounding -/

/-- A rational that rounds to a word above `m`. -/
def Exceeds (q : ℚ) (m : ℕ) : Prop := midpoint m < q ∨ midpoint m = q ∧ m % 2 = 1

/-- A rational that rounds to `m`: to no word above, and not to any word below. -/
structure Rounds (q : ℚ) (m : ℕ) : Prop where
  not_exceeds : ¬ Exceeds q m
  exceeds : ∀ k < m, Exceeds q k

variable {q : ℚ} {m n : ℕ}

theorem Exceeds.of_le (h : Exceeds q m) (hn : n ≤ m) : Exceeds q n := by
  rcases Nat.eq_or_lt_of_le hn with rfl | hlt
  · exact h
  · left
    have hmid := midpoint_strictMono hlt
    rcases h with h | ⟨h, -⟩
    · exact hmid.trans h
    · exact hmid.trans_eq h

/-- A rational rounds to one word at most. -/
theorem Rounds.unique (hm : Rounds q m) (hn : Rounds q n) : m = n := by
  rcases Nat.lt_trichotomy m n with h | h | h
  · exact absurd (hn.exceeds m h) hm.not_exceeds
  · exact h
  · exact absurd (hm.exceeds n h) hn.not_exceeds

theorem rounds_zero : Rounds 0 0 where
  not_exceeds := by
    rintro (h | ⟨-, h⟩)
    · exact absurd h (midpoint_pos 0).le.not_gt
    · exact absurd h (by decide)
  exceeds k hk := absurd hk (Nat.not_lt_zero k)

/-! ### The interval of a number -/

/-- The lower end of the interval of a number is the midpoint below its word. -/
theorem low_eq_midpoint {x : Binary64} (h : x.magnitude = m + 1) :
    (x.roundingInterval.low : ℚ) * 2 ^ x.roundingInterval.quarter = midpoint m := by
  have hvalue := valueAt_succ m
  simp only [roundingInterval, significand_eq, power_eq, exponentField, h]
  unfold midpoint
  rw [hvalue]
  rcases step_cases m with ⟨hsignificand, hpower, hplain⟩ | ⟨hsignificand, hpower, hnarrow⟩
  · -- the word below has the same last place
    rw [if_neg hplain, hpower, hsignificand, Nat.cast_sub (by omega), zpow_sub₀ two_ne_zero]
    unfold valueAt
    push_cast
    ring
  · -- the word below has half of it, and so has the lower half of the interval
    have hdouble : 4 * significandAt (m + 1) - 1 = 2 * significandAt m + 1 := by omega
    rw [if_pos hnarrow, hpower, hdouble, zpow_sub₀ two_ne_zero, zpow_add_one₀ two_ne_zero]
    unfold valueAt
    push_cast
    ring

/-- Its upper end is the midpoint above. -/
theorem high_eq_midpoint (x : Binary64) :
    (x.roundingInterval.high : ℚ) * 2 ^ x.roundingInterval.quarter = midpoint x.magnitude := by
  simp only [roundingInterval, significand_eq, power_eq]
  unfold midpoint
  rw [valueAt_succ, zpow_sub₀ two_ne_zero]
  unfold valueAt
  push_cast
  ring

/-- The integer factor is as even as its word. -/
theorem significandAt_mod_two (m : ℕ) : significandAt m % 2 = m % 2 := by
  unfold significandAt
  rw [fractionSize_eq]
  split <;> omega

end Binary64

namespace Decimal

/-- The rational that a decimal stands for. -/
def value (d : Decimal) : ℚ := d.digits * 10 ^ d.exponent

end Decimal

namespace RoundingInterval

variable (i : RoundingInterval) (exponent : ℤ)

/-- How many of the units in which grid steps and quarters are counted make up one. -/
def unitsPerOne : ℚ := 2 ^ (-i.quarter).toNat * 10 ^ (-exponent).toNat

theorem unitsPerOne_pos : 0 < i.unitsPerOne exponent := by
  unfold unitsPerOne
  positivity

/-- A power with an exponent of either sign, kept apart into the parts that naturals count. -/
theorem pow_toNat_eq {b : ℚ} (hb : b ≠ 0) (e : ℤ) : b ^ e.toNat = b ^ e * b ^ (-e).toNat := by
  rw [← zpow_natCast, ← zpow_natCast, ← zpow_add₀ hb]
  congr 1
  omega

theorem gridSize_eq : (i.gridSize exponent : ℚ) = 10 ^ exponent * i.unitsPerOne exponent := by
  simp only [gridSize, unitsPerOne, Nat.pow_eq, Nat.cast_mul, Nat.cast_pow, Nat.cast_ofNat]
  rw [pow_toNat_eq (by norm_num)]
  ring

theorem quarterSize_eq :
    (i.quarterSize exponent : ℚ) = 2 ^ i.quarter * i.unitsPerOne exponent := by
  simp only [quarterSize, unitsPerOne, Nat.pow_eq, Nat.cast_mul, Nat.cast_pow, Nat.cast_ofNat]
  rw [pow_toNat_eq (by norm_num)]
  ring

theorem cast_point (digits : ℕ) : ((digits * i.gridSize exponent : ℕ) : ℚ) =
    (⟨digits, exponent⟩ : Decimal).value * i.unitsPerOne exponent := by
  rw [Nat.cast_mul, gridSize_eq, ← mul_assoc]
  rfl

theorem cast_bound (bound : ℕ) : ((bound * i.quarterSize exponent : ℕ) : ℚ) =
    bound * 2 ^ i.quarter * i.unitsPerOne exponent := by
  rw [Nat.cast_mul, quarterSize_eq, ← mul_assoc]

variable {i exponent} {digits bound : ℕ}

/-- Comparing a decimal with an end of the interval in units is comparing their values. -/
theorem point_lt_iff : digits * i.gridSize exponent < bound * i.quarterSize exponent ↔
    (⟨digits, exponent⟩ : Decimal).value < bound * 2 ^ i.quarter := by
  rw [← Nat.cast_lt (α := ℚ), cast_point, cast_bound,
    mul_lt_mul_iff_left₀ (unitsPerOne_pos i exponent)]

theorem lt_point_iff : bound * i.quarterSize exponent < digits * i.gridSize exponent ↔
    bound * 2 ^ i.quarter < (⟨digits, exponent⟩ : Decimal).value := by
  rw [← Nat.cast_lt (α := ℚ), cast_point, cast_bound,
    mul_lt_mul_iff_left₀ (unitsPerOne_pos i exponent)]

end RoundingInterval

namespace Binary64

open RoundingInterval

/-- **A decimal in the rounding interval of a number rounds to it.** -/
theorem rounds_of_contains {x : Binary64} {d : Decimal} (hx : x.magnitude ≠ 0)
    (h : x.roundingInterval.contains d.digits d.exponent = true) :
    Rounds d.value x.magnitude := by
  obtain ⟨m, hm⟩ := Nat.exists_eq_succ_of_ne_zero hx
  have hlow := low_eq_midpoint hm
  have hhigh := high_eq_midpoint x
  have hclosed : x.roundingInterval.closed = true ↔ x.magnitude % 2 = 0 := by
    rw [← significandAt_mod_two, ← significand_eq]
    exact decide_eq_true_iff
  suffices hends : Exceeds d.value m ∧ ¬ Exceeds d.value x.magnitude by
    refine ⟨hends.2, fun k hk => hends.1.of_le ?_⟩
    omega
  unfold contains at h
  by_cases heven : x.magnitude % 2 = 0
  · -- both ends belong to the interval of an even word
    rw [if_pos (hclosed.mpr heven)] at h
    simp only [Bool.and_eq_true, decide_eq_true_eq] at h
    rw [← not_lt, ← not_lt, point_lt_iff, lt_point_iff, hlow, hhigh, not_lt, not_lt] at h
    constructor
    · rcases h.1.lt_or_eq with hlt | heq
      · exact .inl hlt
      · exact .inr ⟨heq, by omega⟩
    · rintro (hlt | ⟨-, hodd⟩)
      · exact absurd hlt h.2.not_gt
      · omega
  · rw [if_neg (mt hclosed.mp heven)] at h
    simp only [Bool.and_eq_true, decide_eq_true_eq] at h
    rw [point_lt_iff, lt_point_iff, hlow, hhigh] at h
    constructor
    · exact .inl h.1
    · rintro (hlt | ⟨heq, -⟩)
      · exact absurd hlt h.2.not_gt
      · exact absurd heq h.2.ne'

end Binary64

end QueryPlanner
