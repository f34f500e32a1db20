import QueryPlanner.Proofs.Binary64.Rounding

/-!
# The search for the shortest decimal succeeds

A grid whose step is smaller than half the last place has a point between a number and the upper
end of its interval.  The last of the twenty grids that are searched is as fine as that, so the
search ends with a hit and what it finds reads back.

* `RoundingInterval.contains_search` — a search that reaches a fine grid finds a decimal in the
  interval
* `Binary64.Ordinary.finest_lt` — the twentieth grid is finer than half the last place
* `Binary64.Ordinary.rounds_shortest` — the shortest decimal of a number rounds to it
-/

namespace QueryPlanner

namespace RoundingInterval

variable {i : RoundingInterval} {tie : Tie} {exponent : ℤ} {digits : ℕ}

theorem contains_of_neighbour? (h : i.neighbour? tie exponent = some digits) :
    i.contains digits exponent = true := by
  unfold neighbour? at h
  dsimp only at h
  split at h
  · next hbelow habove =>
    split at h
    · exact Option.some.inj h ▸ hbelow
    · split at h
      · exact Option.some.inj h ▸ habove
      · cases tie with
        | up => exact Option.some.inj h ▸ habove
        | even =>
          obtain rfl := Option.some.inj h
          split
          · exact hbelow
          · exact habove
  · next hbelow _ => exact Option.some.inj h ▸ hbelow
  · next _ habove => exact Option.some.inj h ▸ habove
  · cases h

/-- Two quarters around the number in either direction, or fewer below it. -/
structure Proper (i : RoundingInterval) : Prop where
  low_lt : i.low < i.middle
  high_eq : i.high = i.middle + 2

/-- On a grid finer than two quarters the upper neighbour lies in the interval. -/
theorem contains_above (hi : i.Proper)
    (hfine : i.gridSize exponent < 2 * i.quarterSize exponent) :
    i.contains (i.middle * i.quarterSize exponent / i.gridSize exponent + 1) exponent = true := by
  have hgrid : 0 < i.gridSize exponent := by
    simp only [gridSize, Nat.pow_eq]
    positivity
  have hlow : i.low * i.quarterSize exponent ≤ i.middle * i.quarterSize exponent :=
    Nat.mul_le_mul_right _ hi.low_lt.le
  have hhigh : i.high * i.quarterSize exponent =
      i.middle * i.quarterSize exponent + 2 * i.quarterSize exponent := by
    rw [hi.high_eq, Nat.add_mul]
  have hdiv := Nat.div_add_mod (i.middle * i.quarterSize exponent) (i.gridSize exponent)
  have hmod := Nat.mod_lt (i.middle * i.quarterSize exponent) hgrid
  rw [Nat.mul_comm] at hdiv
  unfold contains
  rw [Nat.add_mul, Nat.one_mul]
  split <;> simp only [Bool.and_eq_true, decide_eq_true_eq] <;> omega

theorem neighbour?_ne_none (hi : i.Proper)
    (hfine : i.gridSize exponent < 2 * i.quarterSize exponent) :
    i.neighbour? tie exponent ≠ none := by
  have habove := contains_above hi hfine
  intro h
  unfold neighbour? at h
  dsimp only at h
  rw [habove] at h
  split at h
  · split at h
    · cases h
    · split at h
      · cases h
      · cases tie <;> cases h
  · next hfalse => cases hfalse
  · cases h
  · next hfalse => cases hfalse

/-- **A search that reaches a fine grid finds a decimal in the interval.** -/
theorem contains_search (hi : i.Proper) {steps : ℕ} (hfine : ∃ k < steps,
      i.gridSize (exponent - k) < 2 * i.quarterSize (exponent - k)) :
    i.contains (i.search tie steps exponent).digits (i.search tie steps exponent).exponent =
      true := by
  induction steps generalizing exponent with
  | zero =>
    obtain ⟨k, hk, -⟩ := hfine
    exact absurd hk (Nat.not_lt_zero k)
  | succ steps ih =>
    unfold search
    cases hneighbour : i.neighbour? tie exponent with
    | some digits => exact contains_of_neighbour? hneighbour
    | none =>
      obtain ⟨k, hk, hsize⟩ := hfine
      cases k with
      | zero =>
        -- the fine grid is this one, which cannot be without a hit
        rw [Nat.cast_zero, Int.sub_zero] at hsize
        exact absurd hneighbour (neighbour?_ne_none hi hsize)
      | succ k =>
        rw [Nat.cast_succ, Int.add_comm, ← Int.sub_sub] at hsize
        exact ih ⟨k, Nat.lt_of_succ_lt_succ hk, hsize⟩

end RoundingInterval

namespace Binary64

open RoundingInterval

/-! ### Powers of ten and of two -/

/-- Two bases are compared in all powers by comparing one power of each. -/
theorem zpow_le_zpow_of_pow_le {u v : ℚ} (hu : 0 ≤ u) (hv : 1 ≤ v) {c d : ℕ} (hc : c ≠ 0)
    (huv : u ^ c ≤ v ^ d) {a n : ℤ} (ha : 0 ≤ a) (hn : d * a ≤ c * n) : u ^ a ≤ v ^ n := by
  have hv' : 0 ≤ v := zero_le_one.trans hv
  refine (pow_le_pow_iff_left₀ (zpow_nonneg hu a) (zpow_nonneg hv' n) hc).mp ?_
  calc (u ^ a) ^ c = (u ^ c) ^ a := by
        rw [← zpow_natCast, ← zpow_natCast, ← zpow_mul, ← zpow_mul, mul_comm]
    _ ≤ (v ^ d) ^ a := zpow_le_zpow_left₀ ha (pow_nonneg hu c) huv
    _ = v ^ (d * a) := by rw [← zpow_natCast, ← zpow_mul]
    _ ≤ v ^ (c * n) := zpow_le_zpow_right₀ hv hn
    _ = (v ^ n) ^ c := by rw [← zpow_natCast, ← zpow_mul, mul_comm]

/-- Powers of ten below powers of two, by `10 ^ 3 ≤ 2 ^ 10` and `2 ^ 93 ≤ 10 ^ 28`. -/
theorem ten_zpow_le_two_zpow {a n : ℤ} (hpos : 0 ≤ a → 10 * a ≤ 3 * n)
    (hneg : a < 0 → n < 0 → 93 * a ≤ 28 * n) : (10 : ℚ) ^ a ≤ 2 ^ n := by
  rcases lt_or_ge a 0 with ha | ha
  · rcases lt_or_ge n 0 with hn | hn
    · have hinv : (2 : ℚ) ^ (-n) ≤ 10 ^ (-a) :=
        zpow_le_zpow_of_pow_le (by norm_num) (by norm_num) (c := 93) (d := 28) (by norm_num)
          (by norm_num) (by omega) (by have := hneg ha hn; push_cast; omega)
      rw [zpow_neg, zpow_neg] at hinv
      exact (inv_le_inv₀ (by positivity) (by positivity)).mp hinv
    · calc (10 : ℚ) ^ a ≤ 1 := zpow_le_one_of_nonpos₀ (by norm_num) ha.le
        _ ≤ 2 ^ n := one_le_zpow₀ (by norm_num) hn
  · exact zpow_le_zpow_of_pow_le (by norm_num) (by norm_num) (c := 3) (d := 10) (by norm_num)
      (by norm_num) ha (by have := hpos ha; push_cast; omega)

/-! ### The twenty grids -/

/-- Neither infinite nor not-a-number. -/
def Finite (x : Binary64) : Prop := x.magnitude < infinityMagnitude

instance (x : Binary64) : Decidable x.Finite := inferInstanceAs (Decidable (_ < _))

/-- A finite number other than zero. -/
structure Ordinary (x : Binary64) : Prop where
  ne_zero : x.magnitude ≠ 0
  finite : x.Finite

variable {x : Binary64}

theorem Finite.isNaN_eq (hx : x.Finite) : x.isNaN = false := decide_eq_false hx.le.not_gt

theorem Finite.isInfinite_eq (hx : x.Finite) : x.isInfinite = false := decide_eq_false hx.ne

theorem Ordinary.power_bounds (hx : x.Ordinary) : -1074 ≤ x.power ∧ x.power ≤ 971 := by
  have h := hx.finite
  unfold Finite infinityMagnitude at h
  unfold power exponentField
  split
  · omega
  · rw [fractionSize_eq] at *
    omega

theorem Ordinary.significand_bounds (hx : x.Ordinary) :
    x.significand ≠ 0 ∧ x.significand < 2 ^ 53 := by
  have h := hx.ne_zero
  unfold significand exponentField
  split
  · rw [fractionSize_eq] at *
    omega
  · rw [fractionSize_eq] at *
    omega

theorem Ordinary.proper (hx : x.Ordinary) : x.roundingInterval.Proper where
  low_lt := by
    have hsignificand := hx.significand_bounds.1
    simp only [roundingInterval]
    split <;> omega
  high_eq := rfl

/-- **The twentieth grid is finer than half the last place.** -/
theorem Ordinary.finest_lt (hx : x.Ordinary) :
    (10 : ℚ) ^ (x.coarsestGrid - 19) < 2 * 2 ^ x.roundingInterval.quarter := by
  obtain ⟨hpower, hpower'⟩ := hx.power_bounds
  obtain ⟨hzero, hsize⟩ := hx.significand_bounds
  have hlog : x.significand.log2 < 53 := (Nat.log2_lt hzero).mpr hsize
  let top : ℤ := (x.significand.log2 : ℤ) + x.power + 1
  have hgrid : x.coarsestGrid = top * 30103 / 100000 + 1 := rfl
  have hten : (10 : ℚ) ^ (top * 30103 / 100000) ≤ 2 ^ (x.power + 58) :=
    ten_zpow_le_two_zpow (by omega) (by omega)
  have hquarter : x.roundingInterval.quarter = x.power - 2 := rfl
  calc (10 : ℚ) ^ (x.coarsestGrid - 19)
      = 10 ^ (top * 30103 / 100000) / 10 ^ 18 := by
        rw [hgrid, ← zpow_natCast, ← zpow_sub₀ (by norm_num)]
        congr 1
        omega
    _ ≤ 2 ^ (x.power + 58) / 10 ^ 18 := by gcongr
    -- eighteen decimal digits are worth more than fifty-nine binary ones
    _ < 2 ^ (x.power + 58) / 2 ^ 59 := by
        gcongr
        norm_num
    _ = 2 * 2 ^ x.roundingInterval.quarter := by
        rw [hquarter, ← zpow_natCast, ← zpow_sub₀ two_ne_zero, ← zpow_one_add₀ two_ne_zero]
        congr 1
        omega

/-- **The shortest decimal of a number rounds to it.** -/
theorem Ordinary.rounds_shortest (hx : x.Ordinary) (tie : Tie) :
    Rounds (x.shortest tie).value x.magnitude := by
  refine rounds_of_contains hx.ne_zero (contains_search hx.proper ⟨19, by decide, ?_⟩)
  rw [← Nat.cast_lt (α := ℚ), gridSize_eq, cast_bound, Nat.cast_ofNat]
  exact mul_lt_mul_of_pos_right hx.finest_lt (unitsPerOne_pos _ _)

end Binary64

end QueryPlanner
