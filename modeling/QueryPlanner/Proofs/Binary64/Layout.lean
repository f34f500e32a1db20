import QueryPlanner.Binary64.Layout
import QueryPlanner.Proofs.Binary64.Shortest
import QueryPlanner.Text.Numeral

/-!
# The text of a number reads back

Whatever a layout leaves to choose, the text of a finite number holds its shortest decimal: the
digits and the point or exponent read back to a rational that rounds to the number.  So two finite
numbers with one text are one number.

* `Text.readDecimal_fixed`, `Text.readDecimal_scientific` — reading digits around a point
* `Binary64.readDecimal_renderMagnitude` — what is read back from a text is what was written
* `Binary64.render_inj` — finite numbers with one text are one number
-/

namespace QueryPlanner

namespace Text

/-- A text of digits alone. -/
def Digits (cs : List Char) : Prop := ∀ c ∈ cs, c.isDigit = true

theorem ofDigits_eq (cs : List Char) : ofDigits cs = Nat.ofDigitChars 10 cs 0 := rfl

theorem digits_toDigits (n : ℕ) : Digits (Nat.toDigits 10 n) := fun _ h =>
  Nat.isDigit_of_mem_toDigits (by decide) (by decide) h

theorem digits_zeros (n : ℕ) : Digits (List.replicate n '0') := by
  intro c h
  rw [List.eq_of_mem_replicate h]
  rfl

theorem Digits.append {cs ds : List Char} (hcs : Digits cs) (hds : Digits ds) :
    Digits (cs ++ ds) := by
  intro c h
  rcases List.mem_append.mp h with h | h
  · exact hcs c h
  · exact hds c h

/-- The characters of numbers: digits, signs, the point and the mark of an exponent. -/
def isNumeral (c : Char) : Bool := c.isDigit || c == '.' || c == 'e' || c == '+' || c == '-'

/-- A text of such characters alone. -/
def Numeral (s : String) : Prop := s.toList.all isNumeral = true

instance (s : String) : Decidable (Numeral s) := inferInstanceAs (Decidable (_ = true))

theorem Numeral.append {s t : String} (hs : Numeral s) (ht : Numeral t) : Numeral (s ++ t) := by
  unfold Numeral
  rw [String.toList_append, List.all_append, hs, ht]
  rfl

theorem isNumeral_of_isDigit {c : Char} (h : c.isDigit = true) : isNumeral c = true := by
  simp [isNumeral, h]

theorem numeral_ofList {cs : List Char} (h : Digits cs) : Numeral (String.ofList cs) := by
  unfold Numeral
  rw [String.toList_ofList]
  exact List.all_eq_true.mpr fun c hc => isNumeral_of_isDigit (h c hc)

theorem numeral_repr (n : ℕ) : Numeral n.repr := by
  rw [Nat.repr_eq_ofList_toDigits]
  exact numeral_ofList (digits_toDigits n)

theorem numeral_toString (i : ℤ) : Numeral (toString i) := by
  rw [Int.toString_eq_repr, Int.repr_eq_if]
  split
  · exact numeral_repr _
  · exact Numeral.append (by decide) (numeral_repr _)

variable {whole fraction rest : List Char}

/-- Digits, a point and digits, before what is no digit. -/
theorem readDecimal_fixed (hwhole : Digits whole) (hne : whole ≠ []) (hfraction : Digits fraction)
    (hrest : rest.takeWhile Char.isDigit = []) :
    readDecimal (whole ++ '.' :: (fraction ++ rest)) = (readExponent rest).map fun exponent =>
      (ofDigits (whole ++ fraction), exponent - (fraction.length : ℤ)) := by
  have hdrop : rest.dropWhile Char.isDigit = rest := by
    have h := List.takeWhile_append_dropWhile (p := Char.isDigit) (l := rest)
    rwa [hrest] at h
  unfold readDecimal
  rw [List.takeWhile_append_of_pos hwhole, List.dropWhile_append_of_pos hwhole]
  simp [List.takeWhile_append_of_pos hfraction, List.dropWhile_append_of_pos hfraction, hrest,
    hdrop, hne]

/-- Digits before what is neither a digit nor a point. -/
theorem readDecimal_scientific (hwhole : Digits whole) (hne : whole ≠ []) :
    readDecimal (whole ++ 'e' :: rest) = (readExponent ('e' :: rest)).map fun exponent =>
      (ofDigits whole, exponent) := by
  unfold readDecimal
  rw [List.takeWhile_append_of_pos hwhole, List.dropWhile_append_of_pos hwhole]
  simp [hne]

theorem splitSign_digits (hwhole : Digits whole) : splitSign whole = (false, whole) := by
  unfold splitSign
  split
  · exact absurd (hwhole '-' List.mem_cons_self) (by decide)
  · exact absurd (hwhole '+' List.mem_cons_self) (by decide)
  · rfl

/-- The signed digits of an exponent read back. -/
theorem readExponent_toString (plus : Bool) (e : ℤ) :
    readExponent ('e' :: ((if plus && 0 ≤ e then "+" else "") ++ toString e).toList) = some e := by
  have hread : ∀ n : ℕ, ofDigits (Nat.toDigits 10 n) = n := fun n => by
    rw [ofDigits_eq, Nat.ofDigitChars_ten_toDigits]
  have hall : ∀ n : ℕ, (Nat.toDigits 10 n).all Char.isDigit = true := fun n =>
    List.all_eq_true.mpr (digits_toDigits n)
  rw [Int.toString_eq_repr, Int.repr_eq_if]
  by_cases he : 0 ≤ e
  · have hvalue : (e.toNat : ℤ) = e := Int.toNat_of_nonneg he
    cases plus
    · simp [readExponent, he, splitSign_digits (digits_toDigits _), hread, hall]
    · simp [readExponent, he, splitSign, hread, hall]
  · have hvalue : max (-e) 0 = -e := by omega
    simp [readExponent, he, splitSign, hread, hall, hvalue]

end Text

namespace Binary64

open Text

variable {digits : List Char}

/-- Zeros in front of digits count for nothing. -/
theorem ofDigits_zeros_append (n : ℕ) (cs : List Char) :
    ofDigits (List.replicate n '0' ++ cs) = ofDigits cs := by
  rw [ofDigits_eq, Nat.ofDigitChars_append, Nat.ofDigitChars_replicate_zero, Nat.mul_zero]
  rfl

theorem ofDigits_append_zeros (n : ℕ) (cs : List Char) :
    ofDigits (cs ++ List.replicate n '0') = ofDigits cs * 10 ^ n := by
  rw [ofDigits_eq, Nat.ofDigitChars_append, Nat.ofDigitChars_replicate_zero, Nat.mul_comm]
  rfl

/-- What is read from a decimal with a point after its first digits. -/
theorem readDecimal_point {whole fraction : List Char} (hwhole : Digits whole) (hne : whole ≠ [])
    (hfraction : Digits fraction) :
    readDecimal (whole ++ '.' :: fraction) =
      some (ofDigits (whole ++ fraction), -(fraction.length : ℤ)) := by
  have h := readDecimal_fixed hwhole hne hfraction List.takeWhile_nil
  rw [List.append_nil] at h
  rw [h]
  simp [readExponent]

/-- A decimal without an exponent reads back. -/
theorem readDecimal_renderPlain (hdigits : Digits digits) (hne : digits ≠ []) (e : ℤ) :
    ∃ d : Decimal, readDecimal (renderPlain digits (e + digits.length)).toList =
        some (d.digits, d.exponent) ∧ d.value = (⟨ofDigits digits, e⟩ : Decimal).value := by
  unfold renderPlain
  by_cases hpoint : e + digits.length ≤ 0
  · -- all digits stand after the point, behind zeros
    refine ⟨⟨ofDigits digits, e⟩, ?_, rfl⟩
    obtain ⟨k, hk⟩ : ∃ k : ℕ, (k : ℤ) = -(e + digits.length) := ⟨_, Int.toNat_of_nonneg (by omega)⟩
    have htext : ("0." ++ zeros (-(e + digits.length)).toNat ++ String.ofList digits).toList =
        List.replicate 1 '0' ++ '.' :: (List.replicate k '0' ++ digits) := by
      rw [← hk]
      simp [zeros]
    rw [if_pos hpoint, htext, readDecimal_point (digits_zeros 1) (by simp)
      ((digits_zeros k).append hdigits)]
    have hexponent : -((k + digits.length : ℕ) : ℤ) = e := by
      push_cast
      omega
    rw [ofDigits_zeros_append, ofDigits_zeros_append, List.length_append, List.length_replicate,
      hexponent]
  · rw [if_neg hpoint]
    dsimp only
    by_cases hwhole : digits.length ≤ (e + digits.length).toNat
    · -- all digits stand before the point, and zeros between
      obtain ⟨k, rfl⟩ : ∃ k : ℕ, e = k := ⟨e.toNat, by omega⟩
      have htext : (String.ofList digits ++ zeros ((k + digits.length : ℤ).toNat - digits.length) ++
          ".0").toList = (digits ++ List.replicate k '0') ++ '.' :: List.replicate 1 '0' := by
        have hk : (k + digits.length : ℤ).toNat - digits.length = k := by omega
        rw [hk]
        simp [zeros]
      rw [if_pos hwhole, htext, readDecimal_point (hdigits.append (digits_zeros k)) (by simp [hne])
        (digits_zeros 1), List.append_assoc, List.replicate_append_replicate, ofDigits_append_zeros]
      refine ⟨⟨_, _⟩, rfl, ?_⟩
      simp only [Decimal.value, List.length_replicate]
      push_cast
      rw [pow_succ]
      simp [mul_assoc]
    · -- the point stands among the digits
      refine ⟨⟨ofDigits digits, e⟩, ?_, rfl⟩
      have htext : (String.ofList (digits.take (e + digits.length).toNat) ++ "." ++
          String.ofList (digits.drop (e + digits.length).toNat)).toList =
          digits.take (e + digits.length).toNat ++ '.' ::
            digits.drop (e + digits.length).toNat := by simp
      have hlength : 0 < digits.length := List.length_pos_iff.mpr hne
      rw [if_neg hwhole, htext, readDecimal_point (fun c h => hdigits c (List.mem_of_mem_take h))
        (by simp [hne]; omega) (fun c h => hdigits c (List.mem_of_mem_drop h)),
        List.take_append_drop, List.length_drop]
      have hexponent : -((digits.length - (e + digits.length).toNat : ℕ) : ℤ) = e := by omega
      rw [hexponent]

/-- A decimal with an exponent reads back; the exponent is that of its first digit. -/
theorem readDecimal_renderScientific (hdigits : Digits digits) (hne : digits ≠ []) (plus : Bool)
    (e : ℤ) :
    readDecimal (renderScientific plus digits (e + digits.length - 1)).toList =
      some (ofDigits digits, e) := by
  have hexponent := readExponent_toString plus (e + digits.length - 1)
  unfold renderScientific
  rw [String.append_assoc, String.append_assoc]
  generalize (if plus && 0 ≤ e + digits.length - 1 then "+" else "") ++
    toString (e + digits.length - 1) = text at hexponent ⊢
  rcases digits with _ | ⟨first, _ | ⟨second, others⟩⟩
  · exact absurd rfl hne
  · have htext : (String.ofList [first] ++ ("e" ++ text)).toList =
        [first] ++ 'e' :: text.toList := by simp
    refine (congrArg readDecimal htext).trans ((readDecimal_scientific hdigits hne).trans ?_)
    rw [hexponent]
    simp
  · have htext : (String.ofList (first :: '.' :: second :: others) ++ ("e" ++ text)).toList =
        [first] ++ '.' :: ((second :: others) ++ 'e' :: text.toList) := by simp
    have hfirst : Digits [first] := fun c h => hdigits c (by simp_all)
    have hothers : Digits (second :: others) := fun c h => hdigits c (List.mem_cons_of_mem _ h)
    refine (congrArg readDecimal htext).trans
      ((readDecimal_fixed hfirst (by simp) hothers rfl).trans ?_)
    rw [hexponent]
    simp
    omega

variable {layout : Layout} {x y : Binary64}

theorem readDecimal_renderMagnitude (layout : Layout) (x : Binary64) :
    ∃ d : Decimal, readDecimal (renderMagnitude layout x).toList = some (d.digits, d.exponent) ∧
      d.value = (x.shortest layout.tie).value := by
  have hdigits := digits_toDigits (x.shortest layout.tie).digits
  have hread : ofDigits (Nat.toDigits 10 (x.shortest layout.tie).digits) =
      (x.shortest layout.tie).digits := Nat.ofDigitChars_ten_toDigits
  unfold renderMagnitude
  dsimp only
  split
  · have hplain := readDecimal_renderPlain hdigits Nat.toDigits_ne_nil
      (x.shortest layout.tie).exponent
    rw [hread] at hplain
    rwa [Int.sub_add_cancel]
  · have hscientific := readDecimal_renderScientific hdigits Nat.toDigits_ne_nil
      layout.exponentPlus (x.shortest layout.tie).exponent
    rw [hread] at hscientific
    exact ⟨_, hscientific, rfl⟩

/-- A text that reads as a decimal carries no sign. -/
theorem splitSign_of_readDecimal {cs : List Char} {r : ℕ × ℤ} (h : readDecimal cs = some r) :
    splitSign cs = (false, cs) := by
  unfold splitSign
  split
  · simp [readDecimal] at h
  · simp [readDecimal] at h
  · rfl

/-- The text of a finite number is its sign and the text of its magnitude. -/
theorem render_finite (layout : Layout) (hx : x.Finite) :
    x.render layout = (if x.isNegative then "-" else "") ++
      if x.isZero then "0.0" else renderMagnitude layout x := by
  unfold render
  rw [hx.isNaN_eq, hx.isInfinite_eq]
  cases x.isZero <;> simp

theorem reads_magnitude (layout : Layout) (hx : x.Finite) :
    ∃ d : Decimal, readDecimal (if x.isZero then "0.0" else renderMagnitude layout x).toList =
      some (d.digits, d.exponent) ∧ Rounds d.value x.magnitude := by
  by_cases hzero : x.isZero = true
  · have hmagnitude : x.magnitude = 0 := of_decide_eq_true hzero
    refine ⟨⟨0, -1⟩, ?_, ?_⟩
    · rw [if_pos hzero]
      decide
    · rw [hmagnitude]
      simpa [Decimal.value] using rounds_zero
  · have hmagnitude : x.magnitude ≠ 0 := fun h => hzero (decide_eq_true h)
    obtain ⟨d, hread, hvalue⟩ := readDecimal_renderMagnitude layout x
    refine ⟨d, ?_, ?_⟩
    · rw [if_neg hzero]
      exact hread
    · rw [hvalue]
      exact Ordinary.rounds_shortest ⟨hmagnitude, hx⟩ layout.tie

/-- **The text of a finite number reads back**: its sign, and a decimal that rounds to it. -/
theorem splitSign_render (layout : Layout) (hx : x.Finite) :
    ∃ (cs : List Char) (d : Decimal), splitSign (x.render layout).toList = (x.isNegative, cs) ∧
      readDecimal cs = some (d.digits, d.exponent) ∧ Rounds d.value x.magnitude := by
  obtain ⟨d, hread, hrounds⟩ := reads_magnitude layout hx
  refine ⟨_, d, ?_, hread, hrounds⟩
  rw [render_finite layout hx, String.toList_append]
  cases x.isNegative
  · exact splitSign_of_readDecimal hread
  · rfl

/-- A number is its sign and its magnitude. -/
theorem ext_magnitude (hsign : x.isNegative = y.isNegative) (h : x.magnitude = y.magnitude) :
    x = y := by
  obtain ⟨a⟩ := x
  obtain ⟨b⟩ := y
  simp only [isNegative, magnitude, signWeight] at hsign h
  congr 1
  have ha := a.toNat_lt
  have hb := b.toNat_lt
  refine UInt64.toNat_inj.mp ?_
  norm_num at *
  omega

/-- **Finite numbers with one text are one number.** -/
theorem render_inj (hx : x.Finite) (hy : y.Finite) (h : x.render layout = y.render layout) :
    x = y := by
  obtain ⟨cs, d, hsign, hread, hrounds⟩ := splitSign_render layout hx
  obtain ⟨cs', d', hsign', hread', hrounds'⟩ := splitSign_render layout hy
  rw [← h, hsign, Prod.mk.injEq] at hsign'
  obtain ⟨hnegative, rfl⟩ := hsign'
  rw [hread, Option.some.injEq, Prod.mk.injEq] at hread'
  obtain rfl : d = d' := by
    cases d
    cases d'
    exact congrArg₂ Decimal.mk hread'.1 hread'.2
  exact ext_magnitude hnegative (hrounds.unique hrounds')

/-! ### The characters of a number -/

theorem numeral_zeros (n : ℕ) : Numeral (zeros n) := numeral_ofList (digits_zeros n)

theorem numeral_renderPlain (hdigits : Digits digits) (point : ℤ) :
    Numeral (renderPlain digits point) := by
  have htake : Digits (digits.take point.toNat) := fun c h => hdigits c (List.mem_of_mem_take h)
  have hdrop : Digits (digits.drop point.toNat) := fun c h => hdigits c (List.mem_of_mem_drop h)
  unfold renderPlain
  dsimp only
  split
  · exact (Numeral.append (by decide) (numeral_zeros _)).append (numeral_ofList hdigits)
  · split
    · exact ((numeral_ofList hdigits).append (numeral_zeros _)).append (by decide)
    · exact ((numeral_ofList htake).append (by decide)).append (numeral_ofList hdrop)

theorem numeral_renderScientific (hdigits : Digits digits) (plus : Bool) (e : ℤ) :
    Numeral (renderScientific plus digits e) := by
  have hplus : Numeral (if plus && 0 ≤ e then "+" else "") := by
    split <;> decide
  unfold renderScientific
  refine ((Numeral.append ?_ (by decide)).append hplus).append (numeral_toString e)
  rcases digits with _ | ⟨first, _ | ⟨second, others⟩⟩
  · exact numeral_ofList hdigits
  · exact numeral_ofList hdigits
  · have hall : (first :: second :: others).all isNumeral = true :=
      List.all_eq_true.mpr fun c hc => isNumeral_of_isDigit (hdigits c hc)
    unfold Numeral
    rw [String.toList_ofList, List.all_cons, List.all_cons, show isNumeral '.' = true from rfl,
      Bool.true_and]
    exact hall

theorem numeral_render (layout : Layout) (hx : x.Finite) : Numeral (x.render layout) := by
  rw [render_finite layout hx]
  refine Numeral.append (by split <;> decide) ?_
  split
  · decide
  · unfold renderMagnitude
    dsimp only
    split
    · exact numeral_renderPlain (digits_toDigits _) _
    · exact numeral_renderScientific (digits_toDigits _) _ _

end Binary64

end QueryPlanner
