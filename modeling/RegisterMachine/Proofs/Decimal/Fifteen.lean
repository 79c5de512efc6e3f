import RegisterMachine.Proofs.Binary64.Arithmetic
import RegisterMachine.Proofs.Decimal.Fewest
import RegisterMachine.Proofs.Decimal.Text

/-!
# Fifteen digits are kept

Two different decimals of at most fifteen digits are at least one part in
`10 ^ 15` of the greater apart (`Decimal.toRat_le_sub_mul`), and reading moves
each of them by no more than one part in `2 ^ 53`. Two of those parts are less
than one of the former, so no two such decimals are read as one double, as long
as both are normal numbers (`Decimal.toRat_eq_of_readsAs`).

A whole number below `10 ^ 15` is such a decimal itself. The shortest decimal of
the double with that value has no more digits, so it has the same value
(`Decimal.IsShortest.toRat_eq`): it can be shorter only by the zeros at the end
of the number, and these are filled in when it is written
(`Decimal.positional_eq_decimalDigits`).
-/

namespace RegisterMachine

/-- **Zeros behind the digits of a number** are a power of ten. -/
theorem decimalDigits_mul_pow {n : ℕ} (hn : n ≠ 0) (k : ℕ) :
    decimalDigits (n * 10 ^ k) = decimalDigits n ++ Decimal.zeros k := by
  induction k with
  | zero =>
    rw [pow_zero, mul_one]
    exact (List.append_nil _).symm
  | succ k ih =>
    have hpos : 0 < n * 10 ^ k :=
      Nat.mul_pos (Nat.pos_of_ne_zero hn) (Nat.pow_pos (by decide))
    have hdigit := Nat.toDigits_append_toDigits (b := 10) (d := 0) (by decide)
      hpos (by decide)
    have hzeros : Decimal.zeros (k + 1) = Decimal.zeros k ++ ['0'] :=
      List.replicate_succ'
    rw [hzeros, ← List.append_assoc, ← ih, pow_succ, ← mul_assoc, mul_comm _ 10]
    exact hdigit.symm

namespace Decimal

variable {d d' : Decimal} {x : Binary64} {k n : ℕ}

/-! ## Decimals apart -/

/-- Different whole numbers, of which the lesser is below a bound, are apart by a
part of the greater. -/
theorem natCast_le_sub_mul {m m' bound : ℕ} (hlt : m < m') (hm : m < bound) :
    (m' : ℚ) ≤ (m' - m) * bound := by
  obtain ⟨gap, rfl⟩ := Nat.exists_eq_add_of_lt hlt
  have hgap : m + gap + 1 ≤ (gap + 1) * bound := by
    calc m + gap + 1 ≤ (gap + 1) * (m + 1) := by nlinarith
      _ ≤ (gap + 1) * bound := Nat.mul_le_mul_left _ hm
  calc ((m + gap + 1 : ℕ) : ℚ) ≤ ((gap + 1) * bound : ℕ) := by
        exact_mod_cast hgap
    _ = _ := by
        push_cast
        ring

/-- **Different decimals of few digits are apart** by a part of the greater. -/
theorem toRat_le_sub_mul (hd : d.digits < 10 ^ k) (hd' : d'.digits < 10 ^ k)
    (h : d.toRat < d'.toRat) :
    d'.toRat ≤ (d'.toRat - d.toRat) * 10 ^ k := by
  -- in the smaller of the two units both are whole numbers
  obtain ⟨p, hp⟩ : ∃ p, p = min d.exponent d'.exponent := ⟨_, rfl⟩
  rw [toRat_eq_of_le (hp.trans_le (min_le_left _ _)),
    toRat_eq_of_le (hp.trans_le (min_le_right _ _))] at h ⊢
  set m := d.digits * 10 ^ (d.exponent - p).toNat with hm
  set m' := d'.digits * 10 ^ (d'.exponent - p).toNat with hm'
  have hunit : (0 : ℚ) < 10 ^ p := by positivity
  unfold toRat at h ⊢
  dsimp only at h ⊢
  have hlt : m < m' := Nat.cast_lt.mp (lt_of_mul_lt_mul_right h hunit.le)
  -- the lesser of them has few digits in that unit as well
  have hfew : m < 10 ^ k := by
    rcases min_choice d.exponent d'.exponent with hmin | hmin
    · rwa [hm, hp, hmin, sub_self, Int.toNat_zero, pow_zero, mul_one]
    · refine hlt.trans ?_
      rwa [hm', hp, hmin, sub_self, Int.toNat_zero, pow_zero, mul_one]
  have hapart := natCast_le_sub_mul hlt hfew
  push_cast at hapart
  calc (m' : ℚ) * 10 ^ p ≤ (m' - m) * 10 ^ k * 10 ^ p := by gcongr
    _ = (m' * 10 ^ p - m * 10 ^ p) * 10 ^ k := by ring

/-- A decimal that reads back is no less than half the number. -/
theorem absRat_le_two_mul (hfin : x.isFinite = true) (h : d.readsAs x = true) :
    x.absRat ≤ 2 * d.toRat := by
  have hzero : (Binary64.zero false).absRat = 0 :=
    (Binary64.isZero_iff_absRat _).mp (by decide)
  -- zero is no nearer to it than the number
  have hnear := (readsAs_iff_isNearestEven.mp h).nearest
    (x.isFinite_abs.trans hfin) (.zero false) (by decide)
  rw [x.absRat_abs, hzero, zero_sub, abs_neg, abs_of_nonneg d.toRat_nonneg]
    at hnear
  linarith [(abs_le.mp hnear).2]

/-- **Reading moves a normal decimal by a part of it.** -/
theorem abs_absRat_sub_le (hfin : x.isFinite = true)
    (hnormal : 2 ^ (-1022 : ℤ) ≤ d.toRat) (h : d.readsAs x = true) :
    |x.absRat - d.toRat| ≤ 1 / 2 ^ 53 * d.toRat := by
  have hround := (readsAs_iff d x).mp h
  have hmoved := Binary64.abs_absRat_ofRat_sub_le_mul false hnormal (by
    rw [hround, x.isFinite_abs, hfin])
  rwa [hround, x.absRat_abs] at hmoved

/-- **Of two decimals with at most fifteen digits** that read back neither is
less than the other. -/
theorem not_toRat_lt (hfin : x.isFinite = true) (hd : d.digits < 10 ^ 15)
    (hd' : d'.digits < 10 ^ 15) (hnormal : 2 ^ (-1022 : ℤ) ≤ d.toRat)
    (h : d.readsAs x = true) (h' : d'.readsAs x = true) :
    ¬d.toRat < d'.toRat := by
  intro hlt
  have hlower := abs_le.mp (abs_absRat_sub_le hfin hnormal h)
  have hupper := abs_le.mp (abs_absRat_sub_le hfin (hnormal.trans hlt.le) h')
  have hapart := toRat_le_sub_mul hd hd' hlt
  have hpos := d.toRat_nonneg.trans_lt hlt
  -- two parts in 2 ^ 53 are less than one in 10 ^ 15
  linarith

/-- **No two decimals of at most fifteen digits are read as one double**, if
both are normal. -/
theorem toRat_eq_of_readsAs (hfin : x.isFinite = true)
    (hd : d.digits < 10 ^ 15) (hd' : d'.digits < 10 ^ 15)
    (hnormal : 2 ^ (-1022 : ℤ) ≤ d.toRat)
    (hnormal' : 2 ^ (-1022 : ℤ) ≤ d'.toRat) (h : d.readsAs x = true)
    (h' : d'.readsAs x = true) : d.toRat = d'.toRat :=
  le_antisymm (not_lt.mp (not_toRat_lt hfin hd' hd hnormal' h' h))
    (not_lt.mp (not_toRat_lt hfin hd hd' hnormal h h'))

/-! ## Whole numbers -/

/-- **The shortest decimal of a whole number below `10 ^ 15`** has its value. -/
theorem IsShortest.toRat_eq (h : d.IsShortest x) (hfin : x.isFinite = true)
    (hn : n < 10 ^ 15) (hvalue : x.absRat = n) : d.toRat = n := by
  have hself : (⟨n, 0⟩ : Decimal).readsAs x = true :=
    readsAs_of_toRat_eq hfin ((toRat_natCast n).trans hvalue.symm)
  have hfewest : digitCount d.digits ≤ digitCount n := h.fewest ⟨n, 0⟩ hself
  rcases Nat.eq_zero_or_pos n with rfl | hpos
  · -- zero itself is nearest
    have hcount : digitCount 0 = digitCount d.digits :=
      le_antisymm (digitCount_pos d.digits) hfewest
    have hnearest := h.nearest ⟨0, 0⟩ hself hcount
    rw [hvalue, toRat_natCast, sub_self, abs_zero] at hnearest
    exact sub_eq_zero.mp (abs_eq_zero.mp (le_antisymm hnearest (abs_nonneg _)))
  · have hone : (1 : ℚ) ≤ n := by exact_mod_cast hpos
    have hhalf := hvalue ▸ absRat_le_two_mul hfin h.readsAs
    have hnormal : (2 : ℚ) ^ (-1022 : ℤ) ≤ 1 / 2 := by
      rw [one_div, ← zpow_neg_one]
      exact zpow_le_zpow_right₀ (by norm_num) (by norm_num)
    have hdigits : d.digits < 10 ^ 15 :=
      digitCount_le_iff.mp (hfewest.trans (digitCount_le_iff.mpr hn))
    rw [← toRat_natCast n]
    refine toRat_eq_of_readsAs hfin hdigits hn ?_ ?_ h.readsAs hself
    · linarith
    · rw [toRat_natCast]
      linarith

/-- **A decimal without zeros at its end that is whole** is written as the
number. -/
theorem positional_eq_decimalDigits (hd : d.digits % 10 = 0 → d = ⟨0, 0⟩)
    (h : d.toRat = n) : d.positional = decimalDigits n := by
  by_cases hzero : d.digits = 0
  · have hn : n = 0 := by
      rw [(toRat_eq_zero_iff d).mpr hzero] at h
      exact_mod_cast h.symm
    rw [hd (by rw [hzero]), hn]
    decide
  · -- it is the number with its zeros in the exponent
    have hne : n ≠ 0 := by
      rintro rfl
      exact hzero ((toRat_eq_zero_iff d).mp (h.trans Nat.cast_zero))
    have htrim : d = trim ⟨n, 0⟩ :=
      eq_of_toRat_eq hd (fun hmod => absurd hmod (digits_trim_mod_ne hne))
        (by rw [toRat_trim, toRat_natCast, h])
    have hexp : 0 ≤ d.exponent := by
      rw [htrim]
      exact (trim_bounds ⟨n, 0⟩).2
    obtain ⟨j, hj⟩ := Int.eq_ofNat_of_zero_le hexp
    have hdigits : d.digits * 10 ^ j = n := by
      rw [toRat, hj, zpow_natCast] at h
      exact_mod_cast h
    have hceiling : d.ceiling = digitCount d.digits + j := by
      rw [ceiling, hj]
    have hpos := digitCount_pos d.digits
    have hwhole : d.wholePart = decimalDigits n := by
      unfold wholePart
      rw [if_pos (by omega), List.take_of_length_le, hj, Int.toNat_natCast,
        ← decimalDigits_mul_pow hzero, hdigits]
      show digitCount d.digits ≤ _
      omega
    unfold positional
    rw [(parts_of_nonneg hexp).1]
    exact hwhole

end Decimal

end RegisterMachine
