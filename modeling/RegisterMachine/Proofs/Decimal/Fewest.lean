import RegisterMachine.Proofs.Binary64.NearestEven
import RegisterMachine.Proofs.Decimal.Seventeen

/-!
# The fewest digits that read back

The shortest decimal of a number is said here without the search: it reads back,
nothing that reads back has fewer digits, nothing with as few is nearer to the
number, and of two that are as near it is the greater (`Decimal.IsShortest`).
There is exactly one such decimal, and the search finds it
(`Decimal.isShortest_iff`).

What makes the search right is that it looks at two decimals on each grid only. A
decimal with no more digits than the grid has room for does not lie strictly
between the two multiples around the number
(`Decimal.le_below_or_succ_below_le`). So if it reads back, then so does the
multiple on its side, which lies between it and the number, and which is no
farther.
-/

namespace RegisterMachine.Decimal

variable {d d' : Decimal} {x : Binary64} {num den : ℕ} {e p : ℤ} {i k : ℕ}

/-- **The shortest decimal of a finite number**, without its sign. -/
structure IsShortest (d : Decimal) (x : Binary64) : Prop where
  /-- It reads back. -/
  readsAs : d.readsAs x = true
  /-- No digit at its end is zero, unless it is zero itself. -/
  eq_zero_of_mod : d.digits % 10 = 0 → d = ⟨0, 0⟩
  /-- Nothing that reads back has fewer digits. -/
  fewest : ∀ d' : Decimal, d'.readsAs x = true →
    digitCount d.digits ≤ digitCount d'.digits
  /-- Nothing that reads back and has as few is nearer. -/
  nearest : ∀ d' : Decimal, d'.readsAs x = true →
    digitCount d'.digits = digitCount d.digits →
      |d.toRat - x.absRat| ≤ |d'.toRat - x.absRat|
  /-- If another is as near, this is the greater one. -/
  greater_of_tie : ∀ d' : Decimal, d'.readsAs x = true →
    digitCount d'.digits = digitCount d.digits →
      |d'.toRat - x.absRat| = |d.toRat - x.absRat| → d'.toRat ≤ d.toRat

/-! ## What reads back -/

/-- **A decimal reads back exactly if the number is the double nearest it.** -/
theorem readsAs_iff_isNearestEven :
    d.readsAs x = true ↔ Binary64.IsNearestEven false d.toRat x.abs := by
  rw [readsAs_iff, Binary64.isNearestEven_iff false d.toRat_nonneg, eq_comm]

/-- Zero reads back as zero only. -/
theorem digits_ne_zero_of_readsAs (hx : x.significand ≠ 0)
    (h : d.readsAs x = true) : d.digits ≠ 0 := by
  intro hzero
  rw [readsAs_iff, (toRat_eq_zero_iff d).mpr hzero] at h
  have hmag : x.magnitude = 0 := by
    rw [← x.magnitude_abs, ← h]
    decide
  exact hx ((Binary64.significand_eq_zero_iff x).mpr hmag)

/-- **Between a decimal that reads back and the number** every decimal does. -/
theorem readsAs_of_between (hfin : x.isFinite = true)
    (hd : d.readsAs x = true)
    (h : (d.toRat ≤ d'.toRat ∧ d'.toRat ≤ x.absRat)
      ∨ (x.absRat ≤ d'.toRat ∧ d'.toRat ≤ d.toRat)) :
    d'.readsAs x = true := by
  rw [readsAs_iff_isNearestEven] at hd ⊢
  rw [← x.absRat_abs] at h
  exact hd.of_between (x.isFinite_abs.trans hfin) h

/-! ## Digits and trimming -/

/-- A number has at most so many digits exactly if it is below that power of
ten. -/
theorem digitCount_le_iff {n k : ℕ} :
    digitCount n ≤ k + 1 ↔ n < 10 ^ (k + 1) :=
  Nat.length_toDigits_le_iff (by decide) k.succ_pos

/-- **Trimming leaves no zero at the end.** -/
theorem digits_trim_mod_ne (h : d.digits ≠ 0) : d.trim.digits % 10 ≠ 0 := by
  unfold trim
  rw [if_neg h]
  exact div_ten_pow_trailingZeros_mod_ne h

/-- Trimming makes a power of ten shorter as well. -/
theorem digitCount_trim_le (h : d.digits ≤ 10 ^ (k + 1)) :
    digitCount d.trim.digits ≤ k + 1 := by
  have htrim := d.trim_bounds.1
  refine digitCount_le_iff.mpr (lt_of_le_of_ne (htrim.trans h) fun heq => ?_)
  have hdigits : d.digits ≠ 0 := by
    have := Nat.pow_pos (n := k + 1) (show 0 < 10 by decide)
    omega
  refine digits_trim_mod_ne hdigits ?_
  rw [heq, pow_succ, Nat.mul_mod_left]

/-- Of two decimals of one value the one with the smaller unit ends in a zero,
unless the units are the same. -/
theorem eq_of_toRat_eq_of_le (hd : d.digits % 10 = 0 → d = ⟨0, 0⟩)
    (h : d.toRat = d'.toRat) (hexp : d.exponent ≤ d'.exponent)
    (hne : d.digits ≠ 0) : d = d' := by
  obtain ⟨j, hj⟩ : ∃ j, (d'.exponent - d.exponent).toNat = j := ⟨_, rfl⟩
  have hdigits : d.digits = d'.digits * 10 ^ j := by
    have hunit : (10 : ℚ) ^ d.exponent ≠ 0 := by positivity
    rw [toRat_eq_of_le hexp, hj, toRat, toRat, mul_left_inj' hunit] at h
    exact_mod_cast h
  cases j with
  | zero =>
    rw [pow_zero, mul_one] at hdigits
    have hexp' : d.exponent = d'.exponent := by omega
    cases d
    cases d'
    simp_all
  | succ j =>
    have hmod : d.digits % 10 = 0 := by
      rw [hdigits, pow_succ, ← mul_assoc, Nat.mul_mod_left]
    rw [hd hmod] at hne
    exact absurd rfl hne

/-- **Decimals of one value are equal** if no zero is at their ends. -/
theorem eq_of_toRat_eq (hd : d.digits % 10 = 0 → d = ⟨0, 0⟩)
    (hd' : d'.digits % 10 = 0 → d' = ⟨0, 0⟩) (h : d.toRat = d'.toRat) :
    d = d' := by
  have hzero : d.digits = 0 ↔ d'.digits = 0 := by
    rw [← toRat_eq_zero_iff, ← toRat_eq_zero_iff, h]
  by_cases hne : d.digits = 0
  · rw [hd (by rw [hne]), hd' (by rw [hzero.mp hne])]
  · rcases le_total d.exponent d'.exponent with hexp | hexp
    · exact eq_of_toRat_eq_of_le hd h hexp hne
    · exact (eq_of_toRat_eq_of_le hd' h.symm hexp (mt hzero.mpr hne)).symm

/-! ## The two multiples around the number -/

/-- The power of ten of a leading digit, in units of the digit that stands so
many places behind it. -/
theorem ten_zpow_eq_mul (e : ℤ) (k : ℕ) :
    (10 : ℚ) ^ e = (10 ^ k : ℕ) * 10 ^ (e - k) := by
  rw [Nat.cast_pow, Nat.cast_ofNat, ← zpow_natCast, ← zpow_add₀ (by norm_num)]
  congr 1
  omega

/-- **The power of ten of the leading digit** is a multiple, no greater than the
lower one. -/
theorem ten_zpow_le_below (hden : den ≠ 0) (hlo : 10 ^ e ≤ (num : ℚ) / den) :
    (10 : ℚ) ^ e ≤ toRat ⟨below num den (e - k), e - k⟩ := by
  obtain ⟨-, hhi⟩ := below_bounds num hden (e - k)
  have hunit : (0 : ℚ) < 10 ^ (e - k) := by positivity
  have hlt : ((10 ^ k : ℕ) : ℚ) * 10 ^ (e - k)
      < ((below num den (e - k) + 1 : ℕ) : ℚ) * 10 ^ (e - k) := by
    rw [← ten_zpow_eq_mul]
    push_cast
    exact hlo.trans_lt hhi
  have hle : 10 ^ k ≤ below num den (e - k) :=
    Nat.lt_succ_iff.mp (Nat.cast_lt.mp (lt_of_mul_lt_mul_right hlt hunit.le))
  calc (10 : ℚ) ^ e = (10 ^ k : ℕ) * 10 ^ (e - k) := ten_zpow_eq_mul e k
    _ ≤ below num den (e - k) * 10 ^ (e - k) := by gcongr

/-- A decimal with few digits that reaches a power of ten has no small unit. -/
theorem le_exponent_of_ten_zpow_le (hd : d.digits < 10 ^ (k + 1))
    (hge : 10 ^ e ≤ d.toRat) : e - k ≤ d.exponent := by
  have hpow : (10 : ℚ) ^ e < 10 ^ ((k + 1 : ℕ) + d.exponent) := by
    calc (10 : ℚ) ^ e ≤ d.digits * 10 ^ d.exponent := hge
      _ < 10 ^ (k + 1) * 10 ^ d.exponent := by
          gcongr
          exact_mod_cast hd
      _ = 10 ^ ((k + 1 : ℕ) + d.exponent) := by
          rw [zpow_add₀ (by norm_num), zpow_natCast]
  have := (zpow_lt_zpow_iff_right₀ (by norm_num)).mp hpow
  omega

/-- **A decimal with few digits lies on one side of both multiples** of a power
of ten around a number, if the number has as many digits in front of that power
as the decimal has at all. -/
theorem le_below_or_succ_below_le (hden : den ≠ 0)
    (hlo : 10 ^ e ≤ (num : ℚ) / den) (hd : d.digits < 10 ^ (k + 1)) :
    d.toRat ≤ toRat ⟨below num den (e - k), e - k⟩
      ∨ toRat ⟨below num den (e - k) + 1, e - k⟩ ≤ d.toRat := by
  rcases lt_or_ge d.toRat (10 ^ e) with hlt | hge
  · exact .inl (hlt.le.trans (ten_zpow_le_below hden hlo))
  · -- the decimal is a multiple itself
    rw [toRat_eq_of_le (le_exponent_of_ten_zpow_le hd hge)]
    unfold toRat
    dsimp only
    generalize below num den (e - k) = b
    generalize d.digits * 10 ^ (d.exponent - (e - k)).toNat = n
    rcases le_or_gt n b with hle | hgt
    · left
      gcongr
    · right
      gcongr
      exact hgt

/-- **If a decimal with few digits reads back, then so does the multiple on its
side.** -/
theorem readsAs_below_or_succ_below (hfin : x.isFinite = true) (hden : den ≠ 0)
    (hvalue : x.absRat = num / den) (hlo : 10 ^ e ≤ x.absRat)
    (hd : d.digits < 10 ^ (k + 1)) (hback : d.readsAs x = true) :
    (d.toRat ≤ toRat ⟨below num den (e - k), e - k⟩
        ∧ readsAs ⟨below num den (e - k), e - k⟩ x = true)
      ∨ (toRat ⟨below num den (e - k) + 1, e - k⟩ ≤ d.toRat
        ∧ readsAs ⟨below num den (e - k) + 1, e - k⟩ x = true) := by
  obtain ⟨hbelow, habove⟩ := below_bounds num hden (e - k)
  rw [← hvalue] at hbelow habove
  rcases le_below_or_succ_below_le hden (hvalue ▸ hlo) hd with hle | hge
  · exact .inl ⟨hle, readsAs_of_between hfin hback (.inl ⟨hle, hbelow⟩)⟩
  · refine .inr ⟨hge, readsAs_of_between hfin hback (.inr ⟨?_, hge⟩)⟩
    unfold toRat
    push_cast
    exact habove.le

/-- **The remainder tells which multiple is nearer.** -/
theorem two_mul_mod_lt_iff (num : ℕ) (hden : den ≠ 0) (p : ℤ) :
    2 * (num * 10 ^ (-p).toNat % (den * 10 ^ p.toNat)) < den * 10 ^ p.toNat
      ↔ num / den - toRat ⟨below num den p, p⟩
        < toRat ⟨below num den p + 1, p⟩ - num / den := by
  have hunit : (0 : ℚ) < 10 ^ p := by positivity
  have hpos : 0 < den * 10 ^ p.toNat :=
    Nat.mul_pos (Nat.pos_of_ne_zero hden) (Nat.pow_pos (by decide))
  have hscaled : (num : ℚ) / den
      = ((num * 10 ^ (-p).toNat : ℕ) : ℚ) / ((den * 10 ^ p.toNat : ℕ) : ℚ)
        * 10 ^ p := by
    rw [← div_div_zpow_eq, div_mul_cancel₀ _ hunit.ne']
  have hbelow : below num den p
      = num * 10 ^ (-p).toNat / (den * 10 ^ p.toNat) := rfl
  rw [hscaled, hbelow]
  unfold toRat
  dsimp only
  generalize num * 10 ^ (-p).toNat = n
  generalize den * 10 ^ p.toNat = u at hpos ⊢
  have hu : (0 : ℚ) < u := by exact_mod_cast hpos
  have hdivision : (n : ℚ) = u * (n / u : ℕ) + (n % u : ℕ) := by
    exact_mod_cast (Nat.div_add_mod n u).symm
  have hquotient : (n : ℚ) / u = (n / u : ℕ) + (n % u : ℕ) / u := by
    rw [div_eq_iff hu.ne', add_mul, div_mul_cancel₀ _ hu.ne', mul_comm]
    exact hdivision
  rw [hquotient, ← sub_mul, ← sub_mul, mul_lt_mul_iff_left₀ hunit, Nat.cast_add,
    Nat.cast_one, add_sub_cancel_left, add_sub_add_left_eq_sub, lt_sub_iff_add_lt,
    ← add_div, div_lt_one hu, ← two_mul]
  exact_mod_cast Iff.rfl

/-- **Which multiple is found on a grid**: the lower one, if the upper does not
read back or is farther; the upper one, if the lower does not read back or is no
nearer. -/
theorem onGrid?_up_cases (hden : den ≠ 0)
    (h : onGrid? .up x num den p = some d) :
    (d = ⟨below num den p, p⟩ ∧ (readsAs ⟨below num den p + 1, p⟩ x = true →
        num / den - toRat ⟨below num den p, p⟩
          < toRat ⟨below num den p + 1, p⟩ - num / den))
      ∨ (d = ⟨below num den p + 1, p⟩ ∧ (readsAs ⟨below num den p, p⟩ x = true →
        toRat ⟨below num den p + 1, p⟩ - num / den
          ≤ num / den - toRat ⟨below num den p, p⟩)) := by
  have hhalf := two_mul_mod_lt_iff num hden p
  have hlower : below num den p
      = num * 10 ^ (-p).toNat / (den * 10 ^ p.toNat) := rfl
  unfold onGrid? at h
  dsimp only at h
  rw [← hlower] at h
  split at h
  · unfold nearer at h
    split at h
    · next hlt => exact .inl ⟨(Option.some.inj h).symm, fun _ => hhalf.mp hlt⟩
    · next hge =>
      have hle := not_lt.mp (mt hhalf.mpr hge)
      have hupper : d = ⟨below num den p + 1, p⟩ := by
        split at h <;> exact (Option.some.inj h).symm
      exact .inr ⟨hupper, fun _ => hle⟩
  · next hupper =>
    exact .inl ⟨(Option.some.inj h).symm, fun hread =>
      absurd (hread.symm.trans hupper) (by decide)⟩
  · next hlower _ =>
    exact .inr ⟨(Option.some.inj h).symm, fun hread =>
      absurd (hread.symm.trans hlower) (by decide)⟩
  · cases h

/-- **What is found on a grid is nearest** among all values beyond a multiple
that reads back, and the greatest of those that are as near. -/
theorem onGrid?_up_nearest (hden : den ≠ 0) (hvalue : x.absRat = num / den)
    (h : onGrid? .up x num den p = some d) {w : ℚ}
    (hw : (w ≤ toRat ⟨below num den p, p⟩
          ∧ readsAs ⟨below num den p, p⟩ x = true)
        ∨ (toRat ⟨below num den p + 1, p⟩ ≤ w
          ∧ readsAs ⟨below num den p + 1, p⟩ x = true)) :
    |d.toRat - x.absRat| ≤ |w - x.absRat|
      ∧ (|w - x.absRat| = |d.toRat - x.absRat| → w ≤ d.toRat) := by
  have hcases := onGrid?_up_cases hden h
  have hbounds : toRat ⟨below num den p, p⟩ ≤ num / den
      ∧ (num : ℚ) / den < toRat ⟨below num den p + 1, p⟩ := by
    have hbelow := below_bounds num hden p
    unfold toRat
    push_cast
    exact hbelow
  obtain ⟨hbelow, habove⟩ := hbounds
  rw [hvalue]
  generalize (num : ℚ) / den = v at *
  rcases hcases with ⟨rfl, hother⟩ | ⟨rfl, hother⟩
  · rw [abs_of_nonpos (sub_nonpos.mpr hbelow)]
    rcases hw with ⟨hle, -⟩ | ⟨hge, hread⟩
    · rw [abs_of_nonpos (by linarith)]
      exact ⟨by linarith, fun _ => hle⟩
    · have hlt := hother hread
      rw [abs_of_nonneg (by linarith)]
      exact ⟨by linarith, fun htie => by linarith⟩
  · rw [abs_of_nonneg (sub_nonneg.mpr habove.le)]
    rcases hw with ⟨hle, hread⟩ | ⟨hge, -⟩
    · have hge := hother hread
      rw [abs_of_nonpos (by linarith)]
      exact ⟨by linarith, fun _ => by linarith⟩
    · rw [abs_of_nonneg (by linarith)]
      exact ⟨by linarith, fun htie => by linarith⟩

/-! ## The shortest decimal -/

/-- **Nothing that reads back has fewer digits** than the grid that the search
ends on has room for. -/
theorem IsFound.lt_digitCount {tie : Tie} (h : IsFound tie x num den e i d)
    (hfin : x.isFinite = true) (hd' : d'.readsAs x = true) :
    i < digitCount d'.digits := by
  have hpos := digitCount_pos d'.digits
  by_contra! hle
  -- it would have been found on the grid of its own last digit
  obtain ⟨j, hj⟩ : ∃ j, digitCount d'.digits = j + 1 :=
    ⟨digitCount d'.digits - 1, by omega⟩
  have hlt : d'.digits < 10 ^ (j + 1) := digitCount_le_iff.mp hj.le
  have hsixteen := h.le_sixteen
  have hfirst := h.first j (by omega) (isSome_onGrid? (by
    rcases readsAs_below_or_succ_below hfin h.den_ne_zero h.value_eq h.le_value
      hlt hd' with ⟨-, hread⟩ | ⟨-, hread⟩
    · exact .inl hread
    · exact .inr hread))
  omega

/-- The shortest decimal reads back. -/
theorem readsAs_shortest (tie : Tie) (hfin : x.isFinite = true) :
    (shortest tie x).readsAs x = true := by
  unfold readsAs
  rw [toBinary64_shortest tie false hfin]
  exact beq_self_eq_true _

/-- Only zero is printed as zero. -/
theorem shortest_of_significand_eq_zero (tie : Tie) (hx : x.significand = 0) :
    shortest tie x = ⟨0, 0⟩ := by
  unfold shortest
  rw [Binary64.isZero, (Binary64.significand_eq_zero_iff x).mp hx]
  rfl

/-- **The search finds the shortest decimal** of a number that is not zero. -/
theorem IsFound.isShortest (h : IsFound .up x num den e i d)
    (hfin : x.isFinite = true) (hx : x.significand ≠ 0) :
    (shortest .up x).IsShortest x := by
  have hread := readsAs_shortest .up hfin
  have hfewest : ∀ {d' : Decimal}, d'.readsAs x = true →
      i < digitCount d'.digits := h.lt_digitCount hfin
  rw [h.shortest_eq] at hread ⊢
  have hcount : digitCount d.trim.digits = i + 1 :=
    le_antisymm (digitCount_trim_le h.digits_le) (hfewest hread)
  have hnearest : ∀ d' : Decimal, d'.readsAs x = true →
      digitCount d'.digits = digitCount d.trim.digits →
        |d.toRat - x.absRat| ≤ |d'.toRat - x.absRat|
          ∧ (|d'.toRat - x.absRat| = |d.toRat - x.absRat| →
            d'.toRat ≤ d.toRat) := by
    intro d' hd' hcount'
    have hlt : d'.digits < 10 ^ (i + 1) :=
      digitCount_le_iff.mp (hcount'.trans hcount).le
    exact onGrid?_up_nearest h.den_ne_zero h.value_eq h.onGrid_eq
      (readsAs_below_or_succ_below hfin h.den_ne_zero h.value_eq h.le_value hlt
        hd')
  have hdigits : d.digits ≠ 0 := by
    rw [Ne, ← toRat_eq_zero_iff, ← toRat_trim, toRat_eq_zero_iff]
    exact digits_ne_zero_of_readsAs hx hread
  rw [← toRat_trim d] at hnearest
  exact
    { readsAs := hread
      eq_zero_of_mod := fun hmod => absurd hmod (digits_trim_mod_ne hdigits)
      fewest := fun d' hd' => hcount.trans_le (hfewest hd')
      nearest := fun d' hd' hcount' => (hnearest d' hd' hcount').1
      greater_of_tie := fun d' hd' hcount' => (hnearest d' hd' hcount').2 }

/-- Zero is its own shortest decimal. -/
theorem isShortest_zero (hfin : x.isFinite = true) (hx : x.significand = 0) :
    (shortest .up x).IsShortest x := by
  have hread := readsAs_shortest .up hfin
  have hvalue : x.absRat = 0 := by
    rw [Binary64.absRat, hx, Nat.cast_zero, zero_mul]
  have hzero : toRat ⟨0, 0⟩ = 0 := (toRat_eq_zero_iff _).mpr rfl
  rw [shortest_of_significand_eq_zero .up hx] at hread ⊢
  refine ⟨hread, fun _ => rfl, fun d' _ => digitCount_pos d'.digits,
    fun d' _ _ => ?_, fun d' _ _ htie => ?_⟩
  · rw [hzero, hvalue, sub_zero, abs_zero]
    exact abs_nonneg _
  · rw [hzero, hvalue, sub_zero, sub_zero, abs_zero, abs_eq_zero] at htie
    rw [htie, hzero]

theorem isShortest_shortest (hfin : x.isFinite = true) :
    (shortest .up x).IsShortest x := by
  by_cases hx : x.significand = 0
  · exact isShortest_zero hfin hx
  · obtain ⟨num, den, e, i, d, h⟩ := exists_isFound .up hfin hx
    exact h.isShortest hfin hx

/-- **There is one shortest decimal.** -/
theorem IsShortest.unique (hd : d.IsShortest x) (hd' : d'.IsShortest x) :
    d = d' := by
  have hcount : digitCount d.digits = digitCount d'.digits :=
    le_antisymm (hd.fewest d' hd'.readsAs) (hd'.fewest d hd.readsAs)
  have htie : |d.toRat - x.absRat| = |d'.toRat - x.absRat| :=
    le_antisymm (hd.nearest d' hd'.readsAs hcount.symm)
      (hd'.nearest d hd.readsAs hcount)
  exact eq_of_toRat_eq hd.eq_zero_of_mod hd'.eq_zero_of_mod
    (le_antisymm (hd'.greater_of_tie d hd.readsAs hcount htie)
      (hd.greater_of_tie d' hd'.readsAs hcount.symm htie.symm))

/-- **The search finds the shortest decimal**, and there is no other. -/
theorem isShortest_iff (hfin : x.isFinite = true) :
    d.IsShortest x ↔ d = shortest .up x :=
  ⟨fun h => h.unique (isShortest_shortest hfin),
    fun h => h ▸ isShortest_shortest hfin⟩

end RegisterMachine.Decimal
