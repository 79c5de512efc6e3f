import RegisterMachine.Json.Number
import RegisterMachine.Proofs.Binary64.Arithmetic

/-!
# Scaling digits, and the error it makes

The digits of a real number are read as a double and scaled by a power of ten,
with a rounding each time: the digits, the power, and each product or quotient.
If digits and power are doubles themselves only the last rounding counts, and
the number that was written is read (`Json.scale_eq_ofRat`). Otherwise the
roundings add up, to less than three places of a double
(`Json.exists_scale_eq`).
-/

namespace RegisterMachine.Json

open Binary64

/-! ## Errors in products and quotients -/

section Errors

variable {a d p q c e v w : ℚ}

/-- The relative errors of two factors add up, but for their product. -/
theorem abs_mul_sub_le (hd : 0 ≤ d) (hq : 0 ≤ q) (ha : |a - d| ≤ c * d)
    (hp : |p - q| ≤ e * q) :
    |a * p - d * q| ≤ (c + e + c * e) * (d * q) := by
  have hcd : 0 ≤ c * d := (abs_nonneg _).trans ha
  have hsplit : a * p - d * q
      = (a - d) * q + d * (p - q) + (a - d) * (p - q) := by ring
  calc |a * p - d * q|
      ≤ |(a - d) * q| + |d * (p - q)| + |(a - d) * (p - q)| := by
        rw [hsplit]
        exact abs_add_three _ _ _
    _ = |a - d| * q + d * |p - q| + |a - d| * |p - q| := by
        rw [abs_mul, abs_mul, abs_mul, abs_of_nonneg hd, abs_of_nonneg hq]
    _ ≤ c * d * q + d * (e * q) + c * d * (e * q) := by gcongr
    _ = (c + e + c * e) * (d * q) := by ring

/-- The relative errors of numerator and denominator add up, in parts of the
least denominator. -/
theorem abs_div_sub_le (hd : 0 ≤ d) (hq : 0 < q) (he : e < 1)
    (ha : |a - d| ≤ c * d) (hp : |p - q| ≤ e * q) :
    |a / p - d / q| ≤ (c + e) / (1 - e) * (d / q) := by
  have hlow : (1 - e) * q ≤ p := by linarith [(abs_le.mp hp).1]
  have hpos : 0 < (1 - e) * q := mul_pos (by linarith) hq
  have hsplit : a / p - d / q = ((a - d) * q - d * (p - q)) / (p * q) := by
    have := (hpos.trans_le hlow).ne'
    field_simp
    ring
  have hnum : |(a - d) * q - d * (p - q)| ≤ (c + e) * (d * q) := by
    calc |(a - d) * q - d * (p - q)|
        ≤ |(a - d) * q| + |d * (p - q)| := abs_sub _ _
      _ = |a - d| * q + d * |p - q| := by
          rw [abs_mul, abs_mul, abs_of_nonneg hd, abs_of_pos hq]
      _ ≤ c * d * q + d * (e * q) := by gcongr
      _ = (c + e) * (d * q) := by ring
  have hnonneg : 0 ≤ (c + e) * (d * q) := (abs_nonneg _).trans hnum
  rw [hsplit, abs_div, abs_of_pos (mul_pos (hpos.trans_le hlow) hq)]
  calc _ ≤ (c + e) * (d * q) / ((1 - e) * q * q) := by gcongr
    _ = (c + e) / (1 - e) * (d / q) := by
        have : (1 - e) ≠ 0 := by linarith
        field_simp

/-- An error relative to one of two values is one relative to the smaller. -/
theorem abs_sub_le_mul_min (hv : 0 ≤ v) (hc : 0 ≤ c) (hc1 : c < 1)
    {b : ℚ} (hb : 0 ≤ b) (h : |w - v| ≤ c * v + b) :
    |w - v| ≤ c / (1 - c) * min v w + (1 + c / (1 - c)) * b := by
  have hpos : 0 < 1 - c := by linarith
  have hlow : (1 - c) * v - b ≤ min v w := by
    refine le_min ?_ ?_
    · nlinarith
    · linarith [(abs_le.mp h).1]
  calc |w - v| ≤ c * v + b := h
    _ = c / (1 - c) * ((1 - c) * v - b) + (1 + c / (1 - c)) * b := by
        field_simp
        ring
    _ ≤ c / (1 - c) * min v w + (1 + c / (1 - c)) * b := by gcongr

end Errors

/-! ## The powers of ten -/

theorem negative_powerOfTen (n : ℕ) : (powerOfTen n).negative = false := by
  unfold powerOfTen
  rw [ofRatio_eq_ofRat _ _ Nat.one_pos]
  exact negative_ofRat _ _

theorem powerOfTen_eq_ofRat (n : ℕ) :
    powerOfTen n = ofRat false ((10 : ℚ) ^ n) := by
  unfold powerOfTen
  rw [ofRatio_eq_ofRat _ _ Nat.one_pos, Nat.cast_one, div_one]
  norm_cast

/-- **The powers of ten up to `10 ^ 22` are doubles.** -/
theorem absRat_powerOfTen {n : ℕ} (h : n ≤ 22) :
    (powerOfTen n).absRat = 10 ^ n := by
  have hexact : ∀ n ≤ 22, (powerOfTen n).significand
      * 2 ^ (powerOfTen n).exponent.toNat
        = 10 ^ n * 2 ^ (-(powerOfTen n).exponent).toNat := by decide +kernel
  rw [absRat_eq_div, div_eq_iff (by positivity)]
  exact_mod_cast hexact n h

theorem ten_pow_308_le : 10 ^ 308 ≤ 3 * 2 ^ 1022 := by decide +kernel

/-- **The powers of ten that numbers are scaled by** are rounded once. -/
theorem abs_powerOfTen_sub_le {n : ℕ} (h : n ≤ 308) :
    |(powerOfTen n).absRat - 10 ^ n| ≤ 1 / 2 ^ 53 * 10 ^ n := by
  have hone : (1 : ℚ) ≤ 10 ^ n := one_le_pow₀ (by norm_num)
  have hfinite : (10 : ℚ) ^ n ≤ 3 * 2 ^ 1022 := by
    calc (10 : ℚ) ^ n ≤ 10 ^ 308 := pow_le_pow_right₀ (by norm_num) h
      _ ≤ 3 * 2 ^ 1022 := by exact_mod_cast ten_pow_308_le
  rw [powerOfTen_eq_ofRat]
  refine abs_absRat_ofRat_sub_le_mul false (le_trans ?_ hone)
    (isFinite_ofRat false (by positivity) hfinite)
  exact zpow_le_one_of_nonpos₀ (by norm_num) (by norm_num)

/-- The greatest of them happens to be rounded by very little. -/
theorem abs_powerOfTen_308_sub_le :
    |(powerOfTen 308).absRat - 10 ^ 308| ≤ 1 / (10 * 2 ^ 53) * 10 ^ 308 := by
  have hexp : (powerOfTen 308).exponent = (971 : ℕ) := by
    decide +kernel
  obtain ⟨hupper, hlower⟩ :
      10 * 2 ^ 53 * ((powerOfTen 308).significand * 2 ^ 971)
        ≤ (10 * 2 ^ 53 + 1) * 10 ^ 308
      ∧ (10 * 2 ^ 53 - 1) * 10 ^ 308
        ≤ 10 * 2 ^ 53 * ((powerOfTen 308).significand * 2 ^ 971) := by
    decide +kernel
  have hvalue : (powerOfTen 308).absRat
      = (((powerOfTen 308).significand * 2 ^ 971 : ℕ) : ℚ) := by
    unfold absRat
    rw [hexp, zpow_natCast, Nat.cast_mul, Nat.cast_pow, Nat.cast_ofNat]
  have hten : (10 : ℚ) ^ 308 = ((10 ^ 308 : ℕ) : ℚ) := by
    rw [Nat.cast_pow, Nat.cast_ofNat]
  rw [hvalue, hten]
  generalize (powerOfTen 308).significand * 2 ^ 971 = m at hupper hlower
  generalize 10 ^ 308 = n at hupper hlower
  have hupper' : (10 * 2 ^ 53 * m : ℚ) ≤ (10 * 2 ^ 53 + 1) * n := by
    exact_mod_cast hupper
  have hlower' : ((10 * 2 ^ 53 - 1) * n : ℚ) ≤ 10 * 2 ^ 53 * m := by
    have hcast : (((10 * 2 ^ 53 - 1) * n : ℕ) : ℚ) ≤ (10 * 2 ^ 53 * m : ℕ) :=
      Nat.cast_le.mpr hlower
    norm_num at hcast ⊢
    exact hcast
  rw [abs_le]
  constructor <;> linarith

theorem powerOfTen_pos {n : ℕ} (h : n ≤ 308) : 0 < (powerOfTen n).absRat := by
  have hnear := (abs_le.mp (abs_powerOfTen_sub_le h)).1
  have hpos : (0 : ℚ) < 10 ^ n := by positivity
  linarith

/-! ## Scaling, case by case -/

theorem scale_of_nonneg (x : Binary64) {e : ℤ} (h0 : 0 ≤ e) (h : e ≤ 308) :
    scale x e = if (x.mul (powerOfTen e.natAbs)).isInfinite
      then .error .malformed else .ok (x.mul (powerOfTen e.natAbs)) := by
  rw [scale, dif_pos (by omega), if_pos h0]

theorem scale_of_neg (x : Binary64) {e : ℤ} (h0 : e < 0) (h : -308 ≤ e) :
    scale x e = .ok (x.div (powerOfTen e.natAbs)) := by
  rw [scale, dif_pos (by omega), if_neg (by omega)]

theorem scale_of_lt {x : Binary64} {e : ℤ} (h : e < -308)
    (hx : x.isZero = false) :
    scale x e = scale (x.div (powerOfTen 308)) (e + 308) := by
  rw [scale, dif_neg (by omega), if_neg (by rw [hx]; decide),
    if_neg (by omega)]

theorem mul_powerOfTen (n : ℕ) {x : Binary64} (hx : x.negative = false) :
    x.mul (powerOfTen n) = ofRat false (x.absRat * (powerOfTen n).absRat) := by
  rw [mul_eq_ofRat, hx, negative_powerOfTen]
  rfl

theorem div_powerOfTen {n : ℕ} (h : n ≤ 308) {x : Binary64}
    (hx : x.negative = false) :
    x.div (powerOfTen n) = ofRat false (x.absRat / (powerOfTen n).absRat) := by
  rw [div_eq_ofRat x (significand_ne_zero (powerOfTen_pos h)), hx,
    negative_powerOfTen]
  rfl

theorem negative_ofInt (n : ℕ) : (ofInt n).negative = false := by
  rw [ofInt_natCast]
  exact negative_ofRat _ _

theorem ten_zpow_natAbs {e : ℤ} (h : e < 0) :
    (10 : ℚ) ^ e = 1 / 10 ^ e.natAbs := by
  obtain ⟨n, rfl⟩ : ∃ n : ℕ, e = -n := ⟨e.natAbs, by omega⟩
  rw [Int.natAbs_neg, Int.natAbs_natCast, zpow_neg, zpow_natCast, one_div]

theorem ten_zpow_natAbs_of_nonneg {e : ℤ} (h : 0 ≤ e) :
    (10 : ℚ) ^ e = 10 ^ e.natAbs := by
  obtain ⟨n, rfl⟩ : ∃ n : ℕ, e = n := ⟨e.natAbs, by omega⟩
  rw [Int.natAbs_natCast, zpow_natCast]

/-- **Few digits and a small power of ten are scaled in one rounding.** -/
theorem scale_eq_ofRat {n : ℕ} {e : ℤ} (hn : n < 2 ^ 53)
    (he : e.natAbs ≤ 22)
    (hfin : (ofRat false ((n : ℚ) * 10 ^ e)).isFinite = true) :
    scale (ofInt n) e = .ok (ofRat false ((n : ℚ) * 10 ^ e)) := by
  rcases le_or_gt 0 e with h | h
  · have hmul : (ofInt n).mul (powerOfTen e.natAbs)
        = ofRat false ((n : ℚ) * 10 ^ e) := by
      rw [mul_powerOfTen _ (negative_ofInt n), absRat_ofInt hn,
        absRat_powerOfTen he, ten_zpow_natAbs_of_nonneg h]
    have hlt := of_decide_eq_true hfin
    rw [scale_of_nonneg _ h (by omega), hmul, if_neg]
    exact fun hinf => hlt.ne (eq_of_beq hinf)
  · rw [scale_of_neg _ h (by omega),
      div_powerOfTen (by omega) (negative_ofInt n), absRat_ofInt hn,
      absRat_powerOfTen he, ten_zpow_natAbs h, mul_one_div]

/-! ## The error of scaling -/

theorem abs_ofInt_sub_le {n : ℕ} (h0 : n ≠ 0) (h : n < 2 ^ 64) :
    |(ofInt n).absRat - n| ≤ 1 / 2 ^ 53 * n := by
  have hone : (1 : ℚ) ≤ n := by exact_mod_cast Nat.pos_of_ne_zero h0
  have hlt : (n : ℚ) ≤ 3 * 2 ^ 1022 := by
    have hle : 2 ^ 64 ≤ 3 * 2 ^ 1022 := by decide +kernel
    exact_mod_cast (h.le.trans hle)
  rw [ofInt_natCast]
  refine abs_absRat_ofRat_sub_le_mul false (le_trans ?_ hone)
    (isFinite_ofRat false (by positivity) hlt)
  exact zpow_le_one_of_nonpos₀ (by norm_num) (by norm_num)

/-- A small relative error leaves a value positive and close in place. -/
theorem position_near {v w b : ℚ} (hv : 0 < v)
    (hb : 0 ≤ b) (hb' : b * 2 ^ 1074 ≤ 1 / 20) (hbv : b ≤ v / 4)
    (h : |w - v| ≤ 9 / 4 * (1 / 2 ^ 53) * v + b) :
    0 < w ∧ |position w - position v| < 3 := by
  have hw : 0 < w := by linarith [(abs_le.mp h).1]
  refine ⟨hw, ?_⟩
  have hmin := abs_sub_le_mul_min hv.le (by norm_num) (by norm_num) hb h
  have hplaces := abs_position_sub_le hv hw (by norm_num) (by positivity) hmin
  refine hplaces.trans_lt ?_
  rw [mul_assoc (1 + _) b]
  generalize b * 2 ^ 1074 = r at hb'
  norm_num
  linarith

/-- The same without a part of the least double. -/
theorem position_near_of_le {v w c : ℚ} (hv : 0 < v)
    (hc : c ≤ 9 / 4 * (1 / 2 ^ 53)) (h : |w - v| ≤ c * v) :
    0 < w ∧ |position w - position v| < 3 := by
  refine position_near (b := 0) hv le_rfl (by norm_num) (by positivity) ?_
  rw [add_zero]
  exact h.trans (mul_le_mul_of_nonneg_right hc hv.le)

theorem two_zpow_mul : (2 : ℚ) ^ (-1075 : ℤ) * 2 ^ 1074 = 1 / 2 := by
  rw [← zpow_natCast, ← zpow_add₀ (by norm_num)]
  norm_num

/-- The least double is far below what the first division leaves. -/
theorem two_zpow_lt_div {n : ℕ} (h0 : n ≠ 0) :
    (2 : ℚ) ^ (-1075 : ℤ) < (n : ℚ) / 10 ^ 308 / 8 := by
  have hnat : 10 ^ 308 * 8 < 2 ^ 1075 := by decide +kernel
  have hone : (1 : ℚ) ≤ n := by exact_mod_cast Nat.pos_of_ne_zero h0
  have hpower : (1 : ℚ) / (10 ^ 308 * 8) ≤ n / (10 ^ 308 * 8) :=
    div_le_div_of_nonneg_right hone (by positivity)
  rw [div_div]
  refine lt_of_lt_of_le ?_ hpower
  rw [zpow_neg, one_div]
  exact inv_strictAnti₀ (by positivity) (by exact_mod_cast hnat)

/-- The first of two divisions, when the power of ten needs two. -/
theorem abs_div_308_sub_le {n : ℕ} (h0 : n ≠ 0) (h : n < 2 ^ 64) :
    |((ofInt n).div (powerOfTen 308)).absRat - (n : ℚ) / 10 ^ 308|
      ≤ 9 / 4 * (1 / 2 ^ 53) * ((n : ℚ) / 10 ^ 308) + 2 ^ (-1075 : ℤ) := by
  have hn : (0 : ℚ) < n := by exact_mod_cast Nat.pos_of_ne_zero h0
  have hdigits := abs_ofInt_sub_le h0 h
  have ha : 0 < (ofInt n).absRat := by linarith [(abs_le.mp hdigits).1]
  have hq : 0 < (ofInt n).absRat / (powerOfTen 308).absRat :=
    div_pos ha (powerOfTen_pos le_rfl)
  have hquotient := abs_div_sub_le hn.le (by positivity) (by norm_num) hdigits
    abs_powerOfTen_308_sub_le
  have hv : (0 : ℚ) < (n : ℚ) / 10 ^ 308 := by positivity
  have hv' : (n : ℚ) / 10 ^ 308 ≤ 2 ^ 64 := by
    refine (div_le_self hn.le (one_le_pow₀ (by norm_num))).trans ?_
    exact_mod_cast h.le
  rw [div_powerOfTen le_rfl (negative_ofInt n)]
  generalize (ofInt n).absRat / (powerOfTen 308).absRat = q at hquotient hq
  generalize (n : ℚ) / 10 ^ 308 = v at hquotient hv hv'
  have hclose : |q - v| ≤ 6 / 5 * (1 / 2 ^ 53) * v :=
    hquotient.trans (by gcongr; norm_num)
  have hfin : (ofRat false q).isFinite = true := by
    refine isFinite_ofRat false hq.le (le_trans (b := 2 ^ 65) ?_ ?_)
    · linarith [(abs_le.mp hclose).2]
    · exact_mod_cast (by decide +kernel : 2 ^ 65 ≤ 3 * 2 ^ 1022)
  have hround := abs_absRat_ofRat_sub_le_add false hq hfin
  have htriangle := abs_sub_le (ofRat false q).absRat q v
  generalize (2 : ℚ) ^ (-1075 : ℤ) = least at hround ⊢
  linarith [(abs_le.mp hclose).2]

/-- **Two divisions go less than three places wrong**, for the second one is by
a power of ten that is a double. -/
theorem exists_scale_eq_of_lt {n : ℕ} {e : ℤ} (h0 : n ≠ 0) (h : n < 2 ^ 64)
    (hlo : -324 ≤ e) (hhi : e < -308) :
    ∃ w, 0 < w ∧ |position w - position ((n : ℚ) * 10 ^ e)| < 3
      ∧ scale (ofInt n) e = .ok (ofRat false w) := by
  have hn : (0 : ℚ) < n := by exact_mod_cast Nat.pos_of_ne_zero h0
  have hv : 0 < (n : ℚ) * 10 ^ e := by positivity
  have hfirst := abs_div_308_sub_le h0 h
  set x := (ofInt n).div (powerOfTen 308) with hx
  set k := (e + 308).natAbs with hk
  have hten : (n : ℚ) * 10 ^ e = (n : ℚ) / 10 ^ 308 / 10 ^ k := by
    rw [ten_zpow_natAbs (by omega), show e.natAbs = 308 + k by omega, pow_add]
    field_simp
  have hleast := two_zpow_lt_div h0
  have hnegative : x.negative = false := by
    rw [hx, div_powerOfTen le_rfl (negative_ofInt n)]
    exact negative_ofRat _ _
  have hzero : (ofInt n).isZero = false := by
    refine beq_false_of_ne fun hzero => ?_
    refine significand_ne_zero ?_ ((significand_eq_zero_iff _).mpr hzero)
    linarith [(abs_le.mp (abs_ofInt_sub_le h0 h)).1]
  have hten1 : (10 : ℚ) ≤ 10 ^ k := le_self_pow₀ (by norm_num) (by omega)
  have hk0 : (0 : ℚ) < 10 ^ k := by positivity
  rw [hten] at hv ⊢
  generalize (n : ℚ) / 10 ^ 308 = v at hfirst hleast hv
  have hleast0 : (0 : ℚ) ≤ 2 ^ (-1075 : ℤ) := by positivity
  have hscaled : |x.absRat / 10 ^ k - v / 10 ^ k|
      ≤ 9 / 4 * (1 / 2 ^ 53) * (v / 10 ^ k) + 2 ^ (-1075 : ℤ) / 10 ^ k := by
    rw [← sub_div, abs_div, abs_of_pos hk0, mul_div_assoc', ← add_div]
    gcongr
  have htenth : (2 : ℚ) ^ (-1075 : ℤ) / 10 ^ k * 2 ^ 1074 ≤ 1 / 20 := by
    rw [div_mul_eq_mul_div, two_zpow_mul, div_le_div_iff₀ hk0 (by norm_num)]
    linarith
  have hquarter : (2 : ℚ) ^ (-1075 : ℤ) / 10 ^ k ≤ v / 10 ^ k / 4 := by
    rw [div_right_comm]
    gcongr
    linarith
  obtain ⟨hpos, hnear⟩ :=
    position_near hv (by positivity) htenth hquarter hscaled
  refine ⟨_, hpos, hnear, ?_⟩
  rw [scale_of_lt hhi hzero, scale_of_neg _ (by omega) (by omega),
    div_powerOfTen (by omega) hnegative, absRat_powerOfTen (by omega)]

/-- **Scaling goes less than three places wrong.** What digits and a power of
ten are scaled to is the rounding of a value close to theirs; it is malformed
only if that is infinite. -/
theorem exists_scale_eq {n : ℕ} {e : ℤ} (h0 : n ≠ 0) (h : n < 2 ^ 64)
    (hlo : -324 ≤ e) (hhi : e ≤ 308) :
    ∃ w, 0 < w ∧ |position w - position ((n : ℚ) * 10 ^ e)| < 3
      ∧ (scale (ofInt n) e = .ok (ofRat false w)
        ∨ scale (ofInt n) e = .error .malformed
          ∧ (ofRat false w).isInfinite = true) := by
  have hn : (0 : ℚ) < n := by exact_mod_cast Nat.pos_of_ne_zero h0
  have hv : 0 < (n : ℚ) * 10 ^ e := by positivity
  have hdigits := abs_ofInt_sub_le h0 h
  rcases lt_or_ge e (-308) with htwo | hone
  · obtain ⟨w, hpos, hnear, hscale⟩ := exists_scale_eq_of_lt h0 h hlo htwo
    exact ⟨w, hpos, hnear, .inl hscale⟩
  have hpower := abs_powerOfTen_sub_le (n := e.natAbs) (by omega)
  rcases le_or_gt 0 e with he | he
  · have hproduct := abs_mul_sub_le hn.le (by positivity) hdigits hpower
    rw [← ten_zpow_natAbs_of_nonneg he] at hproduct
    obtain ⟨hpos, hnear⟩ := position_near_of_le hv (by norm_num) hproduct
    refine ⟨_, hpos, hnear, ?_⟩
    rw [← mul_powerOfTen e.natAbs (negative_ofInt n), scale_of_nonneg _ he hhi]
    cases ((ofInt n).mul (powerOfTen e.natAbs)).isInfinite with
    | true => exact .inr ⟨rfl, rfl⟩
    | false => exact .inl rfl
  · have hquotient := abs_div_sub_le hn.le (by positivity) (by norm_num)
      hdigits hpower
    rw [div_eq_mul_one_div (n : ℚ), ← ten_zpow_natAbs he] at hquotient
    obtain ⟨hpos, hnear⟩ := position_near_of_le hv (by norm_num) hquotient
    refine ⟨_, hpos, hnear, .inl ?_⟩
    rw [scale_of_neg _ he hone, div_powerOfTen (by omega) (negative_ofInt n)]

end RegisterMachine.Json
