import RegisterMachine.Proofs.Binary64.Position

/-!
# How far rounding goes

The value that is rounded and the value of the double it becomes differ by at
most half a unit (`Binary64.abs_absRat_ofRat_sub_le`). For a value that is not
very small this is a fixed part of it, one in `2 ^ 53`; below that the least
double bounds the difference (`Binary64.abs_absRat_ofRat_sub_le_add`). The
finite range ends halfway past the greatest finite double: below that a value
stays finite, and from there on it is infinite (`Binary64.ofRat_eq_infinity`).
Products and quotients of doubles are the rounded products and quotients of
their values, so an error goes through them as through exact arithmetic.
-/

namespace RegisterMachine.Binary64

variable {v : ℚ}

/-! ## The value of a rounded value -/

theorem negative_ofRat (s : Bool) (v : ℚ) : (ofRat s v).negative = s := by
  obtain ⟨n, hn, h⟩ := exists_ofRat_eq v
  rw [h, negative_ofMagnitude s (hn.trans_lt infiniteMagnitude_lt)]

/-- **The value of a magnitude put together from exponent and significand**,
also where the significand has carried. -/
theorem absRat_ofMagnitude (s : Bool) {q : ℤ} {m : ℕ} (hq : -1074 ≤ q)
    (hm : m ≤ 2 ^ 53) (hbit : q = -1074 ∨ 2 ^ 52 ≤ m)
    (hlt : (q + 1074).toNat * 2 ^ 52 + m < 2 ^ 63) :
    (ofMagnitude s ((q + 1074).toNat * 2 ^ 52 + m)).absRat = m * 2 ^ q := by
  set x := ofMagnitude s ((q + 1074).toNat * 2 ^ 52 + m) with hx
  have hmag : x.magnitude = (q + 1074).toNat * 2 ^ 52 + m :=
    magnitude_ofMagnitude s hlt
  unfold absRat
  rcases hm.lt_or_eq with hm | rfl
  · have hexp : x.exponent = q := by
      unfold exponent
      rw [hmag]
      omega
    have hsig : x.significand = m := by
      unfold significand
      rw [hmag]
      split <;> omega
    rw [hexp, hsig]
  · -- the carry makes the next power of two
    have hexp : x.exponent = q + 1 := by
      unfold exponent
      rw [hmag]
      omega
    have hsig : x.significand = 2 ^ 52 := by
      unfold significand
      rw [hmag]
      split <;> omega
    rw [hexp, hsig, zpow_add_one₀ (by norm_num)]
    push_cast
    ring

/-- Rounding does not go above a whole number that is no less. -/
theorem roundEven_le {v : ℚ} (hv : 0 ≤ v) {n : ℕ} (h : v ≤ n) :
    roundEven v ≤ n := by
  have hhalf := abs_le.mp (abs_roundEven_sub_le hv)
  have hlt : (roundEven v : ℚ) < (n + 1 : ℕ) := by
    push_cast
    linarith [hhalf.2]
  exact Nat.lt_succ_iff.mp (Nat.cast_lt.mp hlt)

/-- **The magnitude of a rounded value**, as long as it is finite. -/
theorem magnitude_ofRat (s : Bool) (hv : 0 < v)
    (hfin : (ofRat s v).isFinite = true) :
    (ofRat s v).magnitude = (unitExponent v + 1074).toNat * 2 ^ 52
      + roundEven (v / 2 ^ unitExponent v) := by
  have hround : ofRat s v = ofMagnitude s
      (min ((unitExponent v + 1074).toNat * 2 ^ 52
        + roundEven (v / 2 ^ unitExponent v)) infiniteMagnitude) :=
    if_neg hv.ne'
  have hmag : (ofRat s v).magnitude < infiniteMagnitude :=
    of_decide_eq_true hfin
  rw [hround, magnitude_ofMagnitude s
    ((Nat.min_le_right _ _).trans_lt infiniteMagnitude_lt)] at hmag ⊢
  omega

/-- **The value of a rounded value** is a whole number of units. -/
theorem absRat_ofRat (s : Bool) (hv : 0 < v)
    (hfin : (ofRat s v).isFinite = true) :
    (ofRat s v).absRat
      = roundEven (v / 2 ^ unitExponent v) * 2 ^ unitExponent v := by
  have hmag := magnitude_ofRat s hv hfin
  have hlt : (ofRat s v).magnitude < infiniteMagnitude :=
    of_decide_eq_true hfin
  have hnonneg : 0 ≤ v / 2 ^ unitExponent v := by positivity
  rw [hmag] at hlt
  rw [ofRat_eq_ofMagnitude s s, hmag]
  refine absRat_ofMagnitude s (neg_1074_le_unitExponent v) ?_ ?_
    (hlt.trans infiniteMagnitude_lt)
  · refine roundEven_le hnonneg ?_
    exact_mod_cast (div_unit_lt v).le
  · rcases (neg_1074_le_unitExponent v).lt_or_eq with hgt | heq
    · refine .inr (le_trans (Nat.le_floor ?_) (floor_le_roundEven _))
      exact_mod_cast two_pow_le_div_unit hv hgt
    · exact .inl heq.symm

/-- **Rounding moves a value by at most half its unit.** -/
theorem abs_absRat_ofRat_sub_le (s : Bool) (hv : 0 < v)
    (hfin : (ofRat s v).isFinite = true) :
    |(ofRat s v).absRat - v| ≤ 2 ^ unitExponent v / 2 := by
  have hunit : (0 : ℚ) < 2 ^ unitExponent v := by positivity
  have hhalf := abs_roundEven_sub_le
    (by positivity : 0 ≤ v / 2 ^ unitExponent v)
  have hdiff : (ofRat s v).absRat - v
      = (roundEven (v / 2 ^ unitExponent v) - v / 2 ^ unitExponent v)
        * 2 ^ unitExponent v := by
    rw [absRat_ofRat s hv hfin, sub_mul, div_mul_cancel₀ _ hunit.ne']
  have hscaled := mul_le_mul_of_nonneg_right hhalf hunit.le
  rw [hdiff, abs_mul, abs_of_pos hunit]
  linarith

/-- The unit of a value that is not very small. -/
theorem unit_le (h : 2 ^ (-1022 : ℤ) ≤ v) :
    2 ^ unitExponent v ≤ v / 2 ^ 52 := by
  have hv : 0 < v := lt_of_lt_of_le (by positivity) h
  have hlog : -1022 ≤ Int.log 2 v :=
    (Int.zpow_le_iff_le_log Nat.one_lt_two hv).mp (by exact_mod_cast h)
  have hself := Int.zpow_log_le_self Nat.one_lt_two hv
  have hexp : Int.log 2 v = unitExponent v + 52 := by
    unfold unitExponent
    omega
  rw [le_div_iff₀ (by positivity)]
  push_cast at hself
  rwa [hexp, zpow_add₀ (by norm_num)] at hself

/-- **A value that is not very small is moved by a fixed part of it.** -/
theorem abs_absRat_ofRat_sub_le_mul (s : Bool) (h : 2 ^ (-1022 : ℤ) ≤ v)
    (hfin : (ofRat s v).isFinite = true) :
    |(ofRat s v).absRat - v| ≤ 1 / 2 ^ 53 * v := by
  have hv : 0 < v := lt_of_lt_of_le (by positivity) h
  have hmoved := abs_absRat_ofRat_sub_le s hv hfin
  have hunit := unit_le h
  linarith

/-- **Any value is moved by that part of it** or by half the least double. -/
theorem abs_absRat_ofRat_sub_le_add (s : Bool) (hv : 0 < v)
    (hfin : (ofRat s v).isFinite = true) :
    |(ofRat s v).absRat - v| ≤ 1 / 2 ^ 53 * v + 2 ^ (-1075 : ℤ) := by
  rcases le_or_gt (2 ^ (-1022 : ℤ)) v with h | h
  · have := abs_absRat_ofRat_sub_le_mul s h hfin
    have : (0 : ℚ) ≤ 2 ^ (-1075 : ℤ) := by positivity
    linarith
  · have hlog : Int.log 2 v < -1022 :=
      (Int.lt_zpow_iff_log_lt Nat.one_lt_two hv).mp (by exact_mod_cast h)
    have hexp : unitExponent v = -1074 := by
      unfold unitExponent
      omega
    have hmoved := abs_absRat_ofRat_sub_le s hv hfin
    have hleast : (2 : ℚ) ^ (-1074 : ℤ) / 2 = 2 ^ (-1075 : ℤ) :=
      (zpow_sub_one₀ (by norm_num) (-1074)).symm
    rw [hexp, hleast] at hmoved
    have : 0 ≤ 1 / 2 ^ 53 * v := by positivity
    linarith

/-- The first power of two past the finite range, in units of the last
one in it. -/
theorem two_pow_1024_eq : (2 : ℚ) ^ 1024 = 2 ^ 53 * 2 ^ (971 : ℤ) := by
  rw [← zpow_natCast, ← zpow_natCast, ← zpow_add₀ (by norm_num)]
  rfl

/-- Halfway past the greatest finite double, in the same units. -/
theorem halfway_eq :
    (2 : ℚ) ^ 1024 - 2 ^ 970 = (2 ^ 53 - 1 / 2) * 2 ^ (971 : ℤ) := by
  have hhalf : (2 : ℚ) ^ 970 = 1 / 2 * 2 ^ (971 : ℤ) := by
    rw [← zpow_natCast, one_div, ← zpow_neg_one, ← zpow_add₀ (by norm_num)]
    rfl
  rw [two_pow_1024_eq, hhalf, sub_mul]

/-- **Values stay finite up to halfway past the greatest finite double.** -/
theorem isFinite_ofRat_of_lt (s : Bool) (hv : 0 ≤ v)
    (h : v < 2 ^ 1024 - 2 ^ 970) : (ofRat s v).isFinite = true := by
  rcases hv.eq_or_lt with rfl | hv
  · unfold ofRat
    rw [if_pos rfl]
    cases s <;> decide
  · obtain ⟨n, hn, hround⟩ := exists_magnitude_near hv
    have hline := position_le hv (by norm_num : (-1074 : ℤ) ≤ 971)
    have hdiv : v / 2 ^ (971 : ℤ) < 2 ^ 53 - 1 / 2 := by
      rwa [div_lt_iff₀ (by positivity), ← halfway_eq]
    have hlt : (n : ℚ) < (infiniteMagnitude : ℕ) := by
      have := (abs_le.mp hn).2
      generalize v / 2 ^ (971 : ℤ) = w at hline hdiv
      unfold infiniteMagnitude
      push_cast at hline ⊢
      linarith
    have hnat := Nat.cast_lt.mp hlt
    rw [hround, Nat.min_eq_left hnat.le]
    refine decide_eq_true ?_
    rwa [magnitude_ofMagnitude s (hnat.trans infiniteMagnitude_lt)]

/-- The last half below a power of two is rounded up to it. -/
theorem roundEven_eq_two_pow {v : ℚ} (hlo : 2 ^ 53 - 1 / 2 ≤ v)
    (hhi : v < 2 ^ 53) : roundEven v = 2 ^ 53 := by
  have hfloor : ⌊v⌋₊ = 2 ^ 53 - 1 := by
    rw [Nat.floor_eq_iff (le_trans (by norm_num) hlo)]
    push_cast
    constructor <;> linarith
  unfold roundEven
  rw [hfloor, if_neg]
  · split <;> rfl
  · push_cast
    linarith

/-- **From there on they are infinite.** -/
theorem ofRat_eq_infinity (s : Bool) (h : 2 ^ 1024 - 2 ^ 970 ≤ v) :
    ofRat s v = infinity s := by
  have hunit : (0 : ℚ) < 2 ^ (971 : ℤ) := by positivity
  rcases le_or_gt (2 ^ 1024) v with hle | hgt
  · exact ofRat_of_two_pow_le s hle
  · -- what is left of the last binade is rounded up to its end
    rw [two_pow_1024_eq, ← div_lt_iff₀ hunit] at hgt
    rw [halfway_eq, ← le_div_iff₀ hunit] at h
    have hv : 0 < v / 2 ^ (971 : ℤ) := lt_of_lt_of_le (by norm_num) h
    have hexp : unitExponent v = 971 := by
      have hlog : Int.log 2 v = 1023 := by
        refine log_two_eq ?_ ?_
        · rw [show (1023 : ℤ) = (52 : ℕ) + 971 by rfl,
            zpow_add₀ (by norm_num), ← le_div_iff₀ hunit, zpow_natCast]
          linarith
        · rw [show (1023 + 1 : ℤ) = (53 : ℕ) + 971 by rfl,
            zpow_add₀ (by norm_num), ← div_lt_iff₀ hunit, zpow_natCast]
          exact hgt
      unfold unitExponent
      omega
    have hne : v ≠ 0 := by
      rintro rfl
      rw [zero_div] at hv
      exact lt_irrefl _ hv
    unfold ofRat
    rw [if_neg hne]
    show ofMagnitude s (min ((unitExponent v + 1074).toNat * 2 ^ 52
      + roundEven (v / 2 ^ unitExponent v)) infiniteMagnitude) = _
    rw [hexp, roundEven_eq_two_pow h hgt]
    rfl

/-- Values up to three quarters of the infinite one stay finite. -/
theorem isFinite_ofRat (s : Bool) (hv : 0 ≤ v) (h : v ≤ 3 * 2 ^ 1022) :
    (ofRat s v).isFinite = true := by
  have hlt : 3 * 2 ^ 1022 + 2 ^ 970 < 2 ^ 1024 := by decide +kernel
  refine isFinite_ofRat_of_lt s hv (h.trans_lt (lt_sub_iff_add_lt.mpr ?_))
  exact_mod_cast hlt

/-! ## Products, quotients and whole numbers -/

/-- **A product of doubles is the rounded product.** -/
theorem mul_eq_ofRat (x y : Binary64) :
    x.mul y = ofRat (x.negative != y.negative) (x.absRat * y.absRat) := by
  unfold mul
  dsimp only
  rw [ofRatio_eq_ofRat _ _ (Nat.two_pow_pos _)]
  congr 1
  unfold absRat
  push_cast
  rw [mul_div_assoc, ← zpow_eq_pow_div_pow, zpow_add₀ (by norm_num)]
  ring

/-- **A quotient of doubles is the rounded quotient.** -/
theorem div_eq_ofRat (x : Binary64) {y : Binary64} (hy : y.significand ≠ 0) :
    x.div y = ofRat (x.negative != y.negative) (x.absRat / y.absRat) := by
  have hsig : (y.significand : ℚ) ≠ 0 := by exact_mod_cast hy
  unfold div
  dsimp only
  rw [ofRatio_eq_ofRat _ _
    (Nat.mul_pos (Nat.pos_of_ne_zero hy) (Nat.two_pow_pos _))]
  congr 1
  unfold absRat
  push_cast
  rw [mul_div_mul_comm, ← zpow_eq_pow_div_pow, zpow_sub₀ (by norm_num)]
  field_simp

theorem significand_ne_zero {x : Binary64} (h : 0 < x.absRat) :
    x.significand ≠ 0 := by
  intro hzero
  unfold absRat at h
  rw [hzero, Nat.cast_zero, zero_mul] at h
  exact lt_irrefl _ h

/-- **An integer is rounded by its magnitude.** -/
theorem ofInt_eq_ofRat (n : ℤ) :
    ofInt n = ofRat (decide (n < 0)) |(n : ℚ)| := by
  unfold ofInt
  rw [ofRatio_eq_ofRat _ _ Nat.one_pos, Nat.cast_one, div_one,
    Nat.cast_natAbs, Int.cast_abs]

theorem ofInt_natCast (n : ℕ) : ofInt n = ofRat false n := by
  rw [ofInt_eq_ofRat, Int.cast_natCast, Nat.abs_cast,
    decide_eq_false (by omega)]

/-- **A whole number of fewer than fifty-four bits is kept.** -/
theorem absRat_ofInt {n : ℕ} (h : n < 2 ^ 53) : (ofInt n).absRat = n := by
  rw [ofInt_natCast]
  rcases Nat.eq_zero_or_pos n with rfl | hpos
  · rw [Nat.cast_zero]
    unfold ofRat
    rw [if_pos rfl]
    decide +kernel
  · have hv : (0 : ℚ) < n := by exact_mod_cast hpos
    have hlt : (n : ℚ) < 2 ^ 53 := by exact_mod_cast h
    have hfin : (ofRat false (n : ℚ)).isFinite = true := by
      refine isFinite_ofRat false hv.le (hlt.le.trans ?_)
      exact_mod_cast (by decide +kernel : 2 ^ 53 ≤ 3 * 2 ^ 1022)
    have hlog : Int.log 2 (n : ℚ) < 53 :=
      (Int.lt_zpow_iff_log_lt Nat.one_lt_two hv).mp (by exact_mod_cast hlt)
    have hexp : unitExponent n ≤ 0 := by
      unfold unitExponent
      omega
    have hwhole : (n : ℚ) / 2 ^ unitExponent n
        = ((n * 2 ^ (-unitExponent (n : ℚ)).toNat : ℕ) : ℚ) := by
      rw [zpow_eq_pow_div_pow, Int.toNat_of_nonpos hexp, pow_zero]
      push_cast
      field_simp
    rw [absRat_ofRat false hv hfin, hwhole, roundEven_natCast, ← hwhole,
      div_mul_cancel₀ _ (by positivity)]

end RegisterMachine.Binary64
