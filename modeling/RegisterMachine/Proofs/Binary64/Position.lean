import Mathlib.Tactic.GCongr
import RegisterMachine.Proofs.Binary64.Nearest

/-!
# Where a value lies among the doubles

Magnitudes count the doubles from zero upwards. `Binary64.position` carries
this count on to all positive rational numbers: at a double it is the
magnitude, between two neighbours it is linear, and to round a value is to
round its position (`Binary64.exists_magnitude_near`).

The position is the least of the straight lines that continue the pieces
between two powers of two (`Binary64.position_le`), and so it bends only one
way. Two values that are close, by a fraction of the smaller or by a part of
the least double, therefore have close positions
(`Binary64.abs_position_sub_le`), and doubles few places apart
(`Binary64.abs_magnitude_sub_le`).
-/

namespace RegisterMachine

/-- **Rounding moves a value by no more than a half.** -/
theorem abs_roundEven_sub_le {v : ℚ} (hv : 0 ≤ v) :
    |(roundEven v : ℚ) - v| ≤ 1 / 2 := by
  have hlo := Nat.floor_le hv
  have hhi := Nat.lt_floor_add_one v
  unfold roundEven
  rw [abs_le]
  split
  · next h => constructor <;> linarith
  · next h =>
    split
    · next h' =>
      push_cast
      constructor <;> linarith
    · next h' =>
      have hhalf : 2 * (v - ⌊v⌋₊) = 1 :=
        le_antisymm (not_lt.mp h') (not_lt.mp h)
      rcases Nat.mod_two_eq_zero_or_one ⌊v⌋₊ with hpar | hpar <;>
        rw [hpar] <;> push_cast <;> constructor <;> linarith

namespace Binary64

variable {v w : ℚ}

/-- The power of two that a value is rounded at. -/
def unitExponent (v : ℚ) : ℤ := max (Int.log 2 v - 52) (-1074)

/-- **The place of a value among the doubles**, for a positive value. -/
def position (v : ℚ) : ℚ :=
  (unitExponent v + 1074) * 2 ^ 52 + v / 2 ^ unitExponent v

theorem neg_1074_le_unitExponent (v : ℚ) : -1074 ≤ unitExponent v :=
  le_max_right _ _

/-- A value has at most fifty-three bits above its unit. -/
theorem div_unit_lt (v : ℚ) : v / 2 ^ unitExponent v < 2 ^ 53 := by
  have hlog := Int.lt_zpow_succ_log_self Nat.one_lt_two v
  have hle : Int.log 2 v + 1 ≤ 53 + unitExponent v := by
    unfold unitExponent
    omega
  rw [div_lt_iff₀ (by positivity), ← zpow_natCast, ← zpow_add₀ (by norm_num)]
  push_cast at hlog
  exact hlog.trans_le (zpow_le_zpow_right₀ (by norm_num) hle)

/-- Above the least unit a value has all fifty-three. -/
theorem two_pow_le_div_unit (hv : 0 < v) (h : -1074 < unitExponent v) :
    2 ^ 52 ≤ v / 2 ^ unitExponent v := by
  have hlog := Int.zpow_log_le_self Nat.one_lt_two hv
  have hle : 52 + unitExponent v ≤ Int.log 2 v := by
    unfold unitExponent at h ⊢
    omega
  rw [le_div_iff₀ (by positivity), ← zpow_natCast, ← zpow_add₀ (by norm_num)]
  push_cast at hlog
  exact (zpow_le_zpow_right₀ (by norm_num) hle).trans hlog

/-- **The position is on or below every straight line** that continues one of
its pieces. -/
theorem position_le (hv : 0 < v) {q : ℤ} (hq : -1074 ≤ q) :
    position v ≤ (q + 1074) * 2 ^ 52 + v / 2 ^ q := by
  have hlt := div_unit_lt v
  set p := unitExponent v with hp
  set a := v / 2 ^ p with ha
  have hpos : 0 < a := div_pos hv (by positivity)
  have hscale : v / 2 ^ q = a * 2 ^ (p - q) := by
    rw [ha, zpow_sub₀ (by norm_num)]
    field_simp
  unfold position
  rw [← hp, ← ha, hscale]
  rcases le_or_gt p q with hle | hgt
  · -- the line is flatter, and begins higher
    obtain ⟨k, rfl⟩ : ∃ k : ℕ, q = p + k := ⟨(q - p).toNat, by omega⟩
    rw [sub_add_cancel_left, zpow_neg, zpow_natCast]
    push_cast
    have hk : 0 < ((2 : ℚ) ^ k)⁻¹ := by positivity
    match k with
    | 0 => simp
    | 1 =>
      rw [pow_one]
      push_cast
      linarith
    | k + 2 =>
      have h2 : (2 : ℚ) ≤ ((k + 2 : ℕ) : ℚ) := by
        push_cast
        linarith [(Nat.cast_nonneg k : (0 : ℚ) ≤ k)]
      have hprod : 0 < a * ((2 : ℚ) ^ (k + 2))⁻¹ := mul_pos hpos hk
      nlinarith
  · -- the line is steeper, and the value has its leading bit
    have hbit := two_pow_le_div_unit hv (lt_of_le_of_lt hq hgt)
    obtain ⟨k, rfl⟩ : ∃ k : ℕ, q = p - k := ⟨(p - q).toNat, by omega⟩
    have hself : (k : ℚ) + 1 ≤ 2 ^ k := by exact_mod_cast Nat.lt_two_pow_self
    rw [sub_sub_cancel, zpow_natCast]
    push_cast
    nlinarith

/-- How far a position is above another is bounded in units of the other. -/
theorem position_sub_le (hw : 0 < w) (v : ℚ) :
    position w - position v ≤ (w - v) / 2 ^ unitExponent v := by
  have hline := position_le hw (neg_1074_le_unitExponent v)
  rw [sub_div]
  unfold position at hline ⊢
  linarith

/-- **The greater value has the greater position.** -/
theorem position_mono (hv : 0 < v) (h : v ≤ w) : position v ≤ position w := by
  have hle := position_sub_le hv w
  have hneg : (v - w) / 2 ^ unitExponent w ≤ 0 :=
    div_nonpos_of_nonpos_of_nonneg (sub_nonpos.mpr h) (by positivity)
  linarith

/-- A unit is a small part of its value, but no smaller than the least
double. -/
theorem inv_unit_le (hv : 0 < v) :
    (2 ^ unitExponent v)⁻¹ ≤ 2 ^ 53 / v
      ∧ ((2 : ℚ) ^ unitExponent v)⁻¹ ≤ 2 ^ 1074 := by
  have hlt := div_unit_lt v
  have hunit : (0 : ℚ) < 2 ^ unitExponent v := by positivity
  constructor
  · rw [le_div_iff₀ hv, inv_mul_eq_div]
    exact hlt.le
  · rw [← zpow_neg, ← zpow_natCast]
    refine zpow_le_zpow_right₀ (by norm_num) ?_
    have := neg_1074_le_unitExponent v
    omega

/-- **Close values have close positions.** The distance may be a fraction of
the smaller value and a part of the least double. -/
theorem abs_position_sub_le (hv : 0 < v) (hw : 0 < w) {a b : ℚ} (ha : 0 ≤ a)
    (hb : 0 ≤ b) (h : |w - v| ≤ a * min v w + b) :
    |position w - position v| ≤ a * 2 ^ 53 + b * 2 ^ 1074 := by
  -- it is enough to go up from the smaller value to the greater one
  have hup : ∀ v w : ℚ, 0 < v → v ≤ w → w - v ≤ a * v + b →
      |position w - position v| ≤ a * 2 ^ 53 + b * 2 ^ 1074 := by
    intro v w hv hvw h
    obtain ⟨hfraction, hleast⟩ := inv_unit_le hv
    have hinv : (0 : ℚ) ≤ (2 ^ unitExponent v)⁻¹ := by positivity
    have hmono := position_mono hv hvw
    rw [abs_of_nonneg (sub_nonneg.mpr hmono)]
    calc position w - position v
        ≤ (w - v) / 2 ^ unitExponent v :=
          position_sub_le (hv.trans_le hvw) v
      _ ≤ (a * v + b) * (2 ^ unitExponent v)⁻¹ := by
          rw [div_eq_mul_inv]
          gcongr
      _ = a * v * (2 ^ unitExponent v)⁻¹ + b * (2 ^ unitExponent v)⁻¹ :=
          add_mul _ _ _
      _ ≤ a * v * (2 ^ 53 / v) + b * 2 ^ 1074 := by gcongr
      _ = a * 2 ^ 53 + b * 2 ^ 1074 := by field_simp
  rcases le_total v w with hvw | hwv
  · rw [min_eq_left hvw, abs_of_nonneg (sub_nonneg.mpr hvw)] at h
    exact hup v w hv hvw h
  · rw [min_eq_right hwv, abs_sub_comm, abs_of_nonneg (sub_nonneg.mpr hwv)] at h
    rw [abs_sub_comm]
    exact hup w v hw hwv h

/-! ## Rounding a position -/

/-- **To round a value is to round its position**, up to the infinite
magnitude. -/
theorem exists_magnitude_near (hv : 0 < v) :
    ∃ n : ℕ, |(n : ℚ) - position v| ≤ 1 / 2
      ∧ ∀ s, ofRat s v = ofMagnitude s (min n infiniteMagnitude) := by
  have hround := abs_roundEven_sub_le
    (div_nonneg hv.le (by positivity : (0 : ℚ) ≤ 2 ^ unitExponent v))
  have hexp : ((unitExponent v + 1074).toNat : ℚ)
      = (unitExponent v : ℚ) + 1074 := by
    have := neg_1074_le_unitExponent v
    have hint : ((unitExponent v + 1074).toNat : ℤ) = unitExponent v + 1074 :=
      Int.toNat_of_nonneg (by omega)
    exact_mod_cast hint
  refine ⟨(unitExponent v + 1074).toNat * 2 ^ 52
    + roundEven (v / 2 ^ unitExponent v), ?_, fun s => if_neg hv.ne'⟩
  rw [Nat.cast_add, Nat.cast_mul, hexp, Nat.cast_pow, Nat.cast_ofNat]
  unfold position
  rwa [add_sub_add_left_eq_sub]

/-- The position of a double is its magnitude. -/
theorem position_absRat {x : Binary64} (h : x.significand ≠ 0) :
    position x.absRat = x.magnitude := by
  have hunit : unitExponent x.absRat = x.exponent := exponent_eq_max_log h
  have hscale : x.absRat / 2 ^ x.exponent = x.significand :=
    mul_div_cancel_right₀ _ (by positivity)
  have hlinear : (x.magnitude : ℚ)
      = (x.exponent + 1074) * 2 ^ 52 + x.significand := by
    exact_mod_cast x.magnitude_eq_exponent_add_significand
  unfold position
  rw [hunit, hscale, hlinear]

/-- **A value less than half a place from a double is rounded to it.** -/
theorem ofRat_eq_of_position (s : Bool) (hv : 0 < v) {n : ℕ}
    (hn : n ≤ infiniteMagnitude) (h : |position v - n| < 1 / 2) :
    ofRat s v = ofMagnitude s n := by
  obtain ⟨k, hk, hround⟩ := exists_magnitude_near hv
  have hlt : |(k : ℚ) - n| < 1 := by
    calc |(k : ℚ) - n| ≤ |(k : ℚ) - position v| + |position v - n| :=
          abs_sub_le _ _ _
      _ < 1 := by linarith
  have heq : k = n := by
    rw [abs_lt] at hlt
    have h₁ : (k : ℚ) < (n + 1 : ℕ) := by push_cast; linarith
    have h₂ : (n : ℚ) < (k + 1 : ℕ) := by push_cast; linarith
    have := Nat.cast_lt.mp h₁
    have := Nat.cast_lt.mp h₂
    omega
  rw [hround, heq, Nat.min_eq_left hn]

/-- **Values with close positions are rounded to doubles as close.** -/
theorem abs_magnitude_sub_le (s t : Bool) (hv : 0 < v) (hw : 0 < w) {k : ℕ}
    (h : |position w - position v| < k) :
    |((ofRat s w).magnitude : ℤ) - (ofRat t v).magnitude| ≤ k := by
  obtain ⟨n, hn, hround⟩ := exists_magnitude_near hv
  obtain ⟨n', hn', hround'⟩ := exists_magnitude_near hw
  have hinf := infiniteMagnitude_lt
  rw [hround, hround',
    magnitude_ofMagnitude _ ((Nat.min_le_right _ _).trans_lt hinf),
    magnitude_ofMagnitude _ ((Nat.min_le_right _ _).trans_lt hinf)]
  have hlt : |(n' : ℚ) - n| < k + 1 := by
    calc |(n' : ℚ) - n|
        ≤ |(n' : ℚ) - position w| + |position w - n| := abs_sub_le _ _ _
      _ ≤ |(n' : ℚ) - position w|
          + (|position w - position v| + |position v - n|) := by
          gcongr
          exact abs_sub_le _ _ _
      _ < k + 1 := by
          rw [abs_sub_comm (position v)]
          linarith
  have hint : |(n' : ℤ) - n| < k + 1 := by exact_mod_cast hlt
  rw [abs_lt] at hint
  rw [abs_le]
  omega

end Binary64

end RegisterMachine
