import Mathlib.Algebra.Order.Floor.Semifield
import Mathlib.Data.Int.Log
import Mathlib.Data.Rat.Floor
import RegisterMachine.Proofs.Binary64.Value

/-!
# Rounding as a function of the value

`Binary64.ofRatio` rounds a quotient of natural numbers, and how the quotient
is written must not matter. Here the same rounding is written down for a
rational number, as `Binary64.ofRat`, with the leading bit found by a
logarithm and the half by a comparison with one half; that the two are one and
the same (`Binary64.ofRatio_eq_ofRat`) is the whole of that independence.

Three facts about the rounding are what reading and printing numbers need. A
value that a double has is left alone (`Binary64.ofRat_absRat`), so what is
printed in full reads back. Values of `2 ^ 1024` and more become infinite, and
positive values up to `2 ^ (-1075)` become zero, so a reader may give up on
them early.
-/

namespace RegisterMachine

/-- **The whole number nearest a rational number**, a half going to the even
neighbour. -/
def roundEven (v : ℚ) : ℕ :=
  if 2 * (v - ⌊v⌋₊) < 1 then ⌊v⌋₊
  else if 1 < 2 * (v - ⌊v⌋₊) then ⌊v⌋₊ + 1
  else ⌊v⌋₊ + ⌊v⌋₊ % 2

@[simp] theorem roundEven_natCast (n : ℕ) : roundEven n = n := by
  simp [roundEven]

/-- Rounding does not go below the whole part. -/
theorem floor_le_roundEven (v : ℚ) : ⌊v⌋₊ ≤ roundEven v := by
  unfold roundEven
  split
  · exact le_rfl
  · split <;> exact Nat.le_add_right _ _

/-- A half and less is rounded to zero. -/
theorem roundEven_eq_zero {v : ℚ} (h : 2 * v ≤ 1) : roundEven v = 0 := by
  have hfloor : ⌊v⌋₊ = 0 := Nat.floor_eq_zero.mpr (by linarith)
  have hhalf : ¬1 < 2 * v := not_lt.mpr h
  simp [roundEven, hfloor, hhalf]

/-- **Rounding a quotient is rounding its value.** -/
theorem roundDiv_eq_roundEven (num : ℕ) {den : ℕ} (h : 0 < den) :
    roundDiv num den = roundEven (num / den) := by
  have hden : (0 : ℚ) < den := by exact_mod_cast h
  have hfloor : ⌊(num : ℚ) / den⌋₊ = num / den := Nat.floor_div_eq_div num den
  have hrem : (num : ℚ) / den - (num / den : ℕ) = (num % den : ℕ) / den := by
    rw [sub_eq_iff_eq_add, div_eq_iff hden.ne', add_mul,
      div_mul_cancel₀ _ hden.ne']
    exact_mod_cast (Nat.mod_add_div' num den).symm
  have hlt : 2 * ((num % den : ℕ) / den : ℚ) < 1 ↔ 2 * (num % den) < den := by
    rw [← mul_div_assoc, div_lt_one hden]
    exact_mod_cast Iff.rfl
  have hgt : 1 < 2 * ((num % den : ℕ) / den : ℚ) ↔ den < 2 * (num % den) := by
    rw [← mul_div_assoc, one_lt_div hden]
    exact_mod_cast Iff.rfl
  unfold roundEven
  rw [hfloor, hrem]
  simp only [hlt, hgt]
  rfl

namespace Binary64

/-- **The number nearest a rational number that is not negative**, with a sign
put in front of it. -/
def ofRat (negative : Bool) (v : ℚ) : Binary64 :=
  if v = 0 then zero negative
  else
    let q := max (Int.log 2 v - 52) (-1074)
    ofMagnitude negative
      (min ((q + 1074).toNat * 2 ^ 52 + roundEven (v / 2 ^ q))
        infiniteMagnitude)

/-- A logarithm is found by two comparisons. -/
theorem log_two_eq {v : ℚ} {e : ℤ} (hlo : 2 ^ e ≤ v) (hhi : v < 2 ^ (e + 1)) :
    Int.log 2 v = e := by
  have hpos : 0 < v := lt_of_lt_of_le (zpow_pos (by norm_num) e) hlo
  have h₁ : e ≤ Int.log 2 v :=
    (Int.zpow_le_iff_le_log Nat.one_lt_two hpos).mp (by exact_mod_cast hlo)
  have h₂ : Int.log 2 v < e + 1 :=
    (Int.lt_zpow_iff_log_lt Nat.one_lt_two hpos).mp (by exact_mod_cast hhi)
  omega

/-- A number lies between two neighbouring powers of two. -/
theorem natCast_log2_bounds {n : ℕ} (h : n ≠ 0) :
    (2 : ℚ) ^ (n.log2 : ℤ) ≤ n ∧ (n : ℚ) < 2 ^ ((n.log2 : ℤ) + 1) := by
  constructor
  · rw [zpow_natCast]
    exact_mod_cast Nat.log2_self_le h
  · exact_mod_cast Nat.lt_log2_self

/-- A quotient lies between two powers of two that are two apart. -/
theorem div_log2_bounds {num den : ℕ} (hnum : num ≠ 0) (hden : den ≠ 0) :
    (2 : ℚ) ^ ((num.log2 : ℤ) - den.log2 - 1) < num / den
      ∧ (num : ℚ) / den < 2 ^ ((num.log2 : ℤ) - den.log2 + 1) := by
  have hden' : (0 : ℚ) < den := by exact_mod_cast Nat.pos_of_ne_zero hden
  obtain ⟨hnumlo, hnumhi⟩ := natCast_log2_bounds hnum
  obtain ⟨hdenlo, hdenhi⟩ := natCast_log2_bounds hden
  set e : ℤ := (num.log2 : ℤ) - den.log2 with he
  constructor
  · rw [lt_div_iff₀ hden']
    calc (2 : ℚ) ^ (e - 1) * den
        < 2 ^ (e - 1) * 2 ^ ((den.log2 : ℤ) + 1) := by gcongr
      _ = 2 ^ (num.log2 : ℤ) := by
          rw [← zpow_add₀ (by norm_num)]
          congr 1
          omega
      _ ≤ num := hnumlo
  · rw [div_lt_iff₀ hden']
    calc (num : ℚ) < 2 ^ ((num.log2 : ℤ) + 1) := hnumhi
      _ = 2 ^ (e + 1) * 2 ^ (den.log2 : ℤ) := by
          rw [← zpow_add₀ (by norm_num)]
          congr 1
          omega
      _ ≤ 2 ^ (e + 1) * den := by gcongr

/-- **The leading bit of a quotient is that of its value.** -/
theorem quotientLog_eq_log {num den : ℕ} (hnum : num ≠ 0) (hden : den ≠ 0) :
    quotientLog num den = Int.log 2 ((num : ℚ) / den) := by
  have hden' : (0 : ℚ) < den := by exact_mod_cast Nat.pos_of_ne_zero hden
  obtain ⟨hlower, hupper⟩ := div_log2_bounds hnum hden
  unfold quotientLog
  generalize (num.log2 : ℤ) - den.log2 = e at hlower hupper ⊢
  -- the test decides between the two exponents that are left
  have htest : den * 2 ^ e.toNat ≤ num * 2 ^ (-e).toNat
      ↔ (2 : ℚ) ^ e ≤ num / den := by
    rw [zpow_eq_pow_div_pow, div_le_div_iff₀ (by positivity) hden', mul_comm]
    exact_mod_cast Iff.rfl
  dsimp only
  split
  · next h => exact (log_two_eq (htest.mp h) hupper).symm
  · next h =>
    refine (log_two_eq hlower.le ?_).symm
    rw [sub_add_cancel]
    exact not_le.mp fun hle => h (htest.mpr hle)

/-- **Rounding a quotient is rounding its value**: how the quotient is
written does not matter. -/
theorem ofRatio_eq_ofRat (s : Bool) (num : ℕ) {den : ℕ} (h : 0 < den) :
    ofRatio s num den = ofRat s (num / den) := by
  have hden : (den : ℚ) ≠ 0 := by exact_mod_cast h.ne'
  unfold ofRatio ofRat
  by_cases hnum : num = 0
  · rw [if_pos hnum, if_pos (by rw [hnum, Nat.cast_zero, zero_div])]
  · rw [if_neg hnum, if_neg (div_ne_zero (by exact_mod_cast hnum) hden)]
    unfold quotientExponent
    rw [quotientLog_eq_log hnum h.ne']
    dsimp only
    generalize max (Int.log 2 ((num : ℚ) / den) - 52) (-1074) = q
    have hscale : (num : ℚ) / den / 2 ^ q
        = ((num * 2 ^ (-q).toNat : ℕ) : ℚ) / ((den * 2 ^ q.toNat : ℕ) : ℚ) := by
      rw [zpow_eq_pow_div_pow]
      push_cast
      field_simp
    rw [hscale, roundDiv_eq_roundEven _ (Nat.mul_pos h (Nat.two_pow_pos _))]

/-! ## Sign and range -/

/-- What `ofRat` gives is no more than infinite, and never "not a number". -/
theorem exists_ofRat_eq (v : ℚ) :
    ∃ n ≤ infiniteMagnitude, ∀ s, ofRat s v = ofMagnitude s n := by
  by_cases hv : v = 0
  · exact ⟨0, Nat.zero_le _, fun s => if_pos hv⟩
  · exact ⟨_, Nat.min_le_right _ _, fun s => if_neg hv⟩

theorem infiniteMagnitude_lt : infiniteMagnitude < 2 ^ 63 := by decide

theorem isFinite_of_isInfinite {x : Binary64} (h : x.isInfinite = true) :
    x.isFinite = false := by
  unfold isFinite
  rw [eq_of_beq h]
  exact decide_eq_false (lt_irrefl _)

/-- **A number is finite or infinite.** -/
theorem isFinite_or_isInfinite {x : Binary64}
    (h : x.magnitude ≤ infiniteMagnitude) :
    x.isFinite = true ∨ x.isInfinite = true := by
  unfold isFinite isInfinite
  rw [decide_eq_true_iff, beq_iff_eq]
  exact lt_or_eq_of_le h

/-- **What is rounded is a number**, of either sign. -/
theorem magnitude_ofRat_le (s : Bool) (v : ℚ) :
    (ofRat s v).magnitude ≤ infiniteMagnitude := by
  obtain ⟨n, hn, h⟩ := exists_ofRat_eq v
  rw [h, magnitude_ofMagnitude s (hn.trans_lt infiniteMagnitude_lt)]
  exact hn

/-- **The sign takes no part in the rounding.** -/
theorem ofRat_eq_ofMagnitude (s t : Bool) (v : ℚ) :
    ofRat s v = ofMagnitude s (ofRat t v).magnitude := by
  obtain ⟨n, hn, h⟩ := exists_ofRat_eq v
  rw [h, h, magnitude_ofMagnitude t (hn.trans_lt infiniteMagnitude_lt)]

/-- **What is too great becomes infinite.** -/
theorem ofRat_of_two_pow_le (s : Bool) {v : ℚ} (h : 2 ^ 1024 ≤ v) :
    ofRat s v = infinity s := by
  have hpos : 0 < v := lt_of_lt_of_le (by positivity) h
  have hlog : 1024 ≤ Int.log 2 v :=
    (Int.zpow_le_iff_le_log Nat.one_lt_two hpos).mp (by exact_mod_cast h)
  have hq : max (Int.log 2 v - 52) (-1074) = Int.log 2 v - 52 := by omega
  -- the significand has its leading bit, and the exponent is past the end
  have hbit : 2 ^ 52 ≤ roundEven (v / 2 ^ (Int.log 2 v - 52)) := by
    refine le_trans (Nat.le_floor ?_) (floor_le_roundEven _)
    rw [le_div_iff₀ (by positivity), zpow_sub₀ (by norm_num)]
    have hself := Int.zpow_log_le_self Nat.one_lt_two hpos
    push_cast at hself ⊢
    calc (2 : ℚ) ^ 52 * (2 ^ Int.log 2 v / 2 ^ (52 : ℤ)) = 2 ^ Int.log 2 v := by
          norm_num
          ring
      _ ≤ v := hself
  unfold ofRat
  rw [if_neg hpos.ne']
  dsimp only
  rw [hq]
  unfold infinity infiniteMagnitude
  congr 1
  omega

/-- **What is too small becomes zero.** -/
theorem ofRat_of_le_two_zpow (s : Bool) {v : ℚ} (hpos : 0 < v)
    (h : v ≤ 2 ^ (-1075 : ℤ)) : ofRat s v = zero s := by
  have hhalf : 2 * v ≤ 2 ^ (-1074 : ℤ) := by
    calc 2 * v ≤ 2 * 2 ^ (-1075 : ℤ) := by gcongr
      _ = 2 ^ (-1074 : ℤ) := by
          rw [← zpow_one_add₀ (by norm_num)]
          norm_num
  have hlog : Int.log 2 v < -1074 :=
    (Int.lt_zpow_iff_log_lt Nat.one_lt_two hpos).mp
      (by exact_mod_cast (lt_two_mul_self hpos).trans_le hhalf)
  have hq : max (Int.log 2 v - 52) (-1074) = -1074 := by omega
  have hscaled : 2 * (v / 2 ^ (-1074 : ℤ)) ≤ 1 := by
    rwa [← mul_div_assoc, div_le_one (by positivity)]
  unfold ofRat
  rw [if_neg hpos.ne']
  dsimp only
  rw [hq, roundEven_eq_zero hscaled]
  rfl

/-! ## Values that doubles have -/

theorem significand_eq_zero_iff (x : Binary64) :
    x.significand = 0 ↔ x.magnitude = 0 := by
  unfold significand
  split <;> omega

theorem isZero_iff_absRat (x : Binary64) :
    x.isZero = true ↔ x.absRat = 0 := by
  rw [isZero, beq_iff_eq, ← significand_eq_zero_iff, absRat, mul_eq_zero,
    Nat.cast_eq_zero]
  exact (or_iff_left (by positivity)).symm

/-- Above the least exponent the leading bit is there. -/
theorem two_pow_le_significand {x : Binary64} (h : -1074 < x.exponent) :
    2 ^ 52 ≤ x.significand := by
  unfold exponent at h
  unfold significand
  split <;> omega

/-- **The exponent of a double is the one its value is rounded at.** -/
theorem exponent_eq_max_log {x : Binary64} (h : x.significand ≠ 0) :
    max (Int.log 2 x.absRat - 52) (-1074) = x.exponent := by
  have htwo : (2 : ℚ) ≠ 0 := by norm_num
  have hsig : (0 : ℚ) < x.significand := by
    exact_mod_cast Nat.pos_of_ne_zero h
  have hpos : 0 < x.absRat := mul_pos hsig (by positivity)
  have hmin := x.neg_1074_le_exponent
  have hupper : Int.log 2 x.absRat < 53 + x.exponent := by
    refine (Int.lt_zpow_iff_log_lt Nat.one_lt_two hpos).mp ?_
    rw [absRat, Nat.cast_ofNat, zpow_add₀ htwo]
    gcongr
    exact_mod_cast x.significand_lt
  rcases hmin.lt_or_eq with hlt | heq
  · have hlower : 52 + x.exponent ≤ Int.log 2 x.absRat := by
      refine (Int.zpow_le_iff_le_log Nat.one_lt_two hpos).mp ?_
      rw [absRat, Nat.cast_ofNat, zpow_add₀ htwo]
      gcongr
      exact_mod_cast two_pow_le_significand hlt
    omega
  · omega

/-- **The value of a double is rounded to that double.** -/
theorem ofRat_absRat (s : Bool) {x : Binary64} (hfin : x.isFinite = true) :
    ofRat s x.absRat = ofMagnitude s x.magnitude := by
  have hlt : x.magnitude < infiniteMagnitude := of_decide_eq_true hfin
  have hlinear := x.magnitude_eq_exponent_add_significand
  have hmin := x.neg_1074_le_exponent
  unfold ofRat
  by_cases hzero : x.significand = 0
  · rw [if_pos (by rw [absRat, hzero, Nat.cast_zero, zero_mul]),
      (significand_eq_zero_iff x).mp hzero]
    rfl
  · have hne : x.absRat ≠ 0 :=
      mul_ne_zero (by exact_mod_cast hzero) (by positivity)
    have hscale : x.absRat / 2 ^ x.exponent = x.significand :=
      mul_div_cancel_right₀ _ (by positivity)
    rw [if_neg hne]
    dsimp only
    rw [exponent_eq_max_log hzero, hscale, roundEven_natCast]
    congr 1
    omega

end Binary64

end RegisterMachine
