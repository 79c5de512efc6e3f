import Mathlib.Algebra.Order.Field.Power
import Mathlib.Algebra.Order.Field.Rat
import Mathlib.Tactic.FieldSimp
import Mathlib.Tactic.Linarith
import Mathlib.Tactic.NormNum
import Mathlib.Tactic.Positivity
import RegisterMachine.Binary64.Integer

/-!
# The rational number that a double stands for

The rest of the library computes with significands and exponents and never
forms a fraction. This module says what those computations are about: a
finite double stands for a rational number, `Binary64.toRat`, and the tests
made on its bits are tests of that number. In particular an operand is a
machine word exactly if the rational number is one
(`Binary64.toInt64?_eq_some_iff`): nothing is rounded, and nothing is cut off.
-/

namespace RegisterMachine

/-- **A power as a quotient of natural powers.** One of the two exponents is
zero, and the definitions over natural numbers are written with them. -/
theorem zpow_eq_pow_div_pow (b : ℚ) (e : ℤ) :
    b ^ e = b ^ e.toNat / b ^ (-e).toNat := by
  rcases le_total 0 e with h | h
  · rw [Int.toNat_of_nonpos (neg_nonpos.mpr h), pow_zero, div_one,
      ← zpow_natCast, Int.toNat_of_nonneg h]
  · rw [Int.toNat_of_nonpos h, pow_zero, one_div, ← zpow_natCast, ← zpow_neg,
      Int.toNat_of_nonneg (neg_nonneg.mpr h), neg_neg]

namespace Binary64

/-- **The value of a number without its sign**, for a finite number. -/
def absRat (x : Binary64) : ℚ := x.significand * 2 ^ x.exponent

/-- **The value of a finite number**: the rational number that it is. -/
def toRat (x : Binary64) : ℚ := if x.negative then -x.absRat else x.absRat

/-- The value as a quotient of natural numbers. -/
theorem absRat_eq_div (x : Binary64) :
    x.absRat = ((x.significand * 2 ^ x.exponent.toNat : ℕ) : ℚ)
      / ((2 ^ (-x.exponent).toNat : ℕ) : ℚ) := by
  rw [absRat, zpow_eq_pow_div_pow]
  push_cast
  rw [mul_div_assoc]

theorem absRat_nonneg (x : Binary64) : 0 ≤ x.absRat := by
  unfold absRat
  positivity

theorem abs_toRat (x : Binary64) : |x.toRat| = x.absRat := by
  unfold toRat
  split
  · rw [abs_neg, abs_of_nonneg x.absRat_nonneg]
  · rw [abs_of_nonneg x.absRat_nonneg]

/-- **A whole value without its sign** is a natural number. -/
theorem absRat_eq_natAbs {x : Binary64} {n : ℤ} (h : x.toRat = n) :
    x.absRat = n.natAbs := by
  rw [← abs_toRat, h, Nat.cast_natAbs, Int.cast_abs]

/-- **A whole value is found by exact division.** -/
theorem natAbs?_eq_some_iff (x : Binary64) (n : ℕ) :
    x.natAbs? = some n ↔ x.isFinite = true ∧ x.absRat = n := by
  have hpos : 0 < 2 ^ (-x.exponent).toNat := Nat.two_pow_pos _
  have hone : 2 ^ x.exponent.toNat = 1 ∨ 2 ^ (-x.exponent).toNat = 1 := by
    rcases le_total x.exponent 0 with h | h
    · exact .inl (by rw [Int.toNat_of_nonpos h, pow_zero])
    · exact .inr (by rw [Int.toNat_of_nonpos (neg_nonpos.mpr h), pow_zero])
  have hvalue : x.absRat = n
      ↔ x.significand * 2 ^ x.exponent.toNat
        = n * 2 ^ (-x.exponent).toNat := by
    rw [absRat_eq_div, div_eq_iff (by exact_mod_cast hpos.ne')]
    norm_cast
  rw [hvalue, natAbs?]
  generalize 2 ^ x.exponent.toNat = up at *
  generalize 2 ^ (-x.exponent).toNat = down at *
  cases hfin : x.isFinite with
  | false => simp
  | true =>
    simp only [if_true, true_and, Option.ite_none_right_eq_some,
      Option.some.injEq]
    -- one of the two powers is one, so the value is whole or a fraction
    rcases hone with rfl | rfl
    · rw [Nat.mul_one, Nat.mul_one]
      constructor
      · rintro ⟨hmod, rfl⟩
        exact (Nat.div_mul_cancel (Nat.dvd_of_mod_eq_zero hmod)).symm
      · intro h
        rw [h]
        exact ⟨Nat.mul_mod_left _ _, Nat.mul_div_cancel n hpos⟩
    · rw [Nat.mod_one, Nat.div_one, Nat.mul_one]
      exact and_iff_right rfl

/-- **A whole value is the value.** -/
theorem toInt?_eq_some_iff (x : Binary64) (n : ℤ) :
    x.toInt? = some n ↔ x.isFinite = true ∧ x.toRat = n := by
  have hsign : ∀ k : ℕ, ((if x.negative then -(k : ℤ) else k) = n)
      → (x.absRat = k ↔ x.toRat = n) := by
    rintro k rfl
    unfold toRat
    split
    · rw [Int.cast_neg, Int.cast_natCast, neg_inj]
    · rw [Int.cast_natCast]
  rw [toInt?, Option.map_eq_some_iff]
  constructor
  · rintro ⟨k, hk, hn⟩
    obtain ⟨hfin, hval⟩ := (natAbs?_eq_some_iff x k).mp hk
    exact ⟨hfin, (hsign k hn).mp hval⟩
  · rintro ⟨hfin, hval⟩
    have hn : (if x.negative then -(n.natAbs : ℤ) else n.natAbs) = n := by
      have h0 := x.absRat_nonneg
      unfold toRat at hval
      split at hval
      · have : (n : ℚ) ≤ 0 := by linarith
        have : n ≤ 0 := by exact_mod_cast this
        rw [if_pos (by assumption)]
        omega
      · have : (0 : ℚ) ≤ n := by linarith
        have : 0 ≤ n := by exact_mod_cast this
        rw [if_neg (by assumption)]
        omega
    exact ⟨n.natAbs, (natAbs?_eq_some_iff x _).mpr
      ⟨hfin, (hsign _ hn).mpr hval⟩, hn⟩

/-- **A machine word is read exactly if the value is that word.** -/
theorem toInt64?_eq_some_iff (x : Binary64) (w : Int64) :
    x.toInt64? = some w ↔ x.isFinite = true ∧ x.toRat = w.toInt := by
  have hlo := w.minValue_le_toInt
  have hhi := w.toInt_lt
  rw [toInt64?, Option.bind_eq_some_iff, ← toInt?_eq_some_iff]
  constructor
  · rintro ⟨n, hn, hw⟩
    obtain ⟨⟨hl, hu⟩, rfl⟩ := by
      simpa only [Option.ite_none_right_eq_some, Option.some.injEq] using hw
    rwa [Int64.toInt_ofInt_of_le hl hu]
  · intro h
    exact ⟨w.toInt, h, by
      rw [if_pos ⟨hlo, hhi⟩, Int64.ofInt_toInt]⟩

end Binary64

end RegisterMachine
