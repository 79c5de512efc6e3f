import Mathlib.Data.Nat.Cast.Field
import RegisterMachine.Instruction
import RegisterMachine.Proofs.Binary64.Word

/-!
# Machine words by comparison

Whether an operand is a machine word is a question about its exact value. A
processor has no exact values: it has comparisons of doubles, the part of a
double behind its point, and a conversion that cuts that part off and stops at
the ends of the range. The same question is then four: is the number finite, is
nothing behind the point, is it no less than the least word, and is it less than
the double nearest the greatest word. That last double is `2 ^ 63` and no word,
which is why the comparison is strict.

`Binary64.comparedWord?_eq_toInt64?` says that the four questions and the
conversion together give the exact answer for every pattern of bits, and
`Instruction.operand_is_exact_word` what that answer is.
-/

namespace RegisterMachine

namespace Binary64

variable {x y : Binary64}

/-! ## Comparisons -/

/-- Whether a pattern is not a number. -/
def isNaN (x : Binary64) : Bool := decide (infiniteMagnitude < x.magnitude)

/-- **The place of a number in the order of the doubles**; the two zeros share
theirs. -/
def rank (x : Binary64) : ℤ :=
  if x.negative then -(x.magnitude : ℤ) else x.magnitude

/-- Whether a number is below another. Nothing is below a pattern that is not a
number, nor above one. -/
def less (x y : Binary64) : Bool :=
  !x.isNaN && !y.isNaN && decide (x.rank < y.rank)

/-- Whether a number is no more than another. -/
def atMost (x y : Binary64) : Bool :=
  !x.isNaN && !y.isNaN && decide (x.rank ≤ y.rank)

theorem isNaN_of_isFinite (h : x.isFinite = true) : x.isNaN = false :=
  decide_eq_false (not_lt.mpr (of_decide_eq_true h).le)

/-- A pattern is finite, infinite or not a number. -/
theorem isFinite_eq_false_iff :
    x.isFinite = false ↔ x.isInfinite = true ∨ x.isNaN = true := by
  unfold isFinite isInfinite isNaN
  rw [decide_eq_false_iff_not, beq_iff_eq, decide_eq_true_eq]
  omega

theorem absRat_eq_zero_iff : x.absRat = 0 ↔ x.magnitude = 0 := by
  rw [← isZero_iff_absRat, isZero, beq_iff_eq]

theorem absRat_le_absRat_iff :
    x.absRat ≤ y.absRat ↔ x.magnitude ≤ y.magnitude := by
  rw [← not_lt, absRat_lt_absRat_iff, not_lt]

/-- **The order of the ranks is the order of the values.** -/
theorem rank_le_rank_iff : x.rank ≤ y.rank ↔ x.toRat ≤ y.toRat := by
  have hx := x.absRat_nonneg
  have hy := y.absRat_nonneg
  unfold rank toRat
  cases x.negative <;> cases y.negative <;>
    simp only [Bool.false_eq_true, if_true, if_false]
  · rw [absRat_le_absRat_iff, Int.ofNat_le]
  · -- only two zeros of different sign are no more than each other
    have hzero : x.absRat ≤ -y.absRat ↔ x.absRat = 0 ∧ y.absRat = 0 :=
      ⟨fun h => ⟨by linarith, by linarith⟩, fun ⟨hx, hy⟩ => by
        rw [hx, hy, neg_zero]⟩
    rw [hzero, absRat_eq_zero_iff, absRat_eq_zero_iff]
    omega
  · exact iff_of_true (by omega) (by linarith)
  · rw [neg_le_neg_iff, neg_le_neg_iff, absRat_le_absRat_iff, Int.ofNat_le]

theorem atMost_iff (hx : x.isFinite = true) (hy : y.isFinite = true) :
    x.atMost y = true ↔ x.toRat ≤ y.toRat := by
  unfold atMost
  rw [isNaN_of_isFinite hx, isNaN_of_isFinite hy, ← rank_le_rank_iff]
  exact decide_eq_true_iff

theorem less_iff (hx : x.isFinite = true) (hy : y.isFinite = true) :
    x.less y = true ↔ x.toRat < y.toRat := by
  have hrank : x.rank < y.rank ↔ x.toRat < y.toRat := by
    rw [← not_le, rank_le_rank_iff, not_le]
  unfold less
  rw [isNaN_of_isFinite hx, isNaN_of_isFinite hy, ← hrank]
  exact decide_eq_true_iff

/-! ## Whole part and fraction -/

/-- The number in front of the point, without its sign. -/
def wholePart (x : Binary64) : ℕ :=
  x.significand * 2 ^ x.exponent.toNat / 2 ^ (-x.exponent).toNat

/-- **The number behind the point** of a finite number, in double precision. -/
def fraction (x : Binary64) : Binary64 :=
  ofRatio x.negative
    (x.significand * 2 ^ x.exponent.toNat % 2 ^ (-x.exponent).toNat)
    (2 ^ (-x.exponent).toNat)

/-- **The conversion to a machine word.** What is behind the point is cut off, a
number out of range becomes the word at that end of the range, and a pattern that
is not a number becomes zero. -/
def toWord (x : Binary64) : Int64 :=
  if x.isNaN then 0
  else
    let n : ℤ := if x.negative then -(x.wholePart : ℤ) else x.wholePart
    Int64.ofInt (max (-2 ^ 63) (min n (2 ^ 63 - 1)))

/-- The least of the doubles that are not zero. -/
theorem absRat_least :
    (ofMagnitude false 1).isFinite = true
      ∧ (ofMagnitude false 1).absRat = 2 ^ (-1074 : ℤ) := by
  refine ⟨by decide, ?_⟩
  have hsignificand : (ofMagnitude false 1).significand = 1 := by decide
  have hexponent : (ofMagnitude false 1).exponent = -1074 := by decide
  rw [absRat, hsignificand, hexponent, Nat.cast_one, one_mul]

/-- **What is no less than the least double is not rounded to zero.** -/
theorem isZero_ofRat_of_le (negative : Bool) {v : ℚ}
    (hlo : 2 ^ (-1074 : ℤ) ≤ v) (hhi : v ≤ 2 ^ 63) :
    (ofRat negative v).isZero = false := by
  have hleast : (0 : ℚ) < 2 ^ (-1074 : ℤ) := by positivity
  have hnear := isNearestEven_ofRat negative (hleast.le.trans hlo)
  have hle := hnear.le_absRat (hnear.isFinite hhi) absRat_least.1
    (absRat_least.2.trans_le hlo)
  rw [absRat_least.2] at hle
  rw [Bool.eq_false_iff, Ne, isZero_iff_absRat]
  exact (hleast.trans_le hle).ne'

/-- Parts of a power of two that is within reach of the exponents are no less
than the least double. -/
theorem least_le_div_two_pow {r k : ℕ} (hr : r ≠ 0) (hk : k ≤ 1074) :
    (2 : ℚ) ^ (-1074 : ℤ) ≤ r / (2 ^ k : ℕ) := by
  have hone : (1 : ℚ) ≤ r := by exact_mod_cast Nat.one_le_iff_ne_zero.mpr hr
  calc (2 : ℚ) ^ (-1074 : ℤ)
      ≤ 2 ^ (-(k : ℤ)) := zpow_le_zpow_right₀ (by norm_num) (by omega)
    _ = 1 / (2 ^ k : ℕ) := by
        rw [zpow_neg, zpow_natCast, one_div, Nat.cast_pow, Nat.cast_ofNat]
    _ ≤ r / (2 ^ k : ℕ) := by gcongr

/-- **No fraction is lost in double precision**: the fraction is zero only where
nothing is behind the point. -/
theorem isZero_fraction_iff (x : Binary64) :
    x.fraction.isZero = true ↔
      x.significand * 2 ^ x.exponent.toNat % 2 ^ (-x.exponent).toNat = 0 := by
  set rest := x.significand * 2 ^ x.exponent.toNat % 2 ^ (-x.exponent).toNat
  have hunit : 0 < 2 ^ (-x.exponent).toNat := Nat.two_pow_pos _
  have hfraction : x.fraction
      = ofRat x.negative (rest / (2 ^ (-x.exponent).toNat : ℕ)) :=
    ofRatio_eq_ofRat x.negative rest hunit
  rw [hfraction]
  constructor
  · intro hzero
    by_contra hne
    have hexponent := x.neg_1074_le_exponent
    have hone : (rest : ℚ) / (2 ^ (-x.exponent).toNat : ℕ) ≤ 1 := by
      rw [div_le_one (by exact_mod_cast hunit)]
      exact_mod_cast (Nat.mod_lt _ hunit).le
    rw [isZero_ofRat_of_le x.negative (least_le_div_two_pow hne (by omega))
      (hone.trans (by norm_num))] at hzero
    cases hzero
  · intro hzero
    rw [hzero, Nat.cast_zero, zero_div]
    cases x.negative <;> decide

/-- **A number has no fraction exactly if its value is whole**, and then it is
its whole part. -/
theorem natAbs?_eq_wholePart (hfin : x.isFinite = true) :
    x.natAbs? = if x.fraction.isZero then some x.wholePart else none := by
  have hunit : ((2 ^ (-x.exponent).toNat : ℕ) : ℚ) ≠ 0 := by
    exact_mod_cast (Nat.two_pow_pos _).ne'
  split
  · next hzero =>
    have hdvd := Nat.dvd_of_mod_eq_zero ((isZero_fraction_iff x).mp hzero)
    rw [natAbs?_eq_some_iff, absRat_eq_div]
    exact ⟨hfin, (Nat.cast_div hdvd hunit).symm⟩
  · next hzero =>
    rw [Option.eq_none_iff_forall_ne_some]
    intro n hn
    obtain ⟨-, hvalue⟩ := (natAbs?_eq_some_iff x n).mp hn
    rw [absRat_eq_div, div_eq_iff hunit] at hvalue
    have hmul : x.significand * 2 ^ x.exponent.toNat
        = n * 2 ^ (-x.exponent).toNat := by exact_mod_cast hvalue
    exact hzero ((isZero_fraction_iff x).mpr (by rw [hmul, Nat.mul_mod_left]))

/-! ## The four questions -/

/-- **The operand as a machine word, by comparisons**: the number converted, if
it is finite, has no fraction, and lies from the least word on and below the
double nearest the greatest. -/
def comparedWord? (x : Binary64) : Option Int64 :=
  if x.isFinite && x.fraction.isZero && (ofInt (-2 ^ 63)).atMost x
      && x.less (ofInt (2 ^ 63 - 1)) then
    some x.toWord
  else none

/-- The least word is a double. -/
theorem toRat_ofInt_least :
    (ofInt (-2 ^ 63)).isFinite = true ∧ (ofInt (-2 ^ 63)).toRat = -2 ^ 63 := by
  have h : (ofInt (-2 ^ 63)).toInt? = some (-2 ^ 63) := by decide +kernel
  exact_mod_cast (toInt?_eq_some_iff _ _).mp h

/-- **The greatest word is none**: the double nearest to it is one more. -/
theorem toRat_ofInt_greatest :
    (ofInt (2 ^ 63 - 1)).isFinite = true
      ∧ (ofInt (2 ^ 63 - 1)).toRat = 2 ^ 63 := by
  have h : (ofInt (2 ^ 63 - 1)).toInt? = some (2 ^ 63) := by decide +kernel
  exact_mod_cast (toInt?_eq_some_iff _ _).mp h

/-- **In range nothing is cut off.** -/
theorem toWord_eq {n : ℤ} (hn : x.toInt? = some n) (hlo : -2 ^ 63 ≤ n)
    (hhi : n < 2 ^ 63) : x.toWord = Int64.ofInt n := by
  obtain ⟨hfin, -⟩ := (toInt?_eq_some_iff x n).mp hn
  unfold toInt? at hn
  rw [natAbs?_eq_wholePart hfin, Option.map_eq_some_iff] at hn
  obtain ⟨k, hk, hsign⟩ := hn
  obtain rfl : x.wholePart = k :=
    Option.some.inj (Option.ite_none_right_eq_some.mp hk).2
  unfold toWord
  rw [isNaN_of_isFinite hfin, if_neg Bool.false_ne_true]
  dsimp only
  rw [hsign, min_eq_left (by omega), max_eq_right hlo]

/-- **The four questions find the exact value.** -/
theorem comparedWord?_eq_toInt64? (x : Binary64) :
    x.comparedWord? = x.toInt64? := by
  unfold comparedWord? toInt64?
  cases hfin : x.isFinite with
  | false => rw [toInt?_of_not_isFinite hfin]; rfl
  | true =>
    obtain ⟨hleast, hleastvalue⟩ := toRat_ofInt_least
    obtain ⟨hgreatest, hgreatestvalue⟩ := toRat_ofInt_greatest
    have hnat := natAbs?_eq_wholePart hfin
    cases hzero : x.fraction.isZero with
    | false =>
      rw [hzero, if_neg Bool.false_ne_true] at hnat
      unfold toInt?
      rw [hnat]
      rfl
    | true =>
      rw [hzero, if_pos rfl] at hnat
      obtain ⟨n, hn⟩ : ∃ n, x.toInt? = some n := by
        unfold toInt?
        rw [hnat]
        exact ⟨_, rfl⟩
      obtain ⟨-, hvalue⟩ := (toInt?_eq_some_iff x n).mp hn
      have hlo : (ofInt (-2 ^ 63)).atMost x = true ↔ -2 ^ 63 ≤ n := by
        rw [atMost_iff hleast hfin, hleastvalue, hvalue]
        exact_mod_cast Iff.rfl
      have hhi : x.less (ofInt (2 ^ 63 - 1)) = true ↔ n < 2 ^ 63 := by
        rw [less_iff hfin hgreatest, hgreatestvalue, hvalue]
        exact_mod_cast Iff.rfl
      have hrange : (true && true && (ofInt (-2 ^ 63)).atMost x
          && x.less (ofInt (2 ^ 63 - 1))) = true
          ↔ -2 ^ 63 ≤ n ∧ n < 2 ^ 63 := by
        rw [Bool.and_eq_true, hhi, ← hlo]
        rfl
      rw [hn, Option.bind_some]
      by_cases hin : -2 ^ 63 ≤ n ∧ n < 2 ^ 63
      · rw [if_pos (hrange.mpr hin), if_pos hin, toWord_eq hn hin.1 hin.2]
      · rw [if_neg (mt hrange.mp hin), if_neg hin]

/-! ## The exact answer -/

/-- **A machine word is found exactly if the value is one.** -/
theorem map_toInt_toInt64?_eq_some_iff (x : Binary64) (n : ℤ) :
    x.toInt64?.map Int64.toInt = some n
      ↔ x.isFinite = true ∧ x.toRat = n ∧ -2 ^ 63 ≤ n ∧ n < 2 ^ 63 := by
  rw [Option.map_eq_some_iff]
  constructor
  · rintro ⟨w, hw, rfl⟩
    obtain ⟨hfin, hvalue⟩ := (toInt64?_eq_some_iff x w).mp hw
    exact ⟨hfin, hvalue, w.minValue_le_toInt, w.toInt_lt⟩
  · rintro ⟨hfin, hvalue, hlo, hhi⟩
    have hword : (Int64.ofInt n).toInt = n := Int64.toInt_ofInt_of_le hlo hhi
    refine ⟨.ofInt n, (toInt64?_eq_some_iff x _).mpr ⟨hfin, ?_⟩, hword⟩
    rw [hvalue, hword]

/-- **Why a number is no machine word.** -/
inductive NoWord (x : Binary64) : Prop where
  /-- It is infinite. -/
  | infinite (h : x.isInfinite = true)
  /-- It is not a number. -/
  | notANumber (h : x.isNaN = true)
  /-- It has a fraction. -/
  | fractional (hfin : x.isFinite = true) (h : ∀ n : ℤ, x.toRat ≠ n)
  /-- It is subnormal, and not zero. -/
  | subnormal (hpos : 0 < x.magnitude) (h : x.magnitude < 2 ^ 52)
  /-- It is below the least word. -/
  | tooSmall (hfin : x.isFinite = true) (h : x.toRat < -2 ^ 63)
  /-- It is above the greatest. -/
  | tooLarge (hfin : x.isFinite = true) (h : 2 ^ 63 ≤ x.toRat)

/-- **A subnormal number lies strictly between zero and one.** -/
theorem absRat_of_subnormal (hpos : 0 < x.magnitude)
    (h : x.magnitude < 2 ^ 52) : 0 < x.absRat ∧ x.absRat < 1 := by
  have hsignificand : x.significand = x.magnitude := if_pos h
  have hexponent : x.exponent = -1074 := by
    unfold exponent
    omega
  have hunit : (0 : ℚ) < 2 ^ (-1074 : ℤ) := by positivity
  unfold absRat
  rw [hsignificand, hexponent]
  refine ⟨mul_pos (by exact_mod_cast hpos) hunit, ?_⟩
  calc (x.magnitude : ℚ) * 2 ^ (-1074 : ℤ)
      < 2 ^ 52 * 2 ^ (-1074 : ℤ) := by
        gcongr
        exact_mod_cast h
    _ ≤ 2 ^ 52 * 2 ^ (-52 : ℤ) := by
        gcongr
        · norm_num
        · norm_num
    _ = 1 := by norm_num

/-- So it is not whole. -/
theorem toRat_ne_of_subnormal (hpos : 0 < x.magnitude)
    (h : x.magnitude < 2 ^ 52) (n : ℤ) : x.toRat ≠ n := by
  obtain ⟨hgt, hlt⟩ := absRat_of_subnormal hpos h
  intro hvalue
  rw [absRat_eq_natAbs hvalue] at hgt hlt
  have : 0 < n.natAbs := by exact_mod_cast hgt
  have : n.natAbs < 1 := by exact_mod_cast hlt
  omega

/-- **There is no machine word exactly for one of these reasons.** -/
theorem toInt64?_eq_none_iff_noWord (x : Binary64) :
    x.toInt64? = none ↔ x.NoWord := by
  have hword : x.toInt64? = none
      ↔ ∀ n : ℤ, ¬(x.isFinite = true ∧ x.toRat = n
          ∧ -2 ^ 63 ≤ n ∧ n < 2 ^ 63) := by
    rw [← Option.map_eq_none_iff (f := Int64.toInt),
      Option.eq_none_iff_forall_ne_some]
    exact forall_congr' fun n => not_congr (map_toInt_toInt64?_eq_some_iff x n)
  rw [hword]
  constructor
  · intro h
    cases hfin : x.isFinite with
    | false =>
      exact (isFinite_eq_false_iff.mp hfin).elim .infinite .notANumber
    | true =>
      by_cases hwhole : ∃ n : ℤ, x.toRat = n
      · obtain ⟨n, hn⟩ := hwhole
        by_cases hlo : -2 ^ 63 ≤ n
        · by_cases hhi : n < 2 ^ 63
          · exact absurd ⟨hfin, hn, hlo, hhi⟩ (h n)
          · exact .tooLarge hfin (by rw [hn]; exact_mod_cast not_lt.mp hhi)
        · exact .tooSmall hfin (by rw [hn]; exact_mod_cast not_le.mp hlo)
      · exact .fractional hfin fun n hn => hwhole ⟨n, hn⟩
  · rintro h n ⟨hfin, hvalue, hlo, hhi⟩
    cases h with
    | infinite h => exact not_isInfinite hfin h
    | notANumber h => rw [isNaN_of_isFinite hfin] at h; cases h
    | fractional _ h => exact h n hvalue
    | subnormal hpos h => exact toRat_ne_of_subnormal hpos h n hvalue
    | tooSmall _ h =>
      rw [hvalue] at h
      exact absurd (by exact_mod_cast h) (not_lt.mpr hlo)
    | tooLarge _ h =>
      rw [hvalue] at h
      exact absurd (by exact_mod_cast h) (not_le.mpr hhi)

end Binary64

namespace Instruction

/-- **An operand is used as a machine word exactly if it is one.** The word is
there if and only if the operand is a finite number whose value is that whole
number, within the range of a word; otherwise there is none, be the operand
absent, infinite, not a number, fractional, subnormal or out of range. The four
comparisons and the conversion find the same. Negative zero is zero, the least
word is one, and `2 ^ 63` is none. -/
theorem operand_is_exact_word (i : Instruction) :
    (∀ n : ℤ, i.integerOperand?.map Int64.toInt = some n
        ↔ ∃ x, i.operand = some x ∧ x.isFinite = true ∧ x.toRat = n
          ∧ -2 ^ 63 ≤ n ∧ n < 2 ^ 63)
      ∧ (i.integerOperand? = none
          ↔ i.operand = none ∨ ∃ x, i.operand = some x ∧ x.NoWord)
      ∧ i.integerOperand? = i.operand.bind Binary64.comparedWord?
      ∧ integerOperand? ⟨i.opcode, some (.zero true)⟩ = some 0
      ∧ integerOperand? ⟨i.opcode, some (.ofInt (-2 ^ 63))⟩
        = some Int64.minValue
      ∧ integerOperand? ⟨i.opcode, some (.ofInt (2 ^ 63))⟩ = none := by
  have hzero : (Binary64.zero true).toInt64? = some 0 := by decide +kernel
  have hleast : (Binary64.ofInt (-2 ^ 63)).toInt64? = some Int64.minValue := by
    decide +kernel
  have hlimit : (Binary64.ofInt (2 ^ 63)).toInt64? = none := by decide +kernel
  have hsome : ∀ x : Binary64,
      integerOperand? ⟨i.opcode, some x⟩ = x.toInt64? := fun _ => rfl
  rw [hsome, hsome, hsome]
  refine ⟨fun n => ?_, ?_, ?_, hzero, hleast, hlimit⟩
  · unfold integerOperand?
    cases i.operand with
    | none => simp
    | some x =>
      rw [Option.bind_some, Binary64.map_toInt_toInt64?_eq_some_iff]
      simp
  · unfold integerOperand?
    cases i.operand with
    | none => simp
    | some x =>
      rw [Option.bind_some, Binary64.toInt64?_eq_none_iff_noWord]
      simp
  · unfold integerOperand?
    exact congrArg _ (funext fun x => x.comparedWord?_eq_toInt64?.symm)

end Instruction

end RegisterMachine
