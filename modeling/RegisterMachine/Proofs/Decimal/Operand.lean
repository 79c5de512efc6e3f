import RegisterMachine.Proofs.Binary64.Comparison
import RegisterMachine.Proofs.Decimal.Fifteen
import RegisterMachine.Proofs.Decimal.Whole
import RegisterMachine.Proofs.Numeral.Grammar

/-!
# One text for a whole operand

An operand is written on one of two paths. A whole number below `10 ^ 15` is
converted to a machine word, and the word is written; anything else is written
in shortest digits. Which path is taken is decided by two comparisons of doubles,
of the number behind the point with zero and of the whole with `10 ^ 15`
(`Binary64.operandText_eq_ite`).

The first path is a short cut and no rule of its own: below `10 ^ 15` the
shortest digits, with zeros filled in up to the point, are the digits of the word
(`Binary64.plainText_of_whole`). Only the negative zero would be written with its
sign on the second path. On either path a finite operand becomes plain decimal
text (`Binary64.isPlainDecimal_operandText`), whatever the exponent.
-/

namespace RegisterMachine

/-! ## Plain decimal text -/

/-- **Plain decimal text**: a minus or none, digits in front of which stands no
needless zero, and nothing more or a point with digits behind it. -/
inductive IsPlainDecimal : List Char → Prop where
  | whole {s : List Char} (negative : Bool) (hs : IsWhole s) :
      IsPlainDecimal (Numeral.signed negative s)
  | point {s t : List Char} (negative : Bool)
      (hs : IsWhole s) (ht : Numeral.IsDigits t) :
      IsPlainDecimal (Numeral.signed negative (s ++ '.' :: t))

/-- **Positional notation is plain decimal text**, if zero is written in
ones. -/
theorem isPlainDecimal_positional (negative : Bool) {d : Decimal}
    (h : d.digits = 0 → d.exponent = 0) :
    IsPlainDecimal (Numeral.signed negative d.positional) := by
  have hwhole := Decimal.isWhole_wholePart h
  unfold Decimal.positional
  split
  · exact .whole negative hwhole
  · next hne =>
    exact .point negative hwhole
      ⟨hne, fun c => Decimal.isDigit_of_mem_fractionPart⟩

namespace Binary64

variable {x y : Binary64} {n : ℤ}

/-! ## Which path is taken -/

/-- What is less than a finite number without its sign is finite. -/
theorem isFinite_of_abs_less (hy : y.isFinite = true)
    (h : x.abs.less y = true) : x.isFinite = true := by
  have hrank : x.abs.rank < y.rank := by
    unfold less at h
    exact of_decide_eq_true (Bool.and_eq_true_iff.mp h).2
  have hx : x.abs.rank = x.magnitude := by
    unfold rank
    rw [x.negative_abs, x.magnitude_abs]
    rfl
  have hle : y.rank ≤ y.magnitude := by
    unfold rank
    split <;> omega
  have hmag : y.magnitude < infiniteMagnitude := of_decide_eq_true hy
  refine decide_eq_true ?_
  omega

/-- The bound of the first path is a double. -/
theorem toRat_ofInt_ten_pow :
    (ofInt (10 ^ 15)).isFinite = true ∧ (ofInt (10 ^ 15)).toRat = 10 ^ 15 := by
  have h : (ofInt (10 ^ 15)).toInt? = some (10 ^ 15) := by decide +kernel
  exact_mod_cast (toInt?_eq_some_iff _ _).mp h

/-- **The comparison with the bound** is one of values. -/
theorem abs_less_ten_pow_iff (hn : x.toInt? = some n) :
    x.abs.less (ofInt (10 ^ 15)) = true ↔ n.natAbs < 10 ^ 15 := by
  obtain ⟨hfin, hvalue⟩ := (toInt?_eq_some_iff x n).mp hn
  obtain ⟨hbound, hboundvalue⟩ := toRat_ofInt_ten_pow
  have habs : x.abs.toRat = (n.natAbs : ℚ) := by
    rw [toRat, x.negative_abs, if_neg Bool.false_ne_true, x.absRat_abs,
      absRat_eq_natAbs hvalue]
  rw [less_iff (x.isFinite_abs.trans hfin) hbound, hboundvalue, habs]
  exact_mod_cast Iff.rfl

/-- **A word is written as its value.** -/
theorem toString_toWord (hn : x.toInt? = some n) (hlt : n.natAbs < 10 ^ 15) :
    toString x.toWord = toString n := by
  have hlo : -2 ^ 63 ≤ n := by omega
  have hhi : n < 2 ^ 63 := by omega
  rw [toWord_eq hn hlo hhi]
  show toString (Int64.ofInt n).toInt = toString n
  rw [Int64.toInt_ofInt_of_le hlo hhi]

/-- **An operand is written on one of two paths**, and two comparisons say
which: that nothing is behind the point, and that the number is less than
`10 ^ 15` without its sign. A pattern that is not finite fails the second. -/
theorem operandText_eq_ite (x : Binary64) :
    x.operandText
      = if x.fraction.isZero && x.abs.less (ofInt (10 ^ 15)) then
          toString x.toWord
        else x.plainText := by
  unfold operandText
  cases hint : x.toInt? with
  | some n =>
    obtain ⟨hfin, -⟩ := (toInt?_eq_some_iff x n).mp hint
    have hzero : x.fraction.isZero = true := by
      by_contra hzero
      unfold toInt? at hint
      rw [natAbs?_eq_wholePart hfin, if_neg hzero] at hint
      cases hint
    have hless := abs_less_ten_pow_iff hint
    rw [hzero, Bool.true_and]
    dsimp only
    split
    · next hlt => rw [if_pos (hless.mpr hlt), toString_toWord hint hlt]
    · next hge => rw [if_neg (mt hless.mp hge)]
  | none =>
    dsimp only
    rw [if_neg]
    intro h
    obtain ⟨hzero, hless⟩ := Bool.and_eq_true_iff.mp h
    have hfin := isFinite_of_abs_less toRat_ofInt_ten_pow.1 hless
    unfold toInt? at hint
    rw [natAbs?_eq_wholePart hfin, if_pos hzero] at hint
    cases hint

/-! ## The paths agree -/

/-- **A sign in front of a number is that of its value**, but on the negative
zero. -/
theorem negative_eq_decide (hvalue : x.toRat = n) (hx : x ≠ .zero true) :
    x.negative = decide (n < 0) := by
  have hsign := toRat_lt_zero_iff x
  rw [hvalue, Int.cast_lt_zero] at hsign
  rw [Bool.eq_iff_iff, decide_eq_true_iff, hsign, Bool.and_eq_true,
    Bool.not_eq_true']
  refine ⟨fun hneg => ⟨hneg, ?_⟩, And.left⟩
  by_contra hzero
  have hmag : x.magnitude = 0 :=
    eq_of_beq ((Bool.not_eq_false _).mp hzero)
  exact hx (by rw [← ofMagnitude_negative_magnitude x, hneg, hmag]; rfl)

/-- **The shortest digits of a whole number below `10 ^ 15`** are the digits of
the number. -/
theorem plainText_of_whole (hfin : x.isFinite = true) (hvalue : x.toRat = n)
    (hlt : n.natAbs < 10 ^ 15) (hx : x ≠ .zero true) :
    x.plainText = toString n := by
  have hshortest := Decimal.isShortest_shortest hfin
  apply String.toList_inj.mp
  rw [toList_plainText hfin, toList_toString_int, negative_eq_decide hvalue hx,
    Decimal.positional_eq_decimalDigits hshortest.eq_zero_of_mod
      (hshortest.toRat_eq hfin hlt (absRat_eq_natAbs hvalue))]

/-- The negative zero is the exception. -/
example : (zero true).operandText = "0" ∧ (zero true).plainText = "-0" := by
  decide +kernel

/-- **A finite operand is written as plain decimal text.** -/
theorem isPlainDecimal_operandText (hfin : x.isFinite = true) :
    IsPlainDecimal x.operandText.toList := by
  have hplain : IsPlainDecimal x.plainText.toList := by
    rw [toList_plainText hfin]
    exact isPlainDecimal_positional _ (Decimal.exponent_shortest_of_digits hfin)
  unfold operandText
  split
  · split
    · rw [toList_toString_int]
      exact .whole _ (isWhole_decimalDigits _)
    · exact hplain
  · exact hplain

/-- **The short cut for whole operands is no rule of its own.** An operand is
written as a machine word if two comparisons find it whole and below `10 ^ 15`,
and in shortest digits otherwise. The shortest digits of a finite number are
those of the one decimal that reads back with the fewest digits and nearest, with
zeros filled in up to the point. For a whole number below `10 ^ 15` other than the
negative zero they are the digits of the machine word, and so of the number
itself. And on either path a finite operand is written as plain decimal text. -/
theorem operandText_agrees (x : Binary64) :
    (x.operandText
        = if x.fraction.isZero && x.abs.less (ofInt (10 ^ 15)) then
            toString x.toWord
          else x.plainText)
      ∧ (x.isFinite = true →
        (∃ d : Decimal, (∀ d' : Decimal, d'.IsShortest x ↔ d' = d)
          ∧ x.plainText.toList = Numeral.signed x.negative d.positional)
        ∧ (∀ n : ℤ, x.toRat = n → |n| < 10 ^ 15 → x ≠ .zero true →
          toString x.toWord = toString n ∧ toString x.toWord = x.plainText)
        ∧ IsPlainDecimal x.operandText.toList) := by
  refine ⟨operandText_eq_ite x, fun hfin =>
    ⟨⟨Decimal.shortest .up x, fun d' => Decimal.isShortest_iff hfin,
      toList_plainText hfin⟩, ?_, isPlainDecimal_operandText hfin⟩⟩
  intro n hvalue hlt hx
  have hnat : n.natAbs < 10 ^ 15 := by
    rw [Int.abs_eq_natAbs] at hlt
    exact_mod_cast hlt
  have hword : toString x.toWord = toString n :=
    toString_toWord ((toInt?_eq_some_iff x n).mpr ⟨hfin, hvalue⟩) hnat
  exact ⟨hword, hword.trans (plainText_of_whole hfin hvalue hnat hx).symm⟩

/-- One digit is all that the shortest decimal of this number has; its fourteen
zeros are filled in. -/
theorem operandText_agrees_at_minus_ten_pow :
    let x := ofInt (-10 ^ 14)
    x.isFinite = true ∧ x.toRat = (-10 ^ 14 : ℤ) ∧ |(-10 ^ 14 : ℤ)| < 10 ^ 15
      ∧ x ≠ .zero true ∧ Decimal.shortest .up x = ⟨1, 14⟩
      ∧ toString x.toWord = x.plainText ∧ x.plainText = "-100000000000000"
      ∧ IsPlainDecimal x.operandText.toList := by
  intro x
  have hint : x.toInt? = some (-10 ^ 14) := by decide +kernel
  obtain ⟨hfin, hvalue⟩ := (toInt?_eq_some_iff x (-10 ^ 14)).mp hint
  have hlt : |(-10 ^ 14 : ℤ)| < 10 ^ 15 := by decide
  have hx : x ≠ .zero true := by decide +kernel
  obtain ⟨-, hwhole, hplain⟩ := (operandText_agrees x).2 hfin
  obtain ⟨hword, hagree⟩ := hwhole (-10 ^ 14) hvalue hlt hx
  have htext : toString (-10 ^ 14 : ℤ) = "-100000000000000" := by decide +kernel
  exact ⟨hfin, hvalue, hlt, hx, by decide +kernel, hagree,
    hagree.symm.trans (hword.trans htext), hplain⟩

end Binary64

end RegisterMachine
