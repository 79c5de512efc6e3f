import RegisterMachine.Instruction
import RegisterMachine.Numeral
import RegisterMachine.Proofs.Decimal.Reading
import RegisterMachine.Proofs.Text.Words

/-!
# Operands as text, and back

An operand is printed as an integer or as a positional decimal, with a minus
in front if it needs one. Both are *plain*: digits with at most a point among
them, the first character a digit. A plain text is never taken for a radix
form or for infinity, so it is read as a decimal (`Numeral.parse?_signed`),
and as one with the value that was printed: positional notation fills in zeros
and moves the point, and neither changes the value.

It follows that a finite operand reads back (`Binary64.parse?_operandText`),
but for the sign of zero, which is not printed. The infinities are printed as
words that are no numerals.
-/

namespace RegisterMachine

namespace Numeral

/-- **What a numeral stands for is a number.** -/
theorem magnitude_value_le (n : Numeral) :
    n.value.magnitude ≤ Binary64.infiniteMagnitude := by
  cases n with
  | radix v =>
    show (Binary64.ofRatio false v 1).magnitude ≤ _
    rw [Binary64.ofRatio_eq_ofRat false v Nat.one_pos]
    exact Binary64.magnitude_ofRat_le _ _
  | infinity negative =>
    show (Binary64.ofMagnitude negative _).magnitude ≤ _
    rw [Binary64.magnitude_ofMagnitude negative Binary64.infiniteMagnitude_lt]
  | decimal negative d =>
    show (d.toBinary64 negative).magnitude ≤ _
    rw [Decimal.toBinary64_eq_ofRat]
    exact Binary64.magnitude_ofRat_le _ _

/-- **Plain text**: digits and points, a digit first. -/
structure IsPlain (s : List Char) : Prop where
  exists_head : ∃ c t, s = c :: t ∧ c.isDigit = true
  digit_or_point : ∀ c ∈ s, c.isDigit = true ∨ c = '.'

/-- The text with a minus in front, or without. -/
def signed (negative : Bool) (s : List Char) : List Char :=
  if negative then '-' :: s else s

/-- Digits alone are plain. -/
theorem isPlain_of_isDigit {s : List Char} (hne : s ≠ [])
    (hs : ∀ c ∈ s, c.isDigit = true) : IsPlain s where
  exists_head := by
    obtain ⟨c, t, rfl⟩ := List.exists_cons_of_ne_nil hne
    exact ⟨c, t, rfl, hs c (List.mem_cons_self ..)⟩
  digit_or_point c hc := .inl (hs c hc)

/-- Digits around a point are plain if there are some in front of it. -/
theorem isPlain_point {s t : List Char} (hne : s ≠ [])
    (hs : ∀ c ∈ s, c.isDigit = true) (ht : ∀ c ∈ t, c.isDigit = true) :
    IsPlain (s ++ '.' :: t) where
  exists_head := by
    obtain ⟨c, u, rfl⟩ := List.exists_cons_of_ne_nil hne
    exact ⟨c, u ++ '.' :: t, rfl, hs c (List.mem_cons_self ..)⟩
  digit_or_point c hc := by
    rcases List.mem_append.mp hc with hc | hc
    · exact .inl (hs c hc)
    · rcases List.mem_cons.mp hc with hc | hc
      · exact .inr hc
      · exact .inl (ht c hc)

/-! ## Reading plain text -/

/-- A digit is none of the characters that a form begins with. -/
theorem ne_of_isDigit {c d : Char} (hc : c.isDigit = true)
    (hd : d.isDigit = false) : c ≠ d := by
  rintro rfl
  rw [hc] at hd
  cases hd

theorem radixOf?_eq_none {c : Char} (h : c.isDigit = true ∨ c = '.') :
    radixOf? c = none := by
  unfold radixOf?
  split
  all_goals first | rfl | (rcases h with h | h <;> revert h <;> decide)

/-- A text in front of which no radix is announced is read as a signed
form. -/
theorem parse?_eq_parseSigned? {s : List Char}
    (h : ∀ c digits, s = '0' :: c :: digits → radixOf? c = none) :
    parse? s = parseSigned? s := by
  unfold parse?
  split
  · next c digits => rw [h c digits rfl]
  · rfl

/-- A character that is no sign is left where it is. -/
theorem takeSign_cons {c : Char} (hminus : c ≠ '-') (hplus : c ≠ '+')
    (s : List Char) : takeSign (c :: s) = (false, c :: s) := by
  unfold takeSign
  split
  · next heq => exact absurd (List.cons.inj heq).1 hminus
  · next heq => exact absurd (List.cons.inj heq).1 hplus
  · rfl

/-- **Plain text with a sign is read as a decimal with that sign.** -/
theorem parse?_signed {s : List Char} (h : IsPlain s) (negative : Bool) :
    parse? (signed negative s)
      = (parseDecimal? s).map (.decimal negative) := by
  obtain ⟨c, t, rfl, hc⟩ := h.exists_head
  have hinfinity : c :: t ≠ "Infinity".toList := fun heq =>
    ne_of_isDigit (d := 'I') hc rfl (List.cons.inj heq).1
  cases negative with
  | true =>
    show parseSigned? ('-' :: c :: t) = _
    unfold parseSigned?
    show (if c :: t = "Infinity".toList then _ else _) = _
    rw [if_neg hinfinity]
    rfl
  | false =>
    have hparse : parse? (c :: t) = parseSigned? (c :: t) := by
      refine parse?_eq_parseSigned? fun d digits heq => ?_
      exact radixOf?_eq_none (h.digit_or_point d (heq ▸ by simp))
    show parse? (c :: t) = _
    rw [hparse, parseSigned?,
      takeSign_cons (ne_of_isDigit hc rfl) (ne_of_isDigit hc rfl)]
    dsimp only
    rw [if_neg hinfinity]

/-- **Digits in front of a power of ten** are a whole number of it. -/
theorem parseDecimal?_whole {s power : List Char} {e : ℤ} (hne : s ≠ [])
    (hs : ∀ c ∈ s, c.isDigit = true)
    (hhead : ∀ c ∈ power.head?, c.isDigit = false ∧ c ≠ '.')
    (he : parsePower? power = some e) :
    parseDecimal? (s ++ power) = some ⟨ofDigits 10 s, e⟩ := by
  obtain ⟨htake, hdrop⟩ :=
    Text.takeWhile_dropWhile_append hs fun c hc => (hhead c hc).1
  have hfraction : takeFraction power = ([], power) := by
    unfold takeFraction
    split
    · exact absurd rfl (hhead '.' rfl).2
    · rfl
  unfold parseDecimal?
  rw [htake, hdrop, hfraction]
  dsimp only
  rw [if_neg fun h => hne h.1, he, List.append_nil]
  show some (⟨ofDigits 10 s, e - 0⟩ : Decimal) = _
  rw [sub_zero]

/-- **Digits around a point** are those digits, scaled, in front of a power of
ten as well. -/
theorem parseDecimal?_fraction {s t power : List Char} {e : ℤ}
    (hne : s ≠ [] ∨ t ≠ []) (hs : ∀ c ∈ s, c.isDigit = true)
    (ht : ∀ c ∈ t, c.isDigit = true)
    (hhead : ∀ c ∈ power.head?, c.isDigit = false)
    (he : parsePower? power = some e) :
    parseDecimal? (s ++ '.' :: (t ++ power))
      = some ⟨ofDigits 10 (s ++ t), e - t.length⟩ := by
  obtain ⟨htake, hdrop⟩ := Text.takeWhile_dropWhile_append (t := '.' :: (t ++ power))
    hs fun c hc => by cases hc; rfl
  obtain ⟨htake', hdrop'⟩ := Text.takeWhile_dropWhile_append ht hhead
  have hfraction : takeFraction ('.' :: (t ++ power)) = (t, power) := by
    show ((t ++ power).takeWhile Char.isDigit,
      (t ++ power).dropWhile Char.isDigit) = _
    rw [htake', hdrop']
  unfold parseDecimal?
  rw [htake, hdrop, hfraction]
  dsimp only
  rw [if_neg (by rwa [not_and_or]), he]
  rfl

/-- Digits alone are a whole number. -/
theorem parseDecimal?_digits {s : List Char} (hne : s ≠ [])
    (hs : ∀ c ∈ s, c.isDigit = true) :
    parseDecimal? s = some ⟨ofDigits 10 s, 0⟩ := by
  have h : parseDecimal? (s ++ []) = some ⟨ofDigits 10 s, 0⟩ :=
    parseDecimal?_whole hne hs (fun c hc => by cases hc) rfl
  rwa [List.append_nil] at h

/-- Digits around a point are those digits, scaled. -/
theorem parseDecimal?_point {s t : List Char} (hne : s ≠ [])
    (hs : ∀ c ∈ s, c.isDigit = true) (ht : ∀ c ∈ t, c.isDigit = true) :
    parseDecimal? (s ++ '.' :: t)
      = some ⟨ofDigits 10 (s ++ t), -(t.length : ℤ)⟩ := by
  have h : parseDecimal? (s ++ '.' :: (t ++ []))
      = some ⟨ofDigits 10 (s ++ t), 0 - t.length⟩ :=
    parseDecimal?_fraction (.inl hne) hs ht (fun c hc => by cases hc) rfl
  rwa [List.append_nil, zero_sub] at h

end Numeral

namespace Decimal

/-! ## Positional notation -/

theorem isDigit_of_mem_wholePart {d : Decimal} {c : Char}
    (h : c ∈ d.wholePart) : c.isDigit = true := by
  unfold wholePart at h
  split at h
  · rcases List.mem_append.mp h with h | h
    · exact isDigit_of_mem_decimalDigits (List.mem_of_mem_take h)
    · exact isDigit_of_mem_zeros h
  · rw [List.mem_singleton.mp h]
    rfl

theorem isDigit_of_mem_fractionPart {d : Decimal} {c : Char}
    (h : c ∈ d.fractionPart) : c.isDigit = true := by
  unfold fractionPart at h
  split at h
  · cases h
  · rcases List.mem_append.mp h with h | h
    · exact isDigit_of_mem_zeros h
    · exact isDigit_of_mem_decimalDigits (List.mem_of_mem_drop h)

theorem wholePart_ne_nil (d : Decimal) : d.wholePart ≠ [] := by
  unfold wholePart
  split
  · next h =>
    have hlen : (decimalDigits d.digits).length ≠ 0 :=
      (digitCount_pos d.digits).ne'
    intro hnil
    have htake := (List.append_eq_nil_iff.mp hnil).1
    rw [List.take_eq_nil_iff] at htake
    rcases htake with h0 | h0
    · omega
    · exact hlen (by rw [h0]; rfl)
  · exact List.cons_ne_nil _ _

/-- A decimal of whole units is its digits with zeros behind them. -/
theorem parts_of_nonneg {d : Decimal} (h : 0 ≤ d.exponent) :
    d.fractionPart = []
      ∧ ofDigits 10 d.wholePart = d.digits * 10 ^ d.exponent.toNat := by
  have hpos := digitCount_pos d.digits
  have hceiling : digitCount d.digits ≤ d.ceiling.toNat := by
    unfold ceiling
    omega
  refine ⟨if_pos h, ?_⟩
  unfold wholePart
  rw [if_pos (by omega), List.take_of_length_le hceiling, ofDigits_append,
    ofDigits_decimalDigits, ofDigits_zeros, length_zeros, add_zero]

/-- A decimal of smaller units is its digits, with a point where the units
begin. -/
theorem parts_of_neg {d : Decimal} (h : d.exponent < 0) :
    (d.fractionPart.length : ℤ) = -d.exponent
      ∧ ofDigits 10 (d.wholePart ++ d.fractionPart) = d.digits := by
  have hlen : (decimalDigits d.digits).length = digitCount d.digits := rfl
  have hceiling : d.ceiling = digitCount d.digits + d.exponent := rfl
  unfold wholePart fractionPart
  rw [if_neg (not_le.mpr h)]
  split
  · next hpos =>
    -- the point stands among the digits, and no zero is filled in
    have hzeros : (-d.ceiling).toNat = 0 := by omega
    have hexp : d.exponent.toNat = 0 := by omega
    rw [hzeros, hexp]
    show (((decimalDigits d.digits).drop d.ceiling.toNat).length : ℤ) = _ ∧ _
    refine ⟨?_, ?_⟩
    · rw [List.length_drop, hlen]
      omega
    · show ofDigits 10 ((decimalDigits d.digits).take d.ceiling.toNat ++ []
        ++ (decimalDigits d.digits).drop d.ceiling.toNat) = _
      rw [List.append_nil, List.take_append_drop, ofDigits_decimalDigits]
  · next hnpos =>
    -- the point stands in front of all digits, with zeros between
    have hdrop : d.ceiling.toNat = 0 := by omega
    rw [hdrop, List.drop_zero]
    refine ⟨?_, ?_⟩
    · rw [List.length_append, length_zeros, hlen]
      omega
    · rw [← List.append_assoc, ofDigits_append, ofDigits_append,
        ofDigits_zeros, ofDigits_decimalDigits]
      show (0 * _ + 0) * _ + d.digits = _
      rw [zero_mul, zero_add, zero_mul, zero_add]

/-- **Positional notation is plain.** -/
theorem isPlain_positional (d : Decimal) : Numeral.IsPlain d.positional := by
  unfold positional
  split
  · exact Numeral.isPlain_of_isDigit d.wholePart_ne_nil
      fun c => isDigit_of_mem_wholePart
  · exact Numeral.isPlain_point d.wholePart_ne_nil
      (fun c => isDigit_of_mem_wholePart)
      (fun c => isDigit_of_mem_fractionPart)

/-- **Positional notation is read as a decimal of the same value.** -/
theorem parseDecimal?_positional (d : Decimal) :
    ∃ d', Numeral.parseDecimal? d.positional = some d'
      ∧ d'.toRat = d.toRat := by
  have hwhole := d.wholePart_ne_nil
  rcases le_or_gt 0 d.exponent with h | h
  · obtain ⟨hfraction, hvalue⟩ := parts_of_nonneg h
    unfold positional
    rw [hfraction]
    refine ⟨_, Numeral.parseDecimal?_digits hwhole
      fun c => isDigit_of_mem_wholePart, ?_⟩
    rw [hvalue, toRat_mul_pow, zero_add, Int.toNat_of_nonneg h]
  · obtain ⟨hlength, hvalue⟩ := parts_of_neg h
    have hne : d.fractionPart ≠ [] := fun hnil => by
      rw [hnil] at hlength
      simp only [List.length_nil, Nat.cast_zero] at hlength
      omega
    have hpositional : d.positional
        = d.wholePart ++ '.' :: d.fractionPart := by
      unfold positional
      split
      · next hnil => exact absurd hnil hne
      · rfl
    refine ⟨_, hpositional ▸ Numeral.parseDecimal?_point hwhole
      (fun c => isDigit_of_mem_wholePart)
      (fun c => isDigit_of_mem_fractionPart), ?_⟩
    rw [hvalue, hlength, neg_neg]

end Decimal

namespace Binary64

variable {x : Binary64}

/-! ## Operands -/

/-- **The number without the sign of zero**, which is not printed. -/
def unsignZero (x : Binary64) : Binary64 :=
  if x.isZero then zero false else x

/-- **Dropping the sign of zero does not change the number.** -/
theorem numEq_unsignZero (h : x.magnitude ≤ infiniteMagnitude) :
    x.numEq x.unsignZero = true := by
  unfold unsignZero numEq
  split
  · next hzero =>
    rw [hzero]
    rfl
  · rw [beq_self_eq_true, decide_eq_true h]
    exact Bool.or_true _

/-- A magnitude with the right sign is the number; on zero, no sign is. -/
theorem ofMagnitude_eq_unsignZero {negative : Bool}
    (h : negative = (x.negative && !x.isZero)) :
    ofMagnitude negative x.magnitude = x.unsignZero := by
  rw [h, unsignZero]
  split
  · next hzero =>
    have hmag : x.magnitude = 0 := eq_of_beq hzero
    rw [hzero, hmag, Bool.not_true, Bool.and_false]
    rfl
  · next hzero =>
    rw [Bool.eq_false_iff.mpr hzero, Bool.not_false, Bool.and_true]
    exact ofMagnitude_negative_magnitude x

/-- A number is below zero exactly if it has a sign and is not zero. -/
theorem toRat_lt_zero_iff (x : Binary64) :
    x.toRat < 0 ↔ (x.negative && !x.isZero) = true := by
  have hnonneg := x.absRat_nonneg
  rw [Bool.and_eq_true, Bool.not_eq_true', ← Bool.not_eq_true,
    isZero_iff_absRat, toRat]
  split
  · next hneg =>
    rw [neg_lt_zero, and_iff_right hneg]
    exact ⟨fun h => h.ne', fun h => lt_of_le_of_ne hnonneg (Ne.symm h)⟩
  · next hneg =>
    exact iff_of_false hnonneg.not_gt fun h => hneg h.1

/-- **What a finite operand is printed as**: a plain text with a sign, read as
a decimal that is rounded to the number. -/
structure PrintsAs (x : Binary64) (negative : Bool) (s : List Char)
    (d : Decimal) : Prop where
  text_eq : x.operandText.toList = Numeral.signed negative s
  isPlain : Numeral.IsPlain s
  parse_eq : Numeral.parseDecimal? s = some d
  value_eq : d.toBinary64 negative = x.unsignZero

/-- An integer is printed as its digits with its sign. -/
theorem toList_toString_int (n : ℤ) :
    (toString n).toList
      = Numeral.signed (decide (n < 0)) (decimalDigits n.natAbs) := by
  cases n with
  | ofNat k => exact Nat.toList_repr
  | negSucc k =>
    show ("-" ++ Nat.repr (k + 1)).toList = _
    rw [String.toList_append, Nat.toList_repr,
      decide_eq_true (Int.negSucc_lt_zero k)]
    rfl

/-- A whole number below the bound is printed as an integer. -/
theorem printsAs_of_integer {n : ℤ} (hn : x.toInt? = some n)
    (hlt : n.natAbs < 10 ^ 15) :
    x.PrintsAs (decide (n < 0)) (decimalDigits n.natAbs) ⟨n.natAbs, 0⟩ := by
  obtain ⟨hfin, hvalue⟩ := (toInt?_eq_some_iff x n).mp hn
  have hdigits : ∀ c ∈ decimalDigits n.natAbs, c.isDigit = true := fun c =>
    isDigit_of_mem_decimalDigits
  have hne : decimalDigits n.natAbs ≠ [] := Nat.toDigits_ne_nil
  refine ⟨?_, Numeral.isPlain_of_isDigit hne hdigits, ?_, ?_⟩
  · unfold operandText
    rw [hn]
    dsimp only
    rw [if_pos hlt, toList_toString_int]
  · rw [Numeral.parseDecimal?_digits hne hdigits, ofDigits_decimalDigits]
  · rw [Decimal.toBinary64_eq_ofRat, Decimal.toRat_natCast,
      ← absRat_eq_natAbs hvalue, ofRat_absRat _ hfin]
    refine ofMagnitude_eq_unsignZero ?_
    rw [Bool.eq_iff_iff, decide_eq_true_iff, ← toRat_lt_zero_iff, hvalue,
      Int.cast_lt_zero]

/-- The text in shortest digits is positional, with the sign in front. -/
theorem toList_plainText (hfin : x.isFinite = true) :
    x.plainText.toList
      = Numeral.signed x.negative (Decimal.shortest .up x).positional := by
  rw [plainText, hfin]
  rw [if_pos rfl, String.toList_append, String.toList_ofList]
  cases x.negative <;> rfl

/-- Any other finite number is printed in shortest digits. -/
theorem printsAs_of_shortest (hfin : x.isFinite = true)
    (hzero : x.isZero = false) (htext : x.operandText = x.plainText) :
    ∃ d, x.PrintsAs x.negative (Decimal.shortest .up x).positional d := by
  obtain ⟨d, hparse, hvalue⟩ :=
    Decimal.parseDecimal?_positional (Decimal.shortest .up x)
  refine ⟨d, ?_, Decimal.isPlain_positional _, hparse, ?_⟩
  · rw [htext, toList_plainText hfin]
  · rw [Decimal.toBinary64_congr hvalue, Decimal.toBinary64_shortest _ _ hfin]
    refine ofMagnitude_eq_unsignZero ?_
    rw [hzero, Bool.not_false, Bool.and_true]

/-- **Every finite operand is printed as plain text that reads back.** -/
theorem exists_printsAs (hfin : x.isFinite = true) :
    ∃ negative s d, x.PrintsAs negative s d := by
  by_cases hint : ∃ n, x.toInt? = some n ∧ n.natAbs < 10 ^ 15
  · obtain ⟨n, hn, hlt⟩ := hint
    exact ⟨_, _, _, printsAs_of_integer hn hlt⟩
  · have htext : x.operandText = x.plainText := by
      unfold operandText
      split
      · next n hn => exact if_neg fun hlt => hint ⟨n, hn, hlt⟩
      · rfl
    have hzero : x.isZero = false := by
      rw [← Bool.not_eq_true, isZero_iff_absRat, ← abs_toRat, abs_eq_zero]
      intro hvalue
      exact hint ⟨0, (toInt?_eq_some_iff x 0).mpr ⟨hfin, by simpa using hvalue⟩,
        by decide⟩
    obtain ⟨d, hd⟩ := printsAs_of_shortest hfin hzero htext
    exact ⟨_, _, d, hd⟩

/-- **A finite operand reads back**, but for the sign of zero. -/
theorem parse?_operandText (hfin : x.isFinite = true) :
    (Numeral.parse? x.operandText.toList).map Numeral.value
      = some x.unsignZero := by
  obtain ⟨negative, s, d, h⟩ := exists_printsAs hfin
  rw [h.text_eq, Numeral.parse?_signed h.isPlain, h.parse_eq]
  show some (d.toBinary64 negative) = _
  rw [h.value_eq]

/-- **The infinities are printed as words.** -/
theorem operandText_of_isInfinite (h : x.isInfinite = true) :
    x.operandText = if x.negative then "-inf" else "inf" := by
  have hfin := isFinite_of_isInfinite h
  unfold operandText
  rw [toInt?_of_not_isFinite hfin]
  show x.plainText = _
  unfold plainText
  rw [hfin, h]
  cases x.negative <;> rfl

/-- The words for the infinities are no numerals. -/
theorem parse?_infinity_text (negative : Bool) :
    Numeral.parse? (if negative then "-inf" else "inf").toList = none := by
  cases negative <;> decide

/-- A digit, a point and a minus are no blanks. -/
theorem isBlank_eq_false {c : Char}
    (h : c.isDigit = true ∨ c = '.' ∨ c = '-') : Text.isBlank c = false := by
  have hrange : 45 ≤ c.toNat ∧ c.toNat ≤ 57 := by
    rcases h with h | rfl | rfl
    · have := Char.isDigit_iff_toNat.mp h
      exact ⟨le_trans (by decide) this.1, this.2⟩
    · decide
    · decide
  unfold Text.isBlank Text.blankRanges
  simp only [List.any_cons, List.any_nil, Bool.or_false, Bool.or_eq_false_iff,
    Bool.and_eq_false_iff, decide_eq_false_iff_not, not_le]
  omega

/-- Plain text with a sign is one word. -/
theorem isWord_signed {s : List Char} (h : Numeral.IsPlain s)
    (negative : Bool) :
    Numeral.signed negative s ≠ []
      ∧ ∀ c ∈ Numeral.signed negative s, Text.isBlank c = false := by
  obtain ⟨a, t, hs, -⟩ := h.exists_head
  have hplain : ∀ c ∈ s, Text.isBlank c = false := fun c hc =>
    isBlank_eq_false ((h.digit_or_point c hc).imp_right .inl)
  cases negative with
  | true => exact ⟨List.cons_ne_nil _ _, List.forall_mem_cons.mpr ⟨rfl, hplain⟩⟩
  | false => exact ⟨hs ▸ List.cons_ne_nil a t, hplain⟩

/-- An integer is written as one word. -/
theorem isWord_toString_int (n : ℤ) :
    (toString n).toList ≠ []
      ∧ ∀ c ∈ (toString n).toList, Text.isBlank c = false := by
  rw [toList_toString_int]
  exact isWord_signed (Numeral.isPlain_of_isDigit Nat.toDigits_ne_nil
    fun c => isDigit_of_mem_decimalDigits) _

/-- **An operand is printed as one word.** -/
theorem isWord_operandText (h : x.magnitude ≤ infiniteMagnitude) :
    x.operandText.toList ≠ []
      ∧ ∀ c ∈ x.operandText.toList, Text.isBlank c = false := by
  rcases isFinite_or_isInfinite h with hfin | hinf
  · obtain ⟨negative, s, d, hprints⟩ := exists_printsAs hfin
    rw [hprints.text_eq]
    exact isWord_signed hprints.isPlain negative
  · rw [operandText_of_isInfinite hinf]
    cases x.negative with
    | true => exact ⟨by decide, Text.isBlank_eq_false_of_all (by decide)⟩
    | false => exact ⟨by decide, Text.isBlank_eq_false_of_all (by decide)⟩

end Binary64

end RegisterMachine
