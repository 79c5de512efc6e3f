import RegisterMachine.Proofs.Json.Reading

/-!
# Numbers as they are written and read

A number that is put together as the grammar says is taken apart again into the
same parts (`Json.numberText_writesUnsigned`), so a text in front of which no
number goes on is the text of one number only (`Json.WritesNumber.unique`).

An integer is written without fraction and power, and a finite real number
always with one of them. The parts of a real number spell the decimal that was
printed, with at most a zero added behind it (`Json.decimal_decimalParts`), and
that decimal rounds to the number.
-/

namespace RegisterMachine.Json

open NumberText

variable {s t : List Char} (ended : Problem)

/-! ## Taking parts apart -/

theorem takeDigits_append (ht : ∀ c ∈ t, c.isDigit = true)
    (hs : ∀ c ∈ s.head?, c.isDigit = false) : takeDigits (t ++ s) = (t, s) := by
  obtain ⟨htake, hdrop⟩ := Text.takeWhile_dropWhile_append ht hs
  rw [takeDigits, htake, hdrop]

theorem someDigits_append (hne : t ≠ []) (ht : ∀ c ∈ t, c.isDigit = true)
    (hs : ∀ c ∈ s.head?, c.isDigit = false) :
    Finds (someDigits ended (t ++ s)) t s := by
  obtain ⟨c, t, rfl⟩ := List.exists_cons_of_ne_nil hne
  obtain ⟨hc, ht⟩ := List.forall_mem_cons.mp ht
  rw [List.cons_append]
  unfold someDigits
  dsimp only
  rw [if_pos hc]
  simp only [takeDigits_append ht hs]
  exact .ok _

theorem wholeDigits_append (ht : IsWhole t)
    (hs : ∀ c ∈ s.head?, c.isDigit = false) :
    Finds (wholeDigits ended (t ++ s)) t s := by
  refine (someDigits_append ended ht.ne_nil ht.isDigit hs).bind fun _ => ?_
  dsimp only
  split
  · next c cs => cases ht.eq_nil_of_zero _ rfl
  · exact .ok _

/-- What stands behind a power, or where one might stand, goes on with no
digit. -/
theorem WritesPower.isDigit_head {power : Option ℤ} {text : List Char}
    (h : WritesPower power text) (hs : EndsNumber s) :
    ∀ c ∈ (text ++ s).head?, c.isDigit = false := by
  cases h with
  | absent => exact fun c hc => (hs c hc).1
  | present ht hne =>
    cases ht with
    | absent => exact absurd rfl hne
    | present hc => exact fun d hd => by cases hd; rcases hc with rfl | rfl <;> rfl

/-- What stands behind the whole digits is no digit. -/
theorem isDigit_head_fractionText (fraction : List Char) {power : Option ℤ}
    {text : List Char} (h : WritesPower power text) (hs : EndsNumber s) :
    ∀ c ∈ (fractionText fraction ++ (text ++ s)).head?,
      c.isDigit = false := by
  cases fraction with
  | cons d ds => exact fun c hc => by cases hc; rfl
  | nil => exact h.isDigit_head hs

theorem optionalFraction_append {fraction : List Char}
    (hfraction : ∀ c ∈ fraction, c.isDigit = true) {power : Option ℤ}
    {text : List Char} (h : WritesPower power text) (hs : EndsNumber s) :
    ∃ h, optionalFraction ended (fractionText fraction ++ (text ++ s))
      = .ok ⟨(fraction, text ++ s), h⟩ := by
  cases fraction with
  | cons d ds =>
    obtain ⟨hlt, hdigits⟩ := someDigits_append ended
      (List.cons_ne_nil d ds) hfraction (h.isDigit_head hs)
    refine ⟨Nat.le_succ_of_le (Nat.le_of_lt hlt), ?_⟩
    show (someDigits ended (d :: ds ++ (text ++ s))).map _ = _
    rw [hdigits]
    rfl
  | nil =>
    refine ⟨Nat.le_refl _, ?_⟩
    show optionalFraction ended (text ++ s) = _
    rw [optionalFraction]
    · rfl
    · -- a point would be the beginning of a fraction
      intro u hu
      cases h with
      | absent => exact absurd rfl (hs '.' (by rw [show s = _ from hu]; rfl)).2.1
      | present ht hne =>
        cases ht with
        | absent => exact hne rfl
        | present hc =>
          obtain rfl := (List.cons.inj hu).1
          rcases hc with hc | hc <;> cases hc

/-- **A sign in front of digits is taken off**, whether it is written or
not. -/
theorem takePowerSign_append {sign : List Char} {negative : Bool}
    (hsign : Numeral.Sign sign negative)
    (ht : ∀ c ∈ t.head?, c ≠ '-' ∧ c ≠ '+') :
    ∃ h, takePowerSign (sign ++ t) = ⟨(negative, t), h⟩ := by
  cases hsign with
  | plus | minus => exact ⟨Nat.le_succ _, rfl⟩
  | absent =>
    refine ⟨Nat.le_refl _, ?_⟩
    show takePowerSign t = _
    unfold takePowerSign
    split
    · exact absurd rfl (ht '-' rfl).1
    · exact absurd rfl (ht '+' rfl).2
    · rfl

theorem powerDigits_append {sign digits : List Char} {negative : Bool}
    (hsign : Numeral.Sign sign negative) (hdigits : Numeral.IsDigits digits)
    (hs : EndsNumber s) :
    ∃ h, powerDigits ended (sign ++ (digits ++ s))
      = .ok ⟨(if negative then -(ofDigits 10 digits : ℤ)
        else ofDigits 10 digits, s), h⟩ := by
  have hhead : ∀ c ∈ (digits ++ s).head?, c ≠ '-' ∧ c ≠ '+' := fun c hc => by
    obtain ⟨d, ds, rfl⟩ := List.exists_cons_of_ne_nil hdigits.ne_nil
    cases hc
    exact Numeral.ne_sign_of_isDigit (hdigits.isDigit _ (List.mem_cons_self ..))
  obtain ⟨hle, hsigned⟩ := takePowerSign_append hsign hhead
  obtain ⟨hlt, hfound⟩ := someDigits_append ended hdigits.ne_nil
    hdigits.isDigit fun c hc => (hs c hc).1
  refine ⟨Nat.le_trans (Nat.le_of_lt hlt) hle, ?_⟩
  unfold powerDigits
  rw [hsigned]
  dsimp only
  rw [hfound]
  rfl

theorem optionalPower_append {power : Option ℤ} {text : List Char}
    (h : WritesPower power text) (hs : EndsNumber s) :
    ∃ h, optionalPower ended (text ++ s) = .ok ⟨(power, s), h⟩ := by
  cases h with
  | absent =>
    refine ⟨Nat.le_refl _, ?_⟩
    show optionalPower ended s = _
    cases s with
    | nil => rfl
    | cons c s =>
      obtain ⟨-, -, he, hE⟩ := hs c rfl
      exact if_neg (not_or.mpr ⟨he, hE⟩)
  | present ht hne =>
    cases ht with
    | absent => exact absurd rfl hne
    | present hc hsign hdigits =>
      obtain ⟨hle, hfound⟩ := powerDigits_append ended hsign hdigits hs
      rw [List.cons_append, List.append_assoc]
      refine ⟨Nat.le_succ_of_le hle, ?_⟩
      unfold optionalPower
      dsimp only
      rw [if_pos hc, hfound]
      rfl

/-- **A number is taken apart into the parts that it was put together
from.** -/
theorem numberText_writesUnsigned {n : NumberText} (h : WritesUnsigned n t)
    (hs : EndsNumber s) : Finds (numberText ended n.negative (t ++ s)) n s := by
  cases h with
  | @mk negative whole fraction text power hwhole hfraction hpower =>
    obtain ⟨_, hoptional⟩ := optionalFraction_append ended hfraction hpower hs
    obtain ⟨_, hpower'⟩ := optionalPower_append ended hpower hs
    unfold numberText
    rw [List.append_assoc, List.append_assoc]
    refine (wholeDigits_append ended hwhole
      (isDigit_head_fractionText fraction hpower hs)).bind fun _ => ?_
    dsimp only
    rw [hoptional, ok_bind]
    dsimp only
    rw [hpower', ok_bind]
    exact .ok _

/-- **A text is that of one number only**, and where it ends is plain. -/
theorem WritesNumber.unique {n n' : NumberText} {u v : List Char}
    (h : WritesNumber n s) (h' : WritesNumber n' t) (hu : EndsNumber u)
    (hv : EndsNumber v) (heq : s ++ u = t ++ v) : n = n' ∧ u = v := by
  obtain ⟨ht⟩ := h
  obtain ⟨ht'⟩ := h'
  rename_i s t
  have hfinds := numberText_writesUnsigned .truncated ht hu
  have hfinds' := numberText_writesUnsigned .truncated ht' hv
  obtain ⟨c, s, rfl, hc⟩ := ht.exists_eq_cons
  obtain ⟨c', t, rfl, hc'⟩ := ht'.exists_eq_cons
  unfold Numeral.signed at heq
  cases hsign : n.negative <;> cases hsign' : n'.negative <;>
    rw [hsign, hsign'] at heq <;> rw [hsign] at hfinds <;>
    rw [hsign'] at hfinds'
  · rw [show c :: s ++ u = c' :: t ++ v from heq] at hfinds
    exact hfinds.unique hfinds'
  · -- a sign stands in front of one and a digit in front of the other
    obtain rfl : c = '-' := (List.cons.inj heq).1
    cases hc
  · obtain rfl : '-' = c' := (List.cons.inj heq).1
    cases hc'
  · rw [show c :: s ++ u = c' :: t ++ v from (List.cons.inj heq).2] at hfinds
    exact hfinds.unique hfinds'

theorem isSpace_of_isDigit {c : Char} (h : c.isDigit = true) :
    isSpace c = false := by
  have hne : ∀ d : Char, d.isDigit = false → (c == d) = false := fun d hd =>
    beq_false_of_ne (Numeral.ne_of_isDigit h hd)
  unfold isSpace
  rw [hne _ rfl, hne _ rfl, hne _ rfl, hne _ rfl]
  rfl

/-- **A number is read from its text**, as what its parts stand for. -/
theorem reads_number {n : NumberText} {value : Number} (h : WritesNumber n t)
    (hvalue : n.number = .ok value) : Reads number t value := by
  intro s hs
  obtain ⟨ht⟩ := h
  rename_i t
  have hunsigned : Finds (unsignedNumber n.negative (t ++ s)) value s := by
    refine (numberText_writesUnsigned .truncated ht hs).bind fun _ => ?_
    dsimp only
    rw [hvalue, ok_bind]
    exact .ok _
  obtain ⟨c, t, rfl, hc⟩ := ht.exists_eq_cons
  unfold Numeral.signed
  cases hsign : n.negative with
  | true =>
    rw [hsign] at hunsigned
    rw [if_pos rfl, List.cons_append]
    refine (next_cons rfl).bind fun _ => ?_
    rw [if_pos rfl]
    exact hunsigned.map fun _ => ⟨rfl, rfl⟩
  | false =>
    rw [hsign, List.cons_append] at hunsigned
    rw [if_neg Bool.false_ne_true, List.cons_append]
    refine (next_cons (isSpace_of_isDigit hc)).bind fun _ => ?_
    dsimp only
    rw [if_neg (Numeral.ne_of_isDigit hc rfl), if_pos hc]
    exact hunsigned.map fun _ => ⟨rfl, rfl⟩

/-! ## Integers -/

theorem writesNumber_intText (z : ℤ) : WritesNumber (intParts z) (intText z) := by
  have hunsigned : WritesUnsigned (intParts z) (decimalDigits z.natAbs) := by
    have h : WritesUnsigned (intParts z)
        (decimalDigits z.natAbs ++ (fractionText [] ++ [])) :=
      .mk (isWhole_decimalDigits z.natAbs) (fun _ h => by cases h) .absent
    rwa [fractionText, List.nil_append, List.append_nil] at h
  have htext : intText z
      = Numeral.signed (intParts z).negative (decimalDigits z.natAbs) := by
    unfold intText Numeral.signed intParts
    dsimp only
    simp only [decide_eq_true_eq]
  rw [htext]
  exact .mk hunsigned

theorem intParts_injective {n m : ℤ} (h : intParts n = intParts m) : n = m := by
  have hsign := congrArg NumberText.negative h
  have hdigits := congrArg (fun t => ofDigits 10 t.whole) h
  simp only [intParts, ofDigits_decimalDigits, decide_eq_decide]
    at hsign hdigits
  omega

/-- **An integer does not show that it is real.** -/
theorem not_isReal_intParts (z : ℤ) : ¬(intParts z).IsReal := by
  rintro (h | h) <;> exact h rfl

/-! ## Decimals -/

/-- **The parts of a decimal**: positional, with a fraction in any case, or
scientific. -/
def decimalParts (negative : Bool) (d : Decimal) : NumberText :=
  if -4 ≤ d.ceiling ∧ d.ceiling ≤ 16 then
    ⟨negative, d.wholePart,
      if 0 ≤ d.exponent then ['0'] else d.fractionPart, none⟩
  else
    ⟨negative, (decimalDigits d.digits).take 1,
      (decimalDigits d.digits).drop 1, some (d.ceiling - 1)⟩

theorem fractionPart_ne_nil {d : Decimal} (h : d.exponent < 0) :
    d.fractionPart ≠ [] := by
  intro hnil
  have hlength := (Decimal.parts_of_neg h).1
  rw [hnil, List.length_nil] at hlength
  omega

/-- Positional notation with a fraction, by its parts. -/
theorem positionalWithFraction_eq (d : Decimal) :
    d.positionalWithFraction = d.wholePart ++ (fractionText
      (if 0 ≤ d.exponent then ['0'] else d.fractionPart) ++ []) := by
  unfold Decimal.positionalWithFraction
  rcases le_or_gt 0 d.exponent with h | h
  · rw [(Decimal.parts_of_nonneg h).1, if_pos h]
    rfl
  · rw [if_neg (not_le.mpr h), List.append_nil]
    obtain ⟨c, cs, hcons⟩ :=
      List.exists_cons_of_ne_nil (fractionPart_ne_nil h)
    rw [hcons]
    rfl

/-- A power of ten with its sign. -/
theorem writesPower_some (e : ℤ) :
    WritesPower (some e)
      ('e' :: (if e < 0 then '-' else '+') :: decimalDigits e.natAbs) := by
  have hdigits : Numeral.IsDigits (decimalDigits e.natAbs) :=
    ⟨Nat.toDigits_ne_nil, fun c => isDigit_of_mem_decimalDigits⟩
  have hvalue : (ofDigits 10 (decimalDigits e.natAbs) : ℤ) = e.natAbs := by
    rw [ofDigits_decimalDigits]
  refine .present ?_ (List.cons_ne_nil _ _)
  by_cases he : e < 0
  · have h := Numeral.Power.present (.inl rfl) .minus hdigits
    rw [hvalue, if_pos rfl, show -(e.natAbs : ℤ) = e by omega] at h
    rwa [if_pos he]
  · have h := Numeral.Power.present (.inl rfl) .plus hdigits
    rw [hvalue, if_neg Bool.false_ne_true, show (e.natAbs : ℤ) = e by omega] at h
    rwa [if_neg he]

/-- Scientific notation, by its parts. -/
theorem scientific_eq (d : Decimal) :
    d.scientific = (decimalDigits d.digits).take 1 ++ (fractionText
      ((decimalDigits d.digits).drop 1)
        ++ 'e' :: (if d.ceiling - 1 < 0 then '-' else '+')
          :: decimalDigits (d.ceiling - 1).natAbs) := by
  obtain ⟨c, cs, hcons⟩ := List.exists_cons_of_ne_nil
    (show decimalDigits d.digits ≠ [] from Nat.toDigits_ne_nil)
  unfold Decimal.scientific
  dsimp only
  rw [hcons]
  cases cs <;> rfl

@[simp] theorem negative_decimalParts (negative : Bool) (d : Decimal) :
    (decimalParts negative d).negative = negative := by
  unfold decimalParts
  split <;> rfl

/-- **The decimal that is written is the one that was given**, with a zero
behind the point if it is whole. -/
theorem decimal_decimalParts (negative : Bool) (d : Decimal) :
    (decimalParts negative d).decimal
      = if d.ceiling ≤ 16 ∧ 0 ≤ d.exponent
        then ⟨d.digits * 10 ^ (d.exponent.toNat + 1), -1⟩ else d := by
  have hceiling : d.ceiling = digitCount d.digits + d.exponent := rfl
  have hcount := digitCount_pos d.digits
  have hlength : (decimalDigits d.digits).length = digitCount d.digits := rfl
  unfold decimalParts NumberText.decimal
  split
  · next hrange =>
    rcases le_or_gt 0 d.exponent with h | h
    · have hzero : ofDigits 10 ['0'] = 0 := rfl
      dsimp only
      rw [if_pos h, if_pos ⟨hrange.2, h⟩, ofDigits_append,
        (Decimal.parts_of_nonneg h).2, hzero, add_zero, mul_assoc, ← pow_add]
      rfl
    · obtain ⟨hlength, hvalue⟩ := Decimal.parts_of_neg h
      dsimp only
      rw [if_neg (not_le.mpr h), hvalue, hlength,
        if_neg fun hle => not_le.mpr h hle.2]
      show (⟨d.digits, 0 - -d.exponent⟩ : Decimal) = d
      rw [zero_sub, neg_neg]
  · next hrange =>
    rw [if_neg fun hle => hrange ⟨by omega, hle.1⟩]
    dsimp only
    rw [List.take_append_drop, ofDigits_decimalDigits, List.length_drop,
      hlength, Option.getD_some]
    have hexp : d.ceiling - 1 - ((digitCount d.digits - 1 : ℕ) : ℤ)
        = d.exponent := by omega
    rw [hexp]

/-- **A decimal is written with its parts.** -/
theorem writesUnsigned_decimalParts (negative : Bool) {d : Decimal}
    (h : d.digits = 0 → d.exponent = 0) :
    WritesUnsigned (decimalParts negative d)
      (if -4 ≤ d.ceiling ∧ d.ceiling ≤ 16 then d.positionalWithFraction
        else d.scientific) := by
  unfold decimalParts
  split
  · rw [positionalWithFraction_eq]
    refine .mk (Decimal.isWhole_wholePart h) (fun c hc => ?_) .absent
    split at hc
    · rw [List.mem_singleton.mp hc]
      rfl
    · exact Decimal.isDigit_of_mem_fractionPart hc
  · rw [scientific_eq]
    exact .mk (isWhole_take_one _)
      (fun c hc => isDigit_of_mem_decimalDigits (List.mem_of_mem_drop hc))
      (writesPower_some _)

/-- The added zero changes no value. -/
theorem toRat_decimalParts (negative : Bool) (d : Decimal) :
    (decimalParts negative d).decimal.toRat = d.toRat := by
  rw [decimal_decimalParts]
  split
  · next h =>
    rw [Decimal.toRat_mul_pow]
    have hexp : -1 + ((d.exponent.toNat + 1 : ℕ) : ℤ) = d.exponent := by omega
    rw [hexp]
  · rfl

/-! ## Real numbers -/

/-- **The parts of a real number** that is finite. -/
def realParts (x : Binary64) : NumberText :=
  decimalParts x.negative (.shortest .even x)

/-- **A finite number is written with its parts.** -/
theorem writesNumber_realText {x : Binary64} (hfin : x.isFinite = true) :
    WritesNumber (realParts x) (realText x) := by
  have hzero : (Decimal.shortest .even x).digits = 0 →
      (Decimal.shortest .even x).exponent = 0 :=
    Decimal.exponent_shortest_of_digits hfin
  have h := WritesNumber.mk (writesUnsigned_decimalParts x.negative hzero)
  rw [negative_decimalParts] at h
  unfold realText
  rw [if_pos hfin]
  exact h

/-- **The decimal that is written rounds to the number**, with either sign. -/
theorem toBinary64_realParts (s : Bool) {x : Binary64}
    (hfin : x.isFinite = true) :
    (realParts x).decimal.toBinary64 s = .ofMagnitude s x.magnitude := by
  rw [← Decimal.toBinary64_shortest .even s hfin]
  exact Decimal.toBinary64_congr (toRat_decimalParts _ _) s

/-- **A real number shows that it is one.** -/
theorem isReal_realParts (x : Binary64) : (realParts x).IsReal := by
  unfold realParts decimalParts
  split
  · refine .inl ?_
    dsimp only
    split
    · exact List.cons_ne_nil _ _
    · next h => exact fractionPart_ne_nil (not_le.mp h)
  · exact .inr (Option.some_ne_none _)

end RegisterMachine.Json
