import Mathlib.Order.WithBot
import RegisterMachine.Proofs.Decimal.Text

/-!
# The grammar of numerals

The reader of numerals takes a text apart from the front. The grammar says
instead how a numeral is put together, and what it is worth while it is put
together: `Numeral.Spells` relates a text to a sign and an exact value, which
is infinite for the word `Infinity` alone. Nothing is rounded in it.

The two agree. What the reader accepts the grammar derives, with the sign and
the value that the reader keeps (`Numeral.spells_of_parse?`), and whatever the
grammar derives the reader accepts (`Numeral.Spells.exists_parse?`).
`Numeral.accepted_iff_spelled` says so of the double that comes out of it,
which is a number in every case.
-/

namespace RegisterMachine.Numeral

-- what is said of the characters of a text is tested on that text, and not on
-- every character there is
attribute [local instance (high)] List.decidableBAll List.decidableBEx

/-! ## The grammar -/

/-- **A sign as it is written**, and whether it is a minus. -/
inductive Sign : List Char → Bool → Prop where
  | absent : Sign [] false
  | plus : Sign ['+'] false
  | minus : Sign ['-'] true

/-- **A radix mark**: the letter behind the zero, the radix that it announces,
and the digits of that radix. -/
inductive RadixMark : Char → ℕ → List Char → Prop where
  | hexadecimal {c : Char} (h : c = 'x' ∨ c = 'X') :
      RadixMark c 16 "0123456789abcdefABCDEF".toList
  | octal {c : Char} (h : c = 'o' ∨ c = 'O') :
      RadixMark c 8 "01234567".toList
  | binary {c : Char} (h : c = 'b' ∨ c = 'B') :
      RadixMark c 2 "01".toList

/-- Decimal digits, at least one. -/
structure IsDigits (s : List Char) : Prop where
  ne_nil : s ≠ []
  isDigit : ∀ c ∈ s, c.isDigit = true

/-- **A decimal without its power of ten**: digits, digits and a point with
digits behind it or none, or a point and digits. -/
inductive Mantissa : List Char → ℚ → Prop where
  | whole {s : List Char} (hs : IsDigits s) : Mantissa s (ofDigits 10 s)
  | point {s t : List Char} (hs : IsDigits s)
      (ht : ∀ c ∈ t, c.isDigit = true) :
      Mantissa (s ++ '.' :: t)
        (ofDigits 10 s + ofDigits 10 t / 10 ^ t.length)
  | fraction {t : List Char} (ht : IsDigits t) :
      Mantissa ('.' :: t) (ofDigits 10 t / 10 ^ t.length)

/-- **A power of ten**: nothing, or an `e` in either case, a sign and
digits. -/
inductive Power : List Char → ℤ → Prop where
  | absent : Power [] 0
  | present {c : Char} {sign digits : List Char} {negative : Bool}
      (hc : c = 'e' ∨ c = 'E') (hsign : Sign sign negative)
      (hdigits : IsDigits digits) :
      Power (c :: (sign ++ digits))
        (if negative then -(ofDigits 10 digits : ℤ) else ofDigits 10 digits)

/-- **A numeral, its sign and its exact value**, without the sign: a radix
form below `2 ^ 64`, the word for infinity, or a decimal. -/
inductive Spells : List Char → Bool → WithTop ℚ → Prop where
  | radix {c : Char} {base : ℕ} {all digits : List Char}
      (hmark : RadixMark c base all) (hne : digits ≠ [])
      (hdigits : ∀ d ∈ digits, d ∈ all) (hlt : ofDigits base digits < 2 ^ 64) :
      Spells ('0' :: c :: digits) false ((ofDigits base digits : ℚ) : WithTop ℚ)
  | infinity {sign : List Char} {negative : Bool}
      (hsign : Sign sign negative) :
      Spells (sign ++ "Infinity".toList) negative ⊤
  | decimal {sign mantissa power : List Char} {negative : Bool} {v : ℚ}
      {e : ℤ} (hsign : Sign sign negative) (hmantissa : Mantissa mantissa v)
      (hpower : Power power e) :
      Spells (sign ++ (mantissa ++ power)) negative
        ((v * 10 ^ e : ℚ) : WithTop ℚ)

/-- The sign that a numeral was read with. -/
def negative : Numeral → Bool
  | .radix _ => false
  | .infinity negative => negative
  | .decimal negative _ => negative

/-- **The exact value that a numeral was read with**, without the sign. -/
def exactValue : Numeral → WithTop ℚ
  | .radix n => ((n : ℚ) : WithTop ℚ)
  | .infinity _ => ⊤
  | .decimal _ d => (d.toRat : WithTop ℚ)

variable {s t : List Char}

/-! ## Marks, signs and powers -/

/-- **A digit of any radix up to sixteen** is one of twenty-two characters. -/
theorem mem_of_digitValue_lt {c : Char} (h : digitValue c < 16) :
    c ∈ "0123456789abcdefABCDEF".toList := by
  have hcodes : "0123456789abcdefABCDEF".toList.map Char.toNat
      = List.range' 48 10 ++ (List.range' 97 6 ++ List.range' 65 6) := by
    decide
  have hrange : c.toNat ∈ "0123456789abcdefABCDEF".toList.map Char.toNat := by
    rw [hcodes, List.mem_append, List.mem_append, List.mem_range'_1,
      List.mem_range'_1, List.mem_range'_1]
    unfold digitValue at h
    simp only [Char.le_def, UInt32.le_iff_toNat_le] at h
    change (if 48 ≤ c.toNat ∧ c.toNat ≤ 57 then _ else
      if 97 ≤ c.toNat ∧ c.toNat ≤ 102 then _ else
      if 65 ≤ c.toNat ∧ c.toNat ≤ 70 then _ else _) < 16 at h
    split at h
    · omega
    · split at h
      · omega
      · split at h <;> omega
  obtain ⟨d, hd, heq⟩ := List.mem_map.mp hrange
  rwa [← Char.toNat_inj.mp heq]

/-- **The digits of a radix** are those below it. -/
theorem RadixMark.isDigitOf_iff {c d : Char} {base : ℕ} {all : List Char}
    (h : RadixMark c base all) : isDigitOf base d = true ↔ d ∈ all := by
  have hbase : base ≤ 16 ∧ ∀ d ∈ all, d ∈ "0123456789abcdefABCDEF".toList := by
    cases h with
    | hexadecimal | octal | binary => decide
  have hlisted : ∀ d ∈ "0123456789abcdefABCDEF".toList,
      digitValue d < base ↔ d ∈ all := by
    cases h with
    | hexadecimal | octal | binary => decide
  unfold isDigitOf
  rw [decide_eq_true_iff]
  constructor
  · intro hlt
    exact (hlisted d (mem_of_digitValue_lt (hlt.trans_le hbase.1))).mp hlt
  · intro hd
    exact (hlisted d (hbase.2 d hd)).mpr hd

theorem radixOf?_eq_some_iff {c : Char} {base : ℕ} :
    radixOf? c = some base ↔ ∃ all, RadixMark c base all := by
  constructor
  · intro h
    unfold radixOf? at h
    split at h
    · cases h; exact ⟨_, .hexadecimal (.inl rfl)⟩
    · cases h; exact ⟨_, .hexadecimal (.inr rfl)⟩
    · cases h; exact ⟨_, .octal (.inl rfl)⟩
    · cases h; exact ⟨_, .octal (.inr rfl)⟩
    · cases h; exact ⟨_, .binary (.inl rfl)⟩
    · cases h; exact ⟨_, .binary (.inr rfl)⟩
    · cases h
  · rintro ⟨all, h⟩
    cases h with
    | hexadecimal h | octal h | binary h => rcases h with rfl | rfl <;> rfl

/-- **Taking a sign off** undoes putting one in front. -/
theorem exists_sign_append (s : List Char) :
    ∃ sign negative unsigned, Sign sign negative ∧ s = sign ++ unsigned
      ∧ takeSign s = (negative, unsigned) := by
  unfold takeSign
  split
  · exact ⟨_, _, _, .minus, rfl, rfl⟩
  · exact ⟨_, _, _, .plus, rfl, rfl⟩
  · exact ⟨_, _, _, .absent, rfl, rfl⟩

theorem takeSign_append {sign : List Char} {negative : Bool}
    (h : Sign sign negative) (hs : ∀ c ∈ s.head?, c ≠ '-' ∧ c ≠ '+') :
    takeSign (sign ++ s) = (negative, s) := by
  cases h with
  | plus | minus => rfl
  | absent =>
    cases s with
    | nil => rfl
    | cons c s => exact takeSign_cons (hs c rfl).1 (hs c rfl).2 s

/-- A digit is no sign. -/
theorem ne_sign_of_isDigit {c : Char} (h : c.isDigit = true) :
    c ≠ '-' ∧ c ≠ '+' := ⟨ne_of_isDigit h rfl, ne_of_isDigit h rfl⟩

/-- **A power of ten is read as the grammar says.** -/
theorem parsePower?_eq_some_iff {e : ℤ} :
    parsePower? s = some e ↔ Power s e := by
  constructor
  · intro h
    cases s with
    | nil =>
      cases h
      exact .absent
    | cons c s =>
      obtain ⟨sign, negative, digits, hsign, rfl, htake⟩ := exists_sign_append s
      unfold parsePower? at h
      simp only [htake] at h
      split at h
      · next hpower =>
        obtain ⟨hc, hne, hall⟩ := hpower
        cases h
        exact .present hc hsign ⟨hne, List.all_eq_true.mp hall⟩
      · cases h
  · intro h
    cases h with
    | absent => rfl
    | present hc hsign hdigits =>
      have htake := takeSign_append hsign fun c hc =>
        ne_sign_of_isDigit (hdigits.isDigit c (List.mem_of_mem_head? hc))
      unfold parsePower?
      simp only [htake]
      rw [if_pos ⟨hc, hdigits.ne_nil, List.all_eq_true.mpr hdigits.isDigit⟩]

/-- A power of ten does not go on with a digit or a point. -/
theorem Power.head {e : ℤ} (h : Power s e) :
    ∀ c ∈ s.head?, c = 'e' ∨ c = 'E' := by
  cases h with
  | absent => exact fun c hc => by cases hc
  | present hc => exact fun d hd => by cases hd; exact hc

/-! ## Decimals -/

/-- The digits around a point, shifted, are the digits in a row. -/
theorem toRat_append (s t : List Char) (e : ℤ) :
    Decimal.toRat ⟨ofDigits 10 (s ++ t), e - t.length⟩
      = (ofDigits 10 s + ofDigits 10 t / 10 ^ t.length) * 10 ^ e := by
  unfold Decimal.toRat
  rw [ofDigits_append, zpow_sub₀ (by norm_num), zpow_natCast]
  push_cast
  field_simp

/-- A fraction stands behind a point, or there is none. -/
theorem takeFraction_cases (s : List Char) :
    (∃ t, s = '.' :: t ∧ takeFraction s
        = (t.takeWhile Char.isDigit, t.dropWhile Char.isDigit))
      ∨ takeFraction s = ([], s) := by
  unfold takeFraction
  split
  · exact .inl ⟨_, rfl, rfl⟩
  · exact .inr rfl

/-- **Digits are taken off** as far as they go. -/
theorem exists_digits_append (s : List Char) :
    ∃ digits rest, s = digits ++ rest ∧ (∀ c ∈ digits, c.isDigit = true)
      ∧ s.takeWhile Char.isDigit = digits ∧ s.dropWhile Char.isDigit = rest :=
  ⟨_, _, List.takeWhile_append_dropWhile.symm,
    fun _ => List.mem_takeWhile_imp, rfl, rfl⟩

/-- **What the reader takes for a decimal is one**, and it keeps the value. -/
theorem exists_mantissa_power {d : Decimal} (h : parseDecimal? s = some d) :
    ∃ mantissa power v e, s = mantissa ++ power ∧ Mantissa mantissa v
      ∧ Power power e ∧ d.toRat = v * 10 ^ e := by
  obtain ⟨whole, rest, rfl, hwhole, htake, hdrop⟩ := exists_digits_append s
  unfold parseDecimal? at h
  rw [htake, hdrop] at h
  rcases takeFraction_cases rest with ⟨t, rfl, hfraction⟩ | hfraction
  · obtain ⟨fraction, power, rfl, hdigits, htake', hdrop'⟩ :=
      exists_digits_append t
    simp only [hfraction, htake', hdrop'] at h
    split at h
    · cases h
    · next hne =>
      obtain ⟨e, he, rfl⟩ := Option.map_eq_some_iff.mp h
      have hpower := parsePower?_eq_some_iff.mp he
      by_cases hnil : whole = []
      · have hfraction : IsDigits fraction :=
          ⟨fun hf => hne ⟨hnil, hf⟩, hdigits⟩
        refine ⟨'.' :: fraction, power, _, e, by rw [hnil]; rfl,
          .fraction hfraction, hpower, ?_⟩
        rw [hnil, toRat_append, ofDigits_nil, Nat.cast_zero, zero_add]
      · refine ⟨whole ++ '.' :: fraction, power, _, e, ?_,
          .point ⟨hnil, hwhole⟩ hdigits, hpower, toRat_append _ _ _⟩
        rw [List.append_assoc]
        rfl
  · simp only [hfraction] at h
    split at h
    · cases h
    · next hne =>
      obtain ⟨e, he, rfl⟩ := Option.map_eq_some_iff.mp h
      have hnil : whole ≠ [] := fun hnil => hne ⟨hnil, trivial⟩
      refine ⟨whole, rest, _, e, rfl, .whole ⟨hnil, hwhole⟩,
        parsePower?_eq_some_iff.mp he, ?_⟩
      rw [toRat_append, ofDigits_nil]
      simp

/-- **Every decimal of the grammar is read**, and its value kept. -/
theorem parseDecimal?_append {mantissa power : List Char} {v : ℚ} {e : ℤ}
    (hmantissa : Mantissa mantissa v) (hpower : Power power e) :
    ∃ d, parseDecimal? (mantissa ++ power) = some d
      ∧ d.toRat = v * 10 ^ e := by
  have he := parsePower?_eq_some_iff.mpr hpower
  have hhead : ∀ c ∈ power.head?, c.isDigit = false ∧ c ≠ '.' := by
    intro c hc
    rcases hpower.head c hc with rfl | rfl <;> exact ⟨rfl, by decide⟩
  cases hmantissa with
  | whole hs =>
    exact ⟨_, parseDecimal?_whole hs.ne_nil hs.isDigit hhead he, rfl⟩
  | @point s t hs ht =>
    refine ⟨_, ?_, toRat_append s t e⟩
    rw [List.append_assoc]
    exact parseDecimal?_fraction (.inl hs.ne_nil) hs.isDigit ht
      (fun c hc => (hhead c hc).1) he
  | @fraction t ht =>
    refine ⟨_, parseDecimal?_fraction (s := []) (.inr ht.ne_nil)
      (fun c hc => by cases hc) ht.isDigit (fun c hc => (hhead c hc).1) he, ?_⟩
    rw [toRat_append, ofDigits_nil, Nat.cast_zero, zero_add]

/-! ## Numerals -/

/-- **A mantissa holds digits and points**, and it is not empty. -/
theorem Mantissa.digit_or_point {v : ℚ} (h : Mantissa s v) :
    s ≠ [] ∧ ∀ c ∈ s, c.isDigit = true ∨ c = '.' := by
  cases h with
  | whole hs => exact ⟨hs.ne_nil, fun c hc => .inl (hs.isDigit c hc)⟩
  | point hs ht => exact ⟨List.append_ne_nil_of_left_ne_nil hs.ne_nil _,
      (isPlain_point hs.ne_nil hs.isDigit ht).digit_or_point⟩
  | fraction ht =>
    refine ⟨List.cons_ne_nil _ _, List.forall_mem_cons.mpr ⟨.inr rfl, ?_⟩⟩
    exact fun c hc => .inl (ht.isDigit c hc)

/-- **A decimal of the grammar is taken for no other form.** -/
theorem parse?_decimal {sign mantissa power : List Char} {negative : Bool}
    {v : ℚ} {e : ℤ} (hsign : Sign sign negative)
    (hmantissa : Mantissa mantissa v) (hpower : Power power e) :
    parse? (sign ++ (mantissa ++ power))
      = (parseDecimal? (mantissa ++ power)).map (.decimal negative) := by
  obtain ⟨hne, hall⟩ := hmantissa.digit_or_point
  obtain ⟨c, u, rfl⟩ := List.exists_cons_of_ne_nil hne
  obtain ⟨hc, hu⟩ := List.forall_mem_cons.mp hall
  have hother : ∀ d : Char, d.isDigit = false → d ≠ '.' → c ≠ d := by
    rintro d hdigit hpoint rfl
    rcases hc with hc | hc
    · exact absurd (hdigit.symm.trans hc) Bool.false_ne_true
    · exact hpoint hc
  have htake := takeSign_append (s := c :: u ++ power) hsign fun d hd => by
    cases hd
    exact ⟨hother '-' rfl (by decide), hother '+' rfl (by decide)⟩
  have hparse : parse? (sign ++ (c :: u ++ power))
      = parseSigned? (sign ++ (c :: u ++ power)) := by
    refine parse?_eq_parseSigned? fun d digits heq => ?_
    cases hsign with
    | plus | minus => cases heq
    | absent =>
      -- behind the first digit stands another, a point or a power of ten
      have htail : u ++ power = d :: digits := (List.cons.inj heq).2
      cases u with
      | cons d' u =>
        obtain rfl : d' = d := (List.cons.inj htail).1
        exact radixOf?_eq_none (hu d' (List.mem_cons_self ..))
      | nil =>
        rw [List.nil_append] at htail
        rcases hpower.head d (htail ▸ rfl) with rfl | rfl <;> rfl
  have hinfinity : c :: u ++ power ≠ "Infinity".toList := fun heq =>
    hother 'I' rfl (by decide) (List.cons.inj heq).1
  rw [hparse, parseSigned?, htake]
  dsimp only
  rw [if_neg hinfinity]

/-- **What the reader accepts the grammar derives**, with the sign and the
value that were read. -/
theorem spells_of_parse? {n : Numeral} (h : parse? s = some n) :
    Spells s n.negative n.exactValue := by
  have hsigned : ∀ s, parseSigned? s = some n →
      Spells s n.negative n.exactValue := by
    intro s h
    obtain ⟨sign, negative, unsigned, hsign, rfl, htake⟩ := exists_sign_append s
    unfold parseSigned? at h
    simp only [htake] at h
    split at h
    · next hinfinity =>
      cases h
      rw [hinfinity]
      exact .infinity hsign
    · obtain ⟨d, hd, rfl⟩ := Option.map_eq_some_iff.mp h
      obtain ⟨mantissa, power, v, e, rfl, hmantissa, hpower, hvalue⟩ :=
        exists_mantissa_power hd
      show Spells _ negative ((d.toRat : ℚ) : WithTop ℚ)
      rw [hvalue]
      exact .decimal hsign hmantissa hpower
  unfold parse? at h
  split at h
  · next c digits =>
    split at h
    · next base hbase =>
      obtain ⟨all, hmark⟩ := radixOf?_eq_some_iff.mp hbase
      unfold parseRadix? at h
      split at h
      · next hdigits =>
        obtain ⟨hne, hall, hlt⟩ := hdigits
        cases h
        exact .radix hmark hne (fun d hd =>
          hmark.isDigitOf_iff.mp (List.all_eq_true.mp hall d hd)) hlt
      · cases h
    · exact hsigned _ h
  · exact hsigned _ h

/-- **Whatever the grammar derives the reader accepts**, and keeps its sign
and its value. -/
theorem Spells.exists_parse? {negative : Bool} {v : WithTop ℚ}
    (h : Spells s negative v) :
    ∃ n, parse? s = some n ∧ n.negative = negative ∧ n.exactValue = v := by
  cases h with
  | @radix c base all digits hmark hne hdigits hlt =>
    refine ⟨.radix (ofDigits base digits), ?_, rfl, rfl⟩
    have hall : digits.all (isDigitOf base) = true :=
      List.all_eq_true.mpr fun d hd => hmark.isDigitOf_iff.mpr (hdigits d hd)
    unfold parse?
    simp only [radixOf?_eq_some_iff.mpr ⟨all, hmark⟩]
    unfold parseRadix?
    rw [if_pos ⟨hne, hall, hlt⟩]
  | infinity hsign =>
    refine ⟨.infinity negative, ?_, rfl, rfl⟩
    cases hsign <;> decide
  | @decimal sign mantissa power negative v e hsign hmantissa hpower =>
    obtain ⟨d, hd, hvalue⟩ := parseDecimal?_append hmantissa hpower
    refine ⟨.decimal negative d, ?_, rfl, by rw [exactValue, hvalue]⟩
    rw [parse?_decimal hsign hmantissa hpower, hd]
    rfl

/-! ## What is refused -/

/-- What begins with neither a digit nor a point is no decimal. -/
theorem parseDecimal?_eq_none {c : Char} (hdigit : c.isDigit = false)
    (hpoint : c ≠ '.') (t : List Char) : parseDecimal? (c :: t) = none := by
  have hc : ¬c.isDigit = true := Bool.eq_false_iff.mp hdigit
  have hfraction : takeFraction (c :: t) = ([], c :: t) :=
    (takeFraction_cases (c :: t)).resolve_left fun ⟨_, heq, _⟩ =>
      hpoint (List.cons.inj heq).1
  unfold parseDecimal?
  rw [List.takeWhile_cons_of_neg hc, List.dropWhile_cons_of_neg hc, hfraction]
  exact if_pos ⟨rfl, rfl⟩

/-- A letter is no digit, no point and no sign. -/
theorem ne_of_isAlpha {c d : Char} (hc : c.isAlpha = true)
    (hd : d.isAlpha = false) : c ≠ d := by
  rintro rfl
  exact absurd (hd.symm.trans hc) Bool.false_ne_true

theorem isDigit_of_isAlpha {c : Char} (h : c.isAlpha = true) :
    c.isDigit = false := by
  have hrange : 65 ≤ c.toNat := by
    change (c.isUpper || c.isLower) = true at h
    rcases Bool.or_eq_true_iff.mp h with h | h
    · exact UInt32.le_iff_toNat_le.mp (of_decide_eq_true h).1
    · have hlo := of_decide_eq_true (Bool.and_eq_true_iff.mp h).1
      exact le_trans (by decide : 65 ≤ 'a'.toNat)
        (UInt32.le_iff_toNat_le.mp hlo)
  rw [Bool.eq_false_iff, ne_eq, Char.isDigit_iff_toNat]
  exact fun hdigit => absurd (hrange.trans hdigit.2) (by decide)

/-- **A word is no numeral**, whatever its sign, unless it is `Infinity`. -/
theorem parse?_word {sign : List Char} {negative : Bool} {c : Char}
    (hsign : Sign sign negative) (hc : c.isAlpha = true)
    (hne : c :: t ≠ "Infinity".toList) : parse? (sign ++ c :: t) = none := by
  have htake := takeSign_append (s := c :: t) hsign fun d hd => by
    cases hd
    exact ⟨ne_of_isAlpha hc rfl, ne_of_isAlpha hc rfl⟩
  have hparse : parse? (sign ++ c :: t) = parseSigned? (sign ++ c :: t) := by
    refine parse?_eq_parseSigned? fun d digits heq => ?_
    cases hsign with
    | plus | minus => cases heq
    | absent => exact absurd (List.cons.inj heq).1 (ne_of_isAlpha hc rfl)
  rw [hparse, parseSigned?, htake]
  dsimp only
  rw [if_neg hne, parseDecimal?_eq_none (isDigit_of_isAlpha hc)
    (ne_of_isAlpha hc rfl)]
  rfl

/-- **No sign stands in front of a radix mark.** -/
theorem parse?_sign_radix {sign all : List Char} {negative : Bool} {c : Char}
    {base : ℕ} (hsign : Sign sign negative) (hne : sign ≠ [])
    (hmark : RadixMark c base all) : parse? (sign ++ '0' :: c :: t) = none := by
  have hdecimal : parseDecimal? ('0' :: c :: t) = none := by
    cases hmark with
    | hexadecimal h | octal h | binary h => rcases h with rfl | rfl <;> rfl
  have hinfinity : '0' :: c :: t ≠ "Infinity".toList := fun heq =>
    absurd (List.cons.inj heq).1 (by decide)
  have hsigned : ∀ negative, (if '0' :: c :: t = "Infinity".toList
      then some (Numeral.infinity negative)
      else (parseDecimal? ('0' :: c :: t)).map (.decimal negative)) = none := by
    intro negative
    rw [hdecimal, if_neg hinfinity]
    rfl
  cases hsign with
  | absent => exact absurd rfl hne
  | plus => exact hsigned false
  | minus => exact hsigned true

/-- **No sign stands behind a radix mark.** -/
theorem parse?_radix_sign {sign all : List Char} {negative : Bool} {c : Char}
    {base : ℕ} (hsign : Sign sign negative) (hne : sign ≠ [])
    (hmark : RadixMark c base all) :
    parse? ('0' :: c :: (sign ++ t)) = none := by
  have hdigit : ∃ d ∈ sign, d ∉ all := by
    cases hsign with
    | absent => exact absurd rfl hne
    | plus | minus => cases hmark <;> decide
  obtain ⟨d, hd, hall⟩ := hdigit
  unfold parse?
  simp only [radixOf?_eq_some_iff.mpr ⟨all, hmark⟩]
  unfold parseRadix?
  rw [if_neg]
  rintro ⟨-, hdigits, -⟩
  exact hall (hmark.isDigitOf_iff.mp
    (List.all_eq_true.mp hdigits d (List.mem_append_left t hd)))

/-! ## ASCII -/

theorem lt_of_isDigit {c : Char} (h : c.isDigit = true) : c.toNat < 128 :=
  lt_of_le_of_lt (Char.isDigit_iff_toNat.mp h).2 (by decide)

theorem Sign.isAscii {negative : Bool} (h : Sign s negative) :
    ∀ c ∈ s, c.toNat < 128 := by
  cases h <;> decide

theorem RadixMark.isAscii {c : Char} {base : ℕ} {all : List Char}
    (h : RadixMark c base all) :
    c.toNat < 128 ∧ ∀ d ∈ all, d.toNat < 128 := by
  cases h with
  | hexadecimal h | octal h | binary h => rcases h with rfl | rfl <;> decide

theorem Mantissa.isAscii {v : ℚ} (h : Mantissa s v) :
    ∀ c ∈ s, c.toNat < 128 := by
  intro c hc
  rcases h.digit_or_point.2 c hc with hdigit | rfl
  · exact lt_of_isDigit hdigit
  · decide

theorem Power.isAscii {e : ℤ} (h : Power s e) : ∀ c ∈ s, c.toNat < 128 := by
  cases h with
  | absent => exact fun c hc => absurd hc List.not_mem_nil
  | present hc hsign hdigits =>
    refine List.forall_mem_cons.mpr ⟨?_, List.forall_mem_append.mpr
      ⟨hsign.isAscii, fun d hd => lt_of_isDigit (hdigits.isDigit d hd)⟩⟩
    rcases hc with rfl | rfl <;> decide

/-- **A numeral is plain ASCII.** -/
theorem Spells.isAscii {negative : Bool} {v : WithTop ℚ}
    (h : Spells s negative v) : ∀ c ∈ s, c.toNat < 128 := by
  cases h with
  | radix hmark hne hdigits hlt =>
    obtain ⟨hletter, hall⟩ := hmark.isAscii
    exact List.forall_mem_cons.mpr ⟨by decide, List.forall_mem_cons.mpr
      ⟨hletter, fun d hd => hall d (hdigits d hd)⟩⟩
  | infinity hsign =>
    exact List.forall_mem_append.mpr ⟨hsign.isAscii, by decide⟩
  | decimal hsign hmantissa hpower =>
    exact List.forall_mem_append.mpr ⟨hsign.isAscii,
      List.forall_mem_append.mpr ⟨hmantissa.isAscii, hpower.isAscii⟩⟩

/-! ## Exactly the grammar -/

/-- **A text is accepted exactly if the grammar derives it**, and the double
is finite or infinite. So no character outside ASCII is accepted anywhere; no
word with a sign or without, but `Infinity`; and no sign in front of a radix
mark or behind it. -/
theorem accepted_iff_spelled (s : List Char) :
    ((∃ x, (parse? s).map value = some x)
        ↔ ∃ negative v, Spells s negative v)
      ∧ (∀ x, (parse? s).map value = some x →
          x.isFinite = true ∨ x.isInfinite = true)
      ∧ ((∃ c ∈ s, 128 ≤ c.toNat) → (parse? s).map value = none)
      ∧ (∀ sign negative c t, Sign sign negative → s = sign ++ c :: t →
          c.isAlpha = true → c :: t ≠ "Infinity".toList →
            (parse? s).map value = none)
      ∧ (∀ sign negative c base all t, Sign sign negative → sign ≠ [] →
          RadixMark c base all →
            s = sign ++ '0' :: c :: t ∨ s = '0' :: c :: (sign ++ t) →
              (parse? s).map value = none) := by
  refine ⟨⟨?_, ?_⟩, ?_, ?_, ?_, ?_⟩
  · rintro ⟨x, hx⟩
    obtain ⟨n, hn, -⟩ := Option.map_eq_some_iff.mp hx
    exact ⟨_, _, spells_of_parse? hn⟩
  · rintro ⟨negative, v, h⟩
    obtain ⟨n, hn, -⟩ := h.exists_parse?
    exact ⟨n.value, by rw [hn, Option.map_some]⟩
  · intro x hx
    obtain ⟨n, -, rfl⟩ := Option.map_eq_some_iff.mp hx
    exact Binary64.isFinite_or_isInfinite n.magnitude_value_le
  · rintro ⟨c, hc, hbig⟩
    rw [Option.map_eq_none_iff, Option.eq_none_iff_forall_ne_some]
    intro n hn
    exact absurd ((spells_of_parse? hn).isAscii c hc) (not_lt.mpr hbig)
  · rintro sign negative c t hsign rfl hc hne
    rw [parse?_word hsign hc hne, Option.map_none]
  · rintro sign negative c base all t hsign hne hmark (rfl | rfl)
    · rw [parse?_sign_radix hsign hne hmark, Option.map_none]
    · rw [parse?_radix_sign hsign hne hmark, Option.map_none]

end RegisterMachine.Numeral
