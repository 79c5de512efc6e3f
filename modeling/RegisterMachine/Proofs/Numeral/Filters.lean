import RegisterMachine.Proofs.Numeral.Grammar

/-!
# Numerals by way of a general reader

Numerals can also be read with a general reader of floating-point numbers,
which takes more than it should: `inf`, `infinity` and `nan` in any case. So a
radix mark is looked for first; then whatever begins with a letter is turned
away, `Infinity` excepted; then the general reader is asked; and in the end
whatever is not a number is turned away (`Numeral.filtered?`).

`Numeral.parse?` knows the three forms of a numeral and no filter. The two read
the same (`Numeral.filtered?_eq_parse?`).
-/

namespace RegisterMachine.Numeral

/-- **What a general reader takes for a floating-point number**, before anything
is rounded. -/
inductive FloatText where
  /-- The word for what is not a number. -/
  | nan
  /-- A word for infinity, with its sign. -/
  | infinity (negative : Bool)
  /-- A decimal, with its sign. -/
  | decimal (negative : Bool) (value : Decimal)
  deriving DecidableEq

/-- **A general reader of floating-point numbers**: an optional sign, then one of
three words in any case, or a decimal. -/
def readFloat? (s : List Char) : Option FloatText :=
  let (negative, unsigned) := takeSign s
  let word := unsigned.map Char.toLower
  if word = "inf".toList ∨ word = "infinity".toList then
    some (.infinity negative)
  else if word = "nan".toList then some .nan
  else (parseDecimal? unsigned).map (.decimal negative)

/-- The numeral that was taken, unless it is not a number. -/
def FloatText.numeral? : FloatText → Option Numeral
  | .nan => none
  | .infinity negative => some (.infinity negative)
  | .decimal negative d => some (.decimal negative d)

/-- The radix that the first two characters announce, and what follows them. -/
def radixPrefix? : List Char → Option (ℕ × List Char)
  | '0' :: c :: digits => (radixOf? c).map fun base => (base, digits)
  | _ => none

/-- Whether a text begins with a letter. -/
def beginsWithLetter (s : List Char) : Bool := s.head?.any Char.isAlpha

/-- **Reads a numeral by filters** around the general reader. -/
def filtered? (s : List Char) : Option Numeral :=
  match radixPrefix? s with
  | some (base, digits) => parseRadix? base digits
  | none =>
    let unsigned := (takeSign s).2
    if beginsWithLetter unsigned ∧ unsigned ≠ "Infinity".toList then none
    else (readFloat? s).bind FloatText.numeral?

variable {s t : List Char}

/-- A letter does not become one by being put in lower case. -/
theorem isAlpha_of_isAlpha_toLower {c : Char} (h : c.toLower.isAlpha = true) :
    c.isAlpha = true := by
  by_cases hc : c.isUpper = true
  · exact Bool.or_eq_true_iff.mpr (.inl hc)
  · have hsame : c.toLower = c := dif_neg fun hrange => hc (decide_eq_true hrange)
    rwa [hsame] at h

/-- What begins with no letter is no word in any case. -/
theorem map_toLower_ne (hs : beginsWithLetter s = false)
    (ht : beginsWithLetter t = true) : s.map Char.toLower ≠ t := by
  rintro rfl
  cases s with
  | nil => cases ht
  | cons c s =>
    exact absurd (hs.symm.trans (isAlpha_of_isAlpha_toLower ht))
      Bool.false_ne_true

/-- **What begins with no letter is read alike**: no word is among it. -/
theorem readFloat?_of_not_letter (hs : beginsWithLetter (takeSign s).2 = false) :
    (readFloat? s).bind FloatText.numeral? = parseSigned? s := by
  have hinf := map_toLower_ne hs (t := "inf".toList) (by decide)
  have hinfinity := map_toLower_ne hs (t := "infinity".toList) (by decide)
  have hnan := map_toLower_ne hs (t := "nan".toList) (by decide)
  have hword : (takeSign s).2 ≠ "Infinity".toList := by
    intro heq
    rw [heq] at hs
    exact absurd hs (by decide)
  unfold readFloat? parseSigned?
  dsimp only
  rw [if_neg (not_or.mpr ⟨hinf, hinfinity⟩), if_neg hnan, if_neg hword]
  cases parseDecimal? (takeSign s).2 <;> rfl

/-- **The word for infinity is read alike.** -/
theorem readFloat?_of_infinity (hs : (takeSign s).2 = "Infinity".toList) :
    (readFloat? s).bind FloatText.numeral? = parseSigned? s := by
  unfold readFloat? parseSigned?
  dsimp only
  rw [hs, if_pos (.inr (by decide)), if_pos rfl]
  rfl

/-- No other word is a numeral, with a sign or without. -/
theorem parseSigned?_of_letter (hs : beginsWithLetter (takeSign s).2 = true)
    (hne : (takeSign s).2 ≠ "Infinity".toList) : parseSigned? s = none := by
  unfold parseSigned?
  dsimp only
  rw [if_neg hne]
  cases hword : (takeSign s).2 with
  | nil => rw [hword] at hs; cases hs
  | cons c t =>
    have hc : c.isAlpha = true := by rwa [hword] at hs
    rw [parseDecimal?_eq_none (isDigit_of_isAlpha hc) (ne_of_isAlpha hc rfl)]
    rfl

/-- Where no radix is announced the filters leave the signed forms. -/
theorem filtered?_of_radixPrefix?_eq_none (h : radixPrefix? s = none) :
    filtered? s = parseSigned? s := by
  unfold filtered?
  rw [h]
  dsimp only
  by_cases hinfinity : (takeSign s).2 = "Infinity".toList
  · rw [if_neg fun hfilter => hfilter.2 hinfinity, readFloat?_of_infinity hinfinity]
  · cases hletter : beginsWithLetter (takeSign s).2 with
    | true => rw [if_pos ⟨rfl, hinfinity⟩, parseSigned?_of_letter hletter hinfinity]
    | false => rw [if_neg (by simp), readFloat?_of_not_letter hletter]

/-- **Filters around a general reader read the numerals**, and nothing else. -/
theorem filtered?_eq_parse? (s : List Char) : filtered? s = parse? s := by
  by_cases hshape : ∃ c digits base, s = '0' :: c :: digits
      ∧ radixOf? c = some base
  · obtain ⟨c, digits, base, rfl, hbase⟩ := hshape
    have hradix : radixPrefix? ('0' :: c :: digits) = some (base, digits) :=
      congrArg (Option.map _) hbase
    unfold filtered? parse?
    rw [hradix]
    simp only [hbase]
  · have hnone : ∀ c digits, s = '0' :: c :: digits → radixOf? c = none := by
      intro c digits hs
      rw [Option.eq_none_iff_forall_ne_some]
      exact fun base hbase => hshape ⟨c, digits, base, hs, hbase⟩
    rw [parse?_eq_parseSigned? hnone]
    refine filtered?_of_radixPrefix?_eq_none ?_
    unfold radixPrefix?
    split
    · next c digits => rw [hnone c digits rfl]; rfl
    · rfl

/-- The spellings that the filters are for. -/
example : filtered? "inf".toList = none ∧ filtered? "+NaN".toList = none
    ∧ readFloat? "+NaN".toList = some .nan
    ∧ filtered? "-Infinity".toList = some (.infinity true) := by decide

end RegisterMachine.Numeral
