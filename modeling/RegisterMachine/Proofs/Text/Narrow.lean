import RegisterMachine.Proofs.Decimal.Text
import RegisterMachine.Text.Pad

/-!
# Texts that are printed

A terminal gives a character one column, or two, or none, and a line feed ends a
line. Whatever is printed of a machine has none but characters of one column
(`Text.IsNarrow`): digits, signs and points, words of letters, blanks, and the
marker of a debugger. So a number, an index or an instruction stands on one line
(`Text.IsNarrow.newline_notMem`), and cell by cell on a screen.
-/

namespace RegisterMachine

namespace Text

/-- **A character that takes up one column**: the marker, or a character of ASCII
that controls nothing. -/
def IsNarrowChar (c : Char) : Prop := c = '▶' ∨ ' ' ≤ c ∧ c ≤ '~'

instance : DecidablePred IsNarrowChar := fun c =>
  inferInstanceAs (Decidable (c = '▶' ∨ ' ' ≤ c ∧ c ≤ '~'))

/-- **A text of such characters.** -/
def IsNarrow (text : String) : Prop := ∀ c ∈ text.toList, IsNarrowChar c

variable {s t : String}

theorem isNarrow_of_all (h : s.toList.all fun c => decide (IsNarrowChar c)) :
    IsNarrow s := fun c hc => of_decide_eq_true (List.all_eq_true.mp h c hc)

/-- **A narrow text stands on one line.** -/
theorem IsNarrow.newline_notMem (hs : IsNarrow s) : '\n' ∉ s.toList :=
  fun hn => absurd (hs _ hn) (by decide)

theorem IsNarrow.append (hs : IsNarrow s) (ht : IsNarrow t) :
    IsNarrow (s ++ t) := by
  intro c hc
  rw [String.toList_append, List.mem_append] at hc
  exact hc.elim (hs c) (ht c)

/-! ## Numbers in columns -/

theorem isNarrowChar_of_isDigit {c : Char} (h : c.isDigit = true) :
    IsNarrowChar c := by
  obtain ⟨hlo, hhi⟩ := (Bool.and_eq_true _ _).mp h
  have hzero : '0' ≤ c := of_decide_eq_true hlo
  have hnine : c ≤ '9' := of_decide_eq_true hhi
  have hblank : ' ' ≤ '0' := by decide
  have htilde : '9' ≤ '~' := by decide
  exact .inr ⟨Char.le_trans hblank hzero, Char.le_trans hnine htilde⟩

theorem isNarrowChar_signed {negative : Bool} {s : List Char}
    (h : ∀ c ∈ s, IsNarrowChar c) :
    ∀ c ∈ Numeral.signed negative s, IsNarrowChar c := by
  cases negative with
  | true => exact List.forall_mem_cons.mpr ⟨by decide, h⟩
  | false => exact h

theorem isNarrow_toString_int (n : ℤ) : IsNarrow (toString n) := by
  unfold IsNarrow
  rw [Binary64.toList_toString_int]
  exact isNarrowChar_signed fun c hc =>
    isNarrowChar_of_isDigit (isDigit_of_mem_decimalDigits hc)

/-- Repeated, a character is as narrow as once. -/
theorem isNarrow_replicate {c : Char} (hc : IsNarrowChar c) (n : ℕ) :
    IsNarrow (String.ofList (List.replicate n c)) := by
  intro d hd
  rw [String.toList_ofList] at hd
  rwa [List.eq_of_mem_replicate hd]

theorem isNarrow_padLeft {fill : Char} (hfill : IsNarrowChar fill)
    (hs : IsNarrow s) (width : ℕ) : IsNarrow (padLeft width fill s) :=
  (isNarrow_replicate hfill _).append hs

theorem isNarrow_padRight (hs : IsNarrow s) (width : ℕ) :
    IsNarrow (padRight width s) :=
  hs.append (isNarrow_replicate (by decide) _)

theorem isNarrow_index (n : ℕ) : IsNarrow (index n) := by
  have hzero : IsNarrowChar '0' := by decide
  exact isNarrow_padLeft hzero (isNarrow_toString_int n) 3

end Text

open Text

/-! ## Instructions -/

/-- **An operand is written in narrow characters**, also a pattern that is no
number. -/
theorem Binary64.isNarrow_operandText (x : Binary64) :
    IsNarrow x.operandText := by
  have hplain : IsNarrow x.plainText := by
    cases hfin : x.isFinite with
    | true =>
      unfold IsNarrow
      rw [toList_plainText hfin]
      refine isNarrowChar_signed fun c hc => ?_
      rcases (Decimal.isPlain_positional _).digit_or_point c hc with hdigit | rfl
      · exact isNarrowChar_of_isDigit hdigit
      · decide
    | false =>
      unfold plainText
      rw [hfin, if_neg Bool.false_ne_true]
      cases x.isInfinite with
      | true =>
        refine IsNarrow.append ?_ (isNarrow_of_all (by decide))
        cases x.negative <;> exact isNarrow_of_all (by decide)
      | false =>
        show IsNarrow "NaN"
        exact isNarrow_of_all (by decide)
  unfold operandText
  split
  · split
    · exact isNarrow_toString_int _
    · exact hplain
  · exact hplain

namespace Instruction

theorem isNarrow_mnemonic (op : Opcode) : IsNarrow op.mnemonic := by
  cases op <;> exact isNarrow_of_all (by decide)

/-- A mnemonic with a narrow text behind it. -/
theorem isNarrow_mnemonic_append (op : Opcode) {t : String} (ht : IsNarrow t) :
    IsNarrow (op.mnemonic ++ " " ++ t) :=
  ((isNarrow_mnemonic op).append (isNarrow_of_all (by decide))).append ht

/-- **An instruction is written in narrow characters**, whatever its operand. -/
theorem isNarrow_text (i : Instruction) : IsNarrow i.text := by
  unfold text
  cases i.operand with
  | none => exact isNarrow_mnemonic i.opcode
  | some x => exact isNarrow_mnemonic_append i.opcode x.isNarrow_operandText

end Instruction

end RegisterMachine
