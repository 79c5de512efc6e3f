import Mathlib.Order.Bounds.Basic
import RegisterMachine.Proofs.Decimal.Text
import RegisterMachine.Proofs.Program.Lines
import RegisterMachine.Proofs.Text.Narrow

/-!
# Reading a program's source text back

A program that was read prints one line an instruction, and reading those
lines gives the program back with two exceptions. Zero comes back without its
sign, which no comparison of numbers sees. And infinity is printed as a word
that is no numeral: a `hold` then loses its operand, and any other
instruction makes its line wrong.

`Program.parse_source` says so for every program that the reader accepts. What
the reader promises of an instruction is `Instruction.WellFormed`: it goes
without operand only if it is a `hold`, and its operand is a number. The
instruction that its line is read as is `Instruction.reread`.
-/

namespace RegisterMachine

namespace Instruction

variable {i : Instruction} {k : ℕ}

/-- **What the reader promises of an instruction.** -/
structure WellFormed (i : Instruction) : Prop where
  hold_of_none : i.operand = none → i.opcode = .hold
  isNumber : ∀ x ∈ i.operand, x.magnitude ≤ Binary64.infiniteMagnitude

/-- The operand is infinite. -/
def HasInfinity (i : Instruction) : Prop :=
  ∃ x ∈ i.operand, x.isInfinite = true

/-- **The printed line is wrong**: the operand is infinite and cannot be left
out. -/
def IsUnreadable (i : Instruction) : Prop := i.opcode ≠ .hold ∧ i.HasInfinity

/-- **The instruction that the printed line is read as.** -/
def reread (i : Instruction) : Instruction :=
  ⟨i.opcode, (i.operand.filter Binary64.isFinite).map Binary64.unsignZero⟩

/-! ## One line -/

/-- **An instruction that stands on a line is well formed.** -/
theorem wellFormed_of_isInstruction {l : List Char}
    (h : Line.IsInstruction l i) : i.WellFormed := by
  refine ⟨h.hold_of_none, fun x hx => ?_⟩
  rw [h.operand_eq] at hx
  obtain ⟨n, -, rfl⟩ := Option.map_eq_some_iff.mp hx
  exact n.magnitude_value_le

theorem isWord_mnemonic (op : Opcode) :
    op.mnemonic.toList ≠ []
      ∧ ∀ c ∈ op.mnemonic.toList, Text.isBlank c = false := by
  refine ⟨Line.mnemonic_toList_ne_nil op, Text.isBlank_eq_false_of_all ?_⟩
  cases op <;> decide

/-- A mnemonic and a word behind a space are two words. -/
theorem words_mnemonic_append (op : Opcode) {t : String} (hne : t.toList ≠ [])
    (ht : ∀ c ∈ t.toList, Text.isBlank c = false) :
    Text.words (op.mnemonic ++ " " ++ t).toList
      = [op.mnemonic.toList, t.toList] := by
  obtain ⟨hne', hword⟩ := isWord_mnemonic op
  rw [String.toList_append, String.toList_append, List.append_assoc]
  show Text.words (op.mnemonic.toList ++ ' ' :: t.toList) = _
  rw [Text.words_append_blank _ _ rfl, Text.words_eq_singleton hne' hword,
    Text.words_eq_singleton hne ht]
  rfl

/-- **The words of a printed instruction** are its mnemonic and its
operand. -/
theorem words_text (h : i.WellFormed) :
    Text.words i.text.toList = i.opcode.mnemonic.toList
      :: (i.operand.map fun x => x.operandText.toList).toList := by
  obtain ⟨hne, hword⟩ := isWord_mnemonic i.opcode
  unfold text
  cases hoperand : i.operand with
  | none => exact Text.words_eq_singleton hne hword
  | some x =>
    obtain ⟨hne', hword'⟩ := Binary64.isWord_operandText (h.isNumber x hoperand)
    exact words_mnemonic_append i.opcode hne' hword'

/-- **What the second word of a printed instruction is read as.** -/
theorem parse?_text (h : i.WellFormed) :
    ((i.operand.map fun x => x.operandText.toList).bind Numeral.parse?).map
        Numeral.value
      = i.reread.operand := by
  unfold reread
  cases hoperand : i.operand with
  | none => rfl
  | some x =>
    show (Numeral.parse? x.operandText.toList).map Numeral.value
      = ((some x).filter Binary64.isFinite).map Binary64.unsignZero
    rcases Binary64.isFinite_or_isInfinite (h.isNumber x hoperand)
      with hfin | hinf
    · rw [Binary64.parse?_operandText hfin, Option.filter_some, hfin]
      rfl
    · rw [Binary64.operandText_of_isInfinite hinf,
        Binary64.parse?_infinity_text, Option.filter_some,
        Binary64.isFinite_of_isInfinite hinf]
      rfl

theorem parseWords_text (h : i.WellFormed) :
    parseWords k (Text.words i.text.toList)
      = if i.opcode.requiresOperand && i.reread.operand.isNone then
          .error (.invalidOperand k (i.operand.map Binary64.operandText))
        else .ok (some i.reread) := by
  have htoken : ((i.operand.map fun x => x.operandText.toList).toList.head?).map
      String.ofList = i.operand.map Binary64.operandText := by
    cases i.operand with
    | none => rfl
    | some x => exact congrArg some (String.ofList_toList ..)
  rw [words_text h, parseWords, String.ofList_toList,
    Opcode.ofMnemonic?_mnemonic]
  dsimp only
  rw [htoken, Option.head?_toList, parse?_text h]
  rfl

theorem operand_reread_eq_none_iff (h : i.WellFormed) :
    i.reread.operand = none ↔ i.operand = none ∨ i.HasInfinity := by
  unfold reread HasInfinity
  rw [Option.map_eq_none_iff, Option.filter_eq_none_iff]
  cases hoperand : i.operand with
  | none => exact iff_of_true (fun x hx => by cases hx) (.inl rfl)
  | some x =>
    constructor
    · intro hfilter
      refine .inr ⟨x, rfl, ?_⟩
      exact (Binary64.isFinite_or_isInfinite (h.isNumber x hoperand)).resolve_left
        (hfilter x rfl)
    · rintro (hnone | ⟨y, hy, hinf⟩) z hz
      · cases hnone
      · cases hy
        cases hz
        rw [Binary64.isFinite_of_isInfinite hinf]
        exact Bool.false_ne_true

/-- **A printed instruction is wrong** exactly if it is unreadable. -/
theorem isUnreadable_iff (h : i.WellFormed) :
    (i.opcode.requiresOperand && i.reread.operand.isNone) = true
      ↔ i.IsUnreadable := by
  rw [Bool.and_eq_true, Opcode.requiresOperand_iff, Option.isNone_iff_eq_none,
    operand_reread_eq_none_iff h]
  refine and_congr_right fun hne => or_iff_right fun hnone => ?_
  exact hne (h.hold_of_none hnone)

theorem parseWords_text_of_isUnreadable (h : i.WellFormed)
    (hbad : i.IsUnreadable) :
    parseWords k (Text.words i.text.toList)
      = .error (.invalidOperand k (i.operand.map Binary64.operandText)) := by
  rw [parseWords_text h, if_pos ((isUnreadable_iff h).mpr hbad)]

theorem parseWords_text_of_not_isUnreadable (h : i.WellFormed)
    (hgood : ¬i.IsUnreadable) :
    parseWords k (Text.words i.text.toList) = .ok (some i.reread) := by
  rw [parseWords_text h, if_neg (mt (isUnreadable_iff h).mp hgood)]

/-- **Without an infinite operand** an instruction comes back as it was. -/
theorem numEq_reread (h : i.WellFormed) (hfin : ¬i.HasInfinity) :
    i.numEq i.reread = true := by
  unfold numEq
  rw [show i.reread.opcode = i.opcode from rfl, beq_self_eq_true, Bool.true_and]
  unfold reread
  cases hoperand : i.operand with
  | none => rfl
  | some x =>
    have hnumber := h.isNumber x hoperand
    have hx : x.isFinite = true :=
      (Binary64.isFinite_or_isInfinite hnumber).resolve_right fun hinf =>
        hfin ⟨x, hoperand, hinf⟩
    rw [Option.filter_some, hx]
    exact Binary64.numEq_unsignZero hnumber

end Instruction

namespace Program

open Instruction

variable {source : String} {p : Program} {is : List Instruction} {k : ℕ}

/-! ## All lines -/

/-- The lines that the instructions are printed on, and the empty one behind
the last line feed. -/
def printedLines (is : List Instruction) : List (List Char) :=
  (is.map fun i => i.text.toList) ++ [[]]

/-- **The lines of the source text** are the printed instructions. -/
theorem lines_source (p : Program) :
    Text.lines p.source.toList = printedLines p.toList := by
  have htext : p.source.toList
      = (p.toList.map fun i => i.text.toList).flatMap (· ++ ['\n']) := by
    unfold source
    rw [String.toList_join, List.flatMap_map, List.flatMap_map]
    exact List.flatMap_congr fun i _ => String.toList_append ..
  rw [htext, Text.lines_flatMap_newline]
  · rfl
  · intro l hl
    obtain ⟨i, -, rfl⟩ := List.mem_map.mp hl
    exact i.isNarrow_text.newline_notMem

/-- Without an unreadable instruction every line comes back. -/
theorem parseLines_printedLines (k : ℕ) (h : ∀ i ∈ is, i.WellFormed)
    (hgood : ∀ i ∈ is, ¬i.IsUnreadable) :
    parseLines k (printedLines is) = .ok (is.map reread) := by
  induction is generalizing k with
  | nil => rfl
  | cons i is ih =>
    obtain ⟨hi, his⟩ := List.forall_mem_cons.mp h
    obtain ⟨hgoodi, hgoodis⟩ := List.forall_mem_cons.mp hgood
    show parseLines k (i.text.toList :: printedLines is) = _
    rw [parseLines_cons_of_ok (parseWords_text_of_not_isUnreadable hi hgoodi),
      ih (k + 1) his hgoodis]
    rfl

/-- The first unreadable instruction is a wrong line at its own index. -/
theorem parseLines_printedLines_of_isUnreadable (k : ℕ)
    (h : ∀ i ∈ is, i.WellFormed) {n : ℕ} {i : Instruction}
    (hi : is[n]? = some i) (hbad : i.IsUnreadable)
    (hbefore : ∀ m < n, ∀ j, is[m]? = some j → ¬j.IsUnreadable) :
    parseLines k (printedLines is)
      = .error (.invalidOperand (k + n) (i.operand.map Binary64.operandText)) := by
  induction is generalizing k n with
  | nil => cases hi
  | cons j is ih =>
    obtain ⟨hj, his⟩ := List.forall_mem_cons.mp h
    show parseLines k (j.text.toList :: printedLines is) = _
    cases n with
    | zero =>
      obtain rfl : j = i := Option.some.inj hi
      exact parseLines_cons_of_error (parseWords_text_of_isUnreadable hj hbad)
    | succ n =>
      have hgood : ¬j.IsUnreadable := hbefore 0 (Nat.succ_pos n) j rfl
      rw [parseLines_cons_of_ok (parseWords_text_of_not_isUnreadable hj hgood),
        ih (k + 1) his hi fun m hm => hbefore (m + 1) (Nat.succ_lt_succ hm),
        Nat.add_right_comm, Nat.add_assoc]
      rfl

/-- **The instructions of a program that was read are well formed.** -/
theorem wellFormed_of_parse (h : parse source = .ok p) :
    ∀ i ∈ p.toList, i.WellFormed := by
  rw [parse_eq_ok_iff, parseLines_eq_ok_iff] at h
  obtain ⟨-, hall⟩ := h
  generalize codeLines _ = ls, p.toList = is at hall
  induction hall with
  | nil => exact fun i hi => absurd hi List.not_mem_nil
  | cons hi _ ih =>
    exact List.forall_mem_cons.mpr ⟨wellFormed_of_isInstruction hi, ih⟩

/-! ## The program -/

/-- **The indices of the unreadable instructions.** -/
def unreadable (p : Program) : Set ℕ :=
  {n | ∃ i ∈ p.get? n, i.IsUnreadable}

theorem not_isUnreadable_of_mem (h : p.unreadable = ∅) {i : Instruction}
    (hi : i ∈ p.toList) : ¬i.IsUnreadable := by
  intro hbad
  obtain ⟨n, hn⟩ := List.mem_iff_getElem?.mp hi
  rw [← get?_eq_toList] at hn
  have hmem : n ∈ p.unreadable := ⟨i, hn, hbad⟩
  rw [h] at hmem
  exact hmem

/-- **The program that the source text is read as**, if it is. -/
def reread (p : Program) : Program := ofList (p.toList.map Instruction.reread)

theorem get?_reread (p : Program) (n : ℕ) :
    p.reread.get? n = (p.get? n).map Instruction.reread := by
  rw [get?_eq_toList, get?_eq_toList, reread, toList_ofList, List.getElem?_map]

theorem size_reread (p : Program) : p.reread.size = p.size := by
  rw [← length_toList, ← length_toList, reread, toList_ofList, List.length_map]

theorem numEq_reread_of_forall
    (h : ∀ i ∈ p.toList, i.numEq i.reread = true) :
    p.numEq p.reread = true := by
  have hzip : p.toList.zip (p.toList.map Instruction.reread)
      = p.toList.map fun i => (i, i.reread) := by
    rw [← List.zip_map', List.map_id']
  unfold numEq
  rw [size_reread, beq_self_eq_true, Bool.true_and, List.all_eq_true, reread,
    toList_ofList, hzip]
  intro e he
  obtain ⟨i, hi, rfl⟩ := List.mem_map.mp he
  exact h i hi

theorem parse_source_eq_ok (h : ∀ i ∈ p.toList, i.WellFormed)
    (hgood : p.unreadable = ∅) : parse p.source = .ok p.reread := by
  rw [parse_eq_ok_iff, lines_source]
  exact parseLines_printedLines 0 h fun i => not_isUnreadable_of_mem hgood

theorem parse_source_eq_error (h : ∀ i ∈ p.toList, i.WellFormed)
    {i : Instruction} (hi : p.get? k = some i)
    (hbad : IsLeast p.unreadable k) :
    parse p.source
      = .error (.invalidOperand k (i.operand.map Binary64.operandText)) := by
  obtain ⟨⟨i', hi', hunreadable⟩, hleast⟩ := hbad
  obtain rfl : i = i' := Option.some.inj (hi.symm.trans hi')
  rw [get?_eq_toList] at hi
  rw [parse_eq_error_iff, lines_source,
    parseLines_printedLines_of_isUnreadable 0 h hi hunreadable, Nat.zero_add]
  intro m hm j hj hbad
  rw [← get?_eq_toList] at hj
  exact absurd (hleast ⟨j, hj, hbad⟩) (not_le.mpr hm)

/-- **Reading back what was printed.** Of a program that was read, the source
text is refused exactly at the first instruction whose infinite operand cannot
be left out, with the word that the infinity is printed as. If there is none
the text is a program with the same opcodes; its operands are the same
numbers, but for an infinite operand of a `hold`, which is lost. So a program
of finite operands comes back. -/
theorem parse_source (h : parse source = .ok p) :
    (∀ k, IsLeast p.unreadable k →
        ∃ i x, p.get? k = some i ∧ i.operand = some x ∧ x.isInfinite = true
          ∧ parse p.source = .error (.invalidOperand k
            (some (if x.negative then "-inf" else "inf"))))
      ∧ (p.unreadable = ∅ →
        ∃ q, parse p.source = .ok q ∧ q.size = p.size
          ∧ ∀ n i, p.get? n = some i →
            ∃ j, q.get? n = some j ∧ j.opcode = i.opcode
              ∧ (i.HasInfinity → i.opcode = .hold ∧ j.operand = none)
              ∧ (¬i.HasInfinity → i.numEq j = true))
      ∧ ((∀ i ∈ p.toList, ∀ x ∈ i.operand, x.isFinite = true) →
        ∃ q, parse p.source = .ok q ∧ p.numEq q = true) := by
  have hwf := wellFormed_of_parse h
  refine ⟨fun k hk => ?_, fun hgood => ?_, fun hfinite => ?_⟩
  · obtain ⟨i, hi, -, x, hx, hinf⟩ := id hk.1
    refine ⟨i, x, hi, hx, hinf, ?_⟩
    rw [parse_source_eq_error hwf hi hk, hx, Option.map_some,
      Binary64.operandText_of_isInfinite hinf]
  · refine ⟨p.reread, parse_source_eq_ok hwf hgood, p.size_reread,
      fun n i hi => ?_⟩
    have hmem := mem_toList_of_get? hi
    refine ⟨i.reread, by rw [get?_reread, hi]; rfl, rfl, fun hinf => ⟨?_, ?_⟩,
      numEq_reread (hwf i hmem)⟩
    · exact not_not.mp fun hne => not_isUnreadable_of_mem hgood hmem ⟨hne, hinf⟩
    · exact (operand_reread_eq_none_iff (hwf i hmem)).mpr (.inr hinf)
  · have hnone : ∀ i ∈ p.toList, ¬i.HasInfinity := by
      rintro i hi ⟨x, hx, hinf⟩
      have hfin := hfinite i hi x hx
      rw [Binary64.isFinite_of_isInfinite hinf] at hfin
      cases hfin
    refine ⟨p.reread, parse_source_eq_ok hwf ?_, ?_⟩
    · refine Set.eq_empty_of_forall_notMem fun n hn => ?_
      obtain ⟨i, hi, hbad⟩ := hn
      exact hnone i (mem_toList_of_get? hi) hbad.2
    · exact numEq_reread_of_forall fun i hi => numEq_reread (hwf i hi) (hnone i hi)

/-- **A program with every kind of operand that does not come back**: an
infinite one of a `hold`, a negative zero, and two that cannot be left out. -/
def infinities : Program :=
  ofList [⟨.hold, some (.infinity false)⟩, ⟨.loadi, some (.zero true)⟩,
    ⟨.jmp, some (.infinity true)⟩, ⟨.add, some (.infinity false)⟩]

/-- The blank line is not printed, and so the jump is on the third line of the
source text. -/
theorem parse_source_infinities :
    parse "hold Infinity\n\nloadi -0\njmp -Infinity\nadd 1e400" = .ok infinities
      ∧ IsLeast infinities.unreadable 2
      ∧ parse infinities.source = .error (.invalidOperand 2 (some "-inf")) := by
  have hparse : parse "hold Infinity\n\nloadi -0\njmp -Infinity\nadd 1e400"
      = .ok infinities := by decide +kernel
  have hleast : IsLeast infinities.unreadable 2 := by
    refine ⟨⟨_, rfl, by decide, _, rfl, by decide⟩, ?_⟩
    rintro n ⟨i, hi, hne, x, hx, hinf⟩
    match n, hi with
    | 0, rfl => exact absurd rfl hne
    | 1, rfl =>
      obtain rfl := Option.some.inj hx
      exact absurd hinf (by decide)
    | n + 2, _ => exact Nat.le_add_left 2 n
  refine ⟨hparse, hleast, ?_⟩
  obtain ⟨i, x, hi, hx, -, herror⟩ := (parse_source hparse).1 2 hleast
  obtain rfl := Option.some.inj hi
  obtain rfl := Option.some.inj hx
  exact herror

end Program

end RegisterMachine
