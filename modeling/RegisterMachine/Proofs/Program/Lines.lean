import Mathlib.Data.List.Forall2
import RegisterMachine.Program.Parser
import RegisterMachine.Proofs.Text.Words

/-!
# A program is read line by line

Whether a line is an instruction, is blank or is wrong depends on its first
two words and on nothing else (`Text.firstWord`, `Text.secondWord`). The
predicates of this module say it of one line: `Line.IsUnknownOpcode`,
`Line.IsBadOperand`, what error a wrong line gives (`Line.Fault`) and what
instruction a good one is (`Line.IsInstruction`).

`Program.parse_reads_lines` lifts that to the text. The error is that of the
first wrong line (`Program.FirstFault`), counted among all lines; without a
wrong line the program has the instructions of the lines that are not blank, in
order and counted without the blank ones.
-/

namespace RegisterMachine

theorem Opcode.requiresOperand_iff (op : Opcode) :
    op.requiresOperand = true ↔ op ≠ .hold := by
  rw [← not_iff_not, Bool.not_eq_true, requiresOperand_eq_false, not_ne_iff]

namespace Line

variable {k : ℕ} {l : List Char}

/-- **The first word stands for no opcode.** -/
def IsUnknownOpcode (l : List Char) : Prop :=
  Text.firstWord l ≠ []
    ∧ ∀ op : Opcode, op.mnemonic.toList ≠ Text.firstWord l

/-- **The opcode needs an operand**, and the second word is missing or is no
numeral. -/
def IsBadOperand (l : List Char) : Prop :=
  ∃ op : Opcode, op.mnemonic.toList = Text.firstWord l ∧ op ≠ .hold
    ∧ (Text.secondWord l = [] ∨ Numeral.parse? (Text.secondWord l) = none)

/-- **A wrong line.** -/
def IsWrong (l : List Char) : Prop := IsUnknownOpcode l ∨ IsBadOperand l

/-- **The error that a wrong line gives**, at an index. -/
inductive Fault (k : ℕ) (l : List Char) : ParseError → Prop where
  | unknownOpcode (h : IsUnknownOpcode l) :
      Fault k l (.unknownOpcode k (String.ofList (Text.firstWord l)))
  | missingOperand (h : IsBadOperand l) (hnone : Text.secondWord l = []) :
      Fault k l (.invalidOperand k none)
  | invalidOperand (h : IsBadOperand l) (hsome : Text.secondWord l ≠ []) :
      Fault k l (.invalidOperand k (some (String.ofList (Text.secondWord l))))

/-- **The instruction that a good line is.** The operand is the value of the
second word, and nothing but a `hold` goes without. -/
structure IsInstruction (l : List Char) (i : Instruction) : Prop where
  opcode_eq : i.opcode.mnemonic.toList = Text.firstWord l
  operand_eq : i.operand
    = (Numeral.parse? (Text.secondWord l)).map Numeral.value
  hold_of_none : i.operand = none → i.opcode = .hold

/-! ## One line -/

theorem ofMnemonic?_eq_some_iff (s : List Char) (op : Opcode) :
    Opcode.ofMnemonic? (String.ofList s) = some op ↔ op.mnemonic.toList = s := by
  constructor
  · intro h
    rw [Opcode.mnemonic_of_ofMnemonic? h, String.toList_ofList]
  · rintro rfl
    rw [String.ofList_toList]
    exact Opcode.ofMnemonic?_mnemonic op

theorem ofMnemonic?_eq_none_iff (s : List Char) :
    Opcode.ofMnemonic? (String.ofList s) = none
      ↔ ∀ op : Opcode, op.mnemonic.toList ≠ s := by
  rw [Option.eq_none_iff_forall_ne_some]
  exact forall_congr' fun op => not_congr (ofMnemonic?_eq_some_iff s op)

theorem mnemonic_toList_ne_nil (op : Opcode) : op.mnemonic.toList ≠ [] := by
  cases op <;> decide

theorem parseWords_of_blank (h : Text.firstWord l = []) :
    Instruction.parseWords k (Text.words l) = .ok none := by
  rw [Text.words_eq_nil h]
  rfl

theorem parseWords_of_isUnknownOpcode (h : IsUnknownOpcode l) :
    Instruction.parseWords k (Text.words l)
      = .error (.unknownOpcode k (String.ofList (Text.firstWord l))) := by
  rw [Text.words_eq_cons h.1]
  unfold Instruction.parseWords
  dsimp only
  rw [(ofMnemonic?_eq_none_iff _).mpr h.2]

/-- **What becomes of a line with an opcode** is decided by its second
word. -/
theorem parseWords_of_mnemonic {op : Opcode}
    (h : op.mnemonic.toList = Text.firstWord l) :
    Instruction.parseWords k (Text.words l)
      = if op ≠ .hold ∧ Numeral.parse? (Text.secondWord l) = none then
          .error (.invalidOperand k (if Text.secondWord l = [] then none
            else some (String.ofList (Text.secondWord l))))
        else .ok (some ⟨op,
          (Numeral.parse? (Text.secondWord l)).map Numeral.value⟩) := by
  have hne : Text.firstWord l ≠ [] := h ▸ mnemonic_toList_ne_nil op
  -- an empty second word is no numeral, so the two ways of saying that there
  -- is no operand agree
  have hoperand : (Text.words (Text.afterWord l)).head?.bind Numeral.parse?
      = Numeral.parse? (Text.secondWord l) := by
    rw [Text.head?_words_afterWord]
    split
    · next hnil => rw [hnil]; rfl
    · rfl
  have htoken : (Text.words (Text.afterWord l)).head?.map String.ofList
      = if Text.secondWord l = [] then none
        else some (String.ofList (Text.secondWord l)) := by
    rw [Text.head?_words_afterWord]
    split <;> rfl
  rw [Text.words_eq_cons hne]
  unfold Instruction.parseWords
  dsimp only
  rw [(ofMnemonic?_eq_some_iff _ op).mpr h]
  dsimp only
  rw [hoperand, htoken]
  refine if_congr ?_ rfl rfl
  rw [Bool.and_eq_true, Opcode.requiresOperand_iff, Option.isNone_iff_eq_none,
    Option.map_eq_none_iff]

/-- A line is blank, or its first word stands for an opcode or for none. -/
theorem blank_or_unknown_or_opcode (l : List Char) :
    Text.firstWord l = [] ∨ IsUnknownOpcode l
      ∨ ∃ op : Opcode, op.mnemonic.toList = Text.firstWord l := by
  by_cases hop : ∃ op : Opcode, op.mnemonic.toList = Text.firstWord l
  · exact .inr (.inr hop)
  · by_cases hnil : Text.firstWord l = []
    · exact .inl hnil
    · exact .inr (.inl ⟨hnil, fun op h => hop ⟨op, h⟩⟩)

/-- A line whose first word is a mnemonic is not of unknown opcode, and its
operand is bad if its opcode needs one. -/
theorem isBadOperand_iff {op : Opcode}
    (h : op.mnemonic.toList = Text.firstWord l) :
    IsBadOperand l
      ↔ op ≠ .hold ∧ Numeral.parse? (Text.secondWord l) = none := by
  have hnone : Text.secondWord l = [] ∨ Numeral.parse? (Text.secondWord l) = none
      ↔ Numeral.parse? (Text.secondWord l) = none :=
    or_iff_right_of_imp fun hnil => by rw [hnil]; rfl
  constructor
  · rintro ⟨op', h', hop, hbad⟩
    obtain rfl : op = op' := by
      have hop := (ofMnemonic?_eq_some_iff _ op).mpr h
      rw [(ofMnemonic?_eq_some_iff _ op').mpr h'] at hop
      exact (Option.some.inj hop).symm
    exact ⟨hop, hnone.mp hbad⟩
  · rintro ⟨hop, hbad⟩
    exact ⟨op, h, hop, hnone.mpr hbad⟩

/-- **A line is refused with its fault.** -/
theorem parseWords_eq_error_iff (e : ParseError) :
    Instruction.parseWords k (Text.words l) = .error e ↔ Fault k l e := by
  constructor
  · intro h
    rcases blank_or_unknown_or_opcode l with hblank | hunknown | ⟨op, hop⟩
    · rw [parseWords_of_blank hblank] at h
      cases h
    · rw [parseWords_of_isUnknownOpcode hunknown] at h
      cases h
      exact .unknownOpcode hunknown
    · rw [parseWords_of_mnemonic hop] at h
      split at h
      · next hbad =>
        have hbad := (isBadOperand_iff hop).mpr hbad
        cases h
        split
        · next hnil => exact .missingOperand hbad hnil
        · next hne => exact .invalidOperand hbad hne
      · cases h
  · intro h
    cases h with
    | unknownOpcode h => exact parseWords_of_isUnknownOpcode h
    | missingOperand h hnone =>
      obtain ⟨op, hop, -⟩ := id h
      rw [parseWords_of_mnemonic hop, if_pos ((isBadOperand_iff hop).mp h),
        if_pos hnone]
    | invalidOperand h hsome =>
      obtain ⟨op, hop, -⟩ := id h
      rw [parseWords_of_mnemonic hop, if_pos ((isBadOperand_iff hop).mp h),
        if_neg hsome]

/-- **A line is an instruction exactly if it is read as that.** -/
theorem parseWords_eq_some_iff (i : Instruction) :
    Instruction.parseWords k (Text.words l) = .ok (some i)
      ↔ IsInstruction l i := by
  constructor
  · intro h
    rcases blank_or_unknown_or_opcode l with hblank | hunknown | ⟨op, hop⟩
    · rw [parseWords_of_blank hblank] at h
      cases h
    · rw [parseWords_of_isUnknownOpcode hunknown] at h
      cases h
    · rw [parseWords_of_mnemonic hop] at h
      split at h
      · cases h
      · next hgood =>
        cases h
        refine ⟨hop, rfl, fun hnone => ?_⟩
        by_contra hhold
        exact hgood ⟨hhold, Option.map_eq_none_iff.mp hnone⟩
  · rintro ⟨hop, hoperand, hhold⟩
    rw [parseWords_of_mnemonic hop, ← hoperand, if_neg]
    rintro ⟨hne, hnone⟩
    rw [hnone, Option.map_none] at hoperand
    exact hne (hhold hoperand)

/-- **A line is skipped exactly if it is blank.** -/
theorem parseWords_eq_none_iff :
    Instruction.parseWords k (Text.words l) = .ok none
      ↔ ∀ c ∈ l, Text.isBlank c = true := by
  rw [← Text.firstWord_eq_nil_iff]
  refine ⟨fun h => ?_, parseWords_of_blank⟩
  rcases blank_or_unknown_or_opcode l with hblank | hunknown | ⟨op, hop⟩
  · exact hblank
  · rw [parseWords_of_isUnknownOpcode hunknown] at h
    cases h
  · rw [parseWords_of_mnemonic hop] at h
    split at h <;> cases h

/-- **A wrong line has a fault**, at any index. -/
theorem exists_fault_iff : (∃ e, Fault k l e) ↔ IsWrong l := by
  constructor
  · rintro ⟨e, h⟩
    cases h with
    | unknownOpcode h => exact .inl h
    | missingOperand h => exact .inr h
    | invalidOperand h => exact .inr h
  · rintro (h | h)
    · exact ⟨_, .unknownOpcode h⟩
    · by_cases hnil : Text.secondWord l = []
      · exact ⟨_, .missingOperand h hnil⟩
      · exact ⟨_, .invalidOperand h hnil⟩

/-- A fault is at the index of its line. -/
theorem Fault.line_eq {e : ParseError} (h : Fault k l e) : e.line = k := by
  cases h <;> rfl

/-- A line that is read is not wrong. -/
theorem not_isWrong_of_parseWords {o : Option Instruction}
    (h : Instruction.parseWords k (Text.words l) = .ok o) : ¬IsWrong l := by
  rw [← exists_fault_iff (k := k)]
  rintro ⟨e, hfault⟩
  rw [(parseWords_eq_error_iff e).mpr hfault] at h
  cases h

/-- **A line that is not wrong is read.** -/
theorem exists_parseWords_of_not_isWrong (h : ¬IsWrong l) :
    ∃ o, Instruction.parseWords k (Text.words l) = .ok o := by
  cases hparse : Instruction.parseWords k (Text.words l) with
  | ok o => exact ⟨o, rfl⟩
  | error e =>
    exact absurd (exists_fault_iff.mp ⟨e, (parseWords_eq_error_iff e).mp hparse⟩) h

/-- An instruction stands on no blank line. -/
theorem IsInstruction.not_blank {i : Instruction} (h : IsInstruction l i) :
    ¬∀ c ∈ l, Text.isBlank c = true := by
  rw [← Text.firstWord_eq_nil_iff, ← h.opcode_eq]
  exact mnemonic_toList_ne_nil i.opcode

end Line

/-! ## All lines -/

namespace Program

open Line

variable {k : ℕ} {l : List Char} {ls : List (List Char)}

/-- **The lines that are not blank.** -/
def codeLines (ls : List (List Char)) : List (List Char) :=
  ls.filter fun l => !l.all Text.isBlank

theorem codeLines_cons_of_blank (h : ∀ c ∈ l, Text.isBlank c = true) :
    codeLines (l :: ls) = codeLines ls :=
  List.filter_cons_of_neg (by simpa using h)

theorem codeLines_cons_of_not_blank (h : ¬∀ c ∈ l, Text.isBlank c = true) :
    codeLines (l :: ls) = l :: codeLines ls :=
  List.filter_cons_of_pos (by simpa using h)

theorem parseLines_cons_of_error {e : ParseError}
    (h : Instruction.parseWords k (Text.words l) = .error e) :
    parseLines k (l :: ls) = .error e := by
  rw [parseLines, h]

theorem parseLines_cons_of_ok {o : Option Instruction}
    (h : Instruction.parseWords k (Text.words l) = .ok o) :
    parseLines k (l :: ls) = (parseLines (k + 1) ls).map (o.toList ++ ·) := by
  rw [parseLines, h]

/-- **The first line is looked at first**, and the others only if nothing is
wrong with it. -/
theorem parseLines_cons_eq_error_iff (e : ParseError) :
    parseLines k (l :: ls) = .error e
      ↔ Fault k l e ∨ (¬IsWrong l ∧ parseLines (k + 1) ls = .error e) := by
  cases hparse : Instruction.parseWords k (Text.words l) with
  | error e' =>
    have hwrong : IsWrong l :=
      exists_fault_iff.mp ⟨e', (parseWords_eq_error_iff e').mp hparse⟩
    rw [or_iff_left fun h => h.1 hwrong, parseLines_cons_of_error hparse,
      ← parseWords_eq_error_iff, hparse, Except.error.injEq, Except.error.injEq]
  | ok o =>
    have hright : ¬IsWrong l := not_isWrong_of_parseWords hparse
    have hfault : ¬Fault k l e := fun h => hright (exists_fault_iff.mp ⟨e, h⟩)
    rw [or_iff_right hfault, and_iff_right hright, parseLines_cons_of_ok hparse]
    cases parseLines (k + 1) ls with
    | error e' => exact Iff.rfl
    | ok is => exact iff_of_false (fun h => by cases h) (fun h => by cases h)

/-- **Lines are read one by one**, a line that is skipped adding nothing. -/
theorem parseLines_cons_eq_ok_iff (is : List Instruction) :
    parseLines k (l :: ls) = .ok is
      ↔ ∃ o is', Instruction.parseWords k (Text.words l) = .ok o
        ∧ parseLines (k + 1) ls = .ok is' ∧ o.toList ++ is' = is := by
  cases hparse : Instruction.parseWords k (Text.words l) with
  | error e =>
    rw [parseLines_cons_of_error hparse]
    refine iff_of_false (fun h => by cases h) ?_
    rintro ⟨o, is', ho, -⟩
    cases ho
  | ok o =>
    rw [parseLines_cons_of_ok hparse]
    cases parseLines (k + 1) ls with
    | error e =>
      refine iff_of_false (fun h => by cases h) ?_
      rintro ⟨o', is', -, his', -⟩
      cases his'
    | ok is' =>
      constructor
      · intro h
        cases h
        exact ⟨o, is', rfl, rfl, rfl⟩
      · rintro ⟨o', is'', ho', his'', rfl⟩
        cases ho'
        cases his''
        rfl

/-- **The fault of the first wrong line**, the lines being counted from `k`. -/
def FirstFault (k : ℕ) (ls : List (List Char)) (e : ParseError) : Prop :=
  ∃ j l, ls[j]? = some l ∧ Fault (k + j) l e
    ∧ ∀ i < j, ∀ l', ls[i]? = some l' → ¬IsWrong l'

theorem not_firstFault_nil {e : ParseError} : ¬FirstFault k [] e := by
  rintro ⟨j, l, hl, -⟩
  cases hl

/-- The first wrong line is the head, or the head is right and it is the first
of the others. -/
theorem firstFault_cons_iff {e : ParseError} :
    FirstFault k (l :: ls) e
      ↔ Fault k l e ∨ (¬IsWrong l ∧ FirstFault (k + 1) ls e) := by
  constructor
  · rintro ⟨j, l', hl', hfault, hbefore⟩
    cases j with
    | zero =>
      cases hl'
      exact .inl hfault
    | succ j =>
      refine .inr ⟨hbefore 0 (Nat.succ_pos j) l rfl, j, l', hl', ?_,
        fun i hi => hbefore (i + 1) (Nat.succ_lt_succ hi)⟩
      rwa [Nat.add_right_comm, Nat.add_assoc]
  · rintro (hfault | ⟨hright, j, l', hl', hfault, hbefore⟩)
    · exact ⟨0, l, rfl, hfault, fun i hi => absurd hi (Nat.not_lt_zero i)⟩
    · refine ⟨j + 1, l', hl', ?_, fun i hi l'' hl'' => ?_⟩
      · rwa [Nat.add_right_comm, Nat.add_assoc] at hfault
      · cases i with
        | zero =>
          cases hl''
          exact hright
        | succ i => exact hbefore i (Nat.lt_of_succ_lt_succ hi) l'' hl''

/-- Counted from zero, the line is the one that the error is about. -/
theorem firstFault_zero_iff {e : ParseError} :
    FirstFault 0 ls e
      ↔ ∃ l, ls[e.line]? = some l ∧ Fault e.line l e
        ∧ ∀ j < e.line, ∀ l', ls[j]? = some l' → ¬IsWrong l' := by
  constructor
  · rintro ⟨j, l, hl, hfault, hbefore⟩
    rw [Nat.zero_add] at hfault
    obtain rfl := hfault.line_eq
    exact ⟨l, hl, hfault, hbefore⟩
  · rintro ⟨l, hl, hfault, hbefore⟩
    exact ⟨e.line, l, hl, by rwa [Nat.zero_add], hbefore⟩

/-- **The lines give the error of the first wrong one.** -/
theorem parseLines_eq_error_iff (k : ℕ) (ls : List (List Char))
    (e : ParseError) : parseLines k ls = .error e ↔ FirstFault k ls e := by
  induction ls generalizing k with
  | nil => exact iff_of_false (fun h => by cases h) not_firstFault_nil
  | cons l ls ih =>
    rw [parseLines_cons_eq_error_iff, firstFault_cons_iff, ih (k + 1)]

/-- The instructions of the first line, if it is read, stand at the head. -/
theorem forall₂_codeLines_cons_iff {o : Option Instruction}
    (h : Instruction.parseWords k (Text.words l) = .ok o)
    (is : List Instruction) :
    List.Forall₂ IsInstruction (codeLines (l :: ls)) is
      ↔ ∃ is', List.Forall₂ IsInstruction (codeLines ls) is'
        ∧ o.toList ++ is' = is := by
  cases o with
  | none =>
    rw [codeLines_cons_of_blank (parseWords_eq_none_iff.mp h)]
    constructor
    · exact fun hall => ⟨is, hall, rfl⟩
    · rintro ⟨is', hall, rfl⟩
      exact hall
  | some i =>
    have hi := (parseWords_eq_some_iff i).mp h
    rw [codeLines_cons_of_not_blank hi.not_blank, List.forall₂_cons_left_iff]
    constructor
    · rintro ⟨j, is', hj, hall, rfl⟩
      -- a line is one instruction only
      have hij : i = j := by
        have hok := (parseWords_eq_some_iff (k := k) j).mpr hj
        rw [h] at hok
        cases hok
        rfl
      exact ⟨is', hall, by rw [hij]; rfl⟩
    · rintro ⟨is', hall, rfl⟩
      exact ⟨i, is', hi, hall, rfl⟩

/-- **Without a wrong line the lines give their instructions.** -/
theorem parseLines_eq_ok_iff (k : ℕ) (ls : List (List Char))
    (is : List Instruction) :
    parseLines k ls = .ok is
      ↔ (∀ l ∈ ls, ¬IsWrong l)
        ∧ List.Forall₂ IsInstruction (codeLines ls) is := by
  induction ls generalizing k is with
  | nil =>
    constructor
    · intro h
      cases h
      exact ⟨fun l hl => absurd hl List.not_mem_nil, List.Forall₂.nil⟩
    · rintro ⟨-, h⟩
      cases h
      rfl
  | cons l ls ih =>
    rw [parseLines_cons_eq_ok_iff, List.forall_mem_cons]
    constructor
    · rintro ⟨o, is', ho, his', happend⟩
      obtain ⟨hls, hall⟩ := (ih (k + 1) is').mp his'
      exact ⟨⟨not_isWrong_of_parseWords ho, hls⟩,
        (forall₂_codeLines_cons_iff ho is).mpr ⟨is', hall, happend⟩⟩
    · rintro ⟨⟨hright, hls⟩, hall⟩
      obtain ⟨o, ho⟩ := exists_parseWords_of_not_isWrong (k := k) hright
      obtain ⟨is', hall', happend⟩ := (forall₂_codeLines_cons_iff ho is).mp hall
      exact ⟨o, is', ho, (ih (k + 1) is').mpr ⟨hls, hall'⟩, happend⟩

/-! ## The text -/

theorem parse_eq_error_iff (source : String) (e : ParseError) :
    parse source = .error e
      ↔ parseLines 0 (Text.lines source.toList) = .error e := by
  unfold parse
  cases parseLines 0 (Text.lines source.toList) with
  | error e' => simp [Except.map]
  | ok is => simp [Except.map]

theorem parse_eq_ok_iff (source : String) (p : Program) :
    parse source = .ok p
      ↔ parseLines 0 (Text.lines source.toList) = .ok p.toList := by
  unfold parse
  cases parseLines 0 (Text.lines source.toList) with
  | error e => simp [Except.map]
  | ok is =>
    show Except.ok (ofList is) = .ok p ↔ Except.ok is = .ok p.toList
    rw [Except.ok.injEq, Except.ok.injEq]
    exact ⟨fun h => by rw [← h, toList_ofList], fun h => by rw [h]; rfl⟩

/-- Lists that agree entry by entry, by index. -/
theorem forall₂_toList_iff (ls : List (List Char)) (p : Program) :
    List.Forall₂ IsInstruction ls p.toList
      ↔ p.size = ls.length ∧ ∀ (n : ℕ) (l : List Char), ls[n]? = some l →
          ∃ i, p.get? n = some i ∧ IsInstruction l i := by
  rw [List.forall₂_iff_get, ← length_toList, eq_comm]
  refine and_congr_right fun hsize => ?_
  constructor
  · intro h n l hl
    obtain ⟨hn, rfl⟩ := List.getElem?_eq_some_iff.mp hl
    have hn' : n < p.toList.length := by rwa [hsize]
    exact ⟨p.toList[n], by rw [get?_eq_toList, List.getElem?_eq_getElem hn'],
      h n hn hn'⟩
  · intro h n hn hn'
    obtain ⟨i, hi, hl⟩ := h n ls[n] (List.getElem?_eq_getElem hn)
    rw [get?_eq_toList, List.getElem?_eq_getElem hn', Option.some.injEq] at hi
    rw [List.get_eq_getElem, List.get_eq_getElem, hi]
    exact hl

/-- **A program is read line by line.** The lines are the text cut at its line
feeds. The text is refused exactly with the fault of the first wrong line, and
it is the program `p` exactly if no line is wrong and the instructions of `p`
are those of the lines that are not blank, one for one. -/
theorem parse_reads_lines (source : String) :
    (['\n'].intercalate (Text.lines source.toList) = source.toList
      ∧ ∀ l ∈ Text.lines source.toList, '\n' ∉ l)
      ∧ (∀ e, parse source = .error e
          ↔ ∃ l, (Text.lines source.toList)[e.line]? = some l
            ∧ Fault e.line l e
            ∧ ∀ j < e.line, ∀ l', (Text.lines source.toList)[j]? = some l' →
              ¬IsWrong l')
      ∧ ∀ p, parse source = .ok p
          ↔ (∀ l ∈ Text.lines source.toList, ¬IsWrong l)
            ∧ p.size = (codeLines (Text.lines source.toList)).length
            ∧ ∀ (n : ℕ) (l : List Char),
                (codeLines (Text.lines source.toList))[n]? = some l →
                  ∃ i, p.get? n = some i ∧ IsInstruction l i := by
  refine ⟨⟨Text.intercalate_lines _, fun l => Text.newline_notMem_of_mem_lines⟩,
    fun e => ?_, fun p => ?_⟩
  · rw [parse_eq_error_iff, parseLines_eq_error_iff, firstFault_zero_iff]
  · rw [parse_eq_ok_iff, parseLines_eq_ok_iff, forall₂_toList_iff]

end Program

end RegisterMachine
