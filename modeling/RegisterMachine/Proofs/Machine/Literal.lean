import RegisterMachine.Proofs.Binary64.Word
import RegisterMachine.Proofs.Machine.Tick
import RegisterMachine.Proofs.Numeral.Rounding
import RegisterMachine.Proofs.Program.Reparse

/-!
# From a word to text and back into the accumulator

A machine word is written in decimal behind a mnemonic, read as a double, and
used as a word again. The line is read as the instruction with that operand,
whatever the opcode (`Program.parse_mnemonic_toString`), so all that can happen
to the word happens in double precision (`RegisterMachine.Proofs.Binary64.Word`):
it is rounded, and near the upper end of the range it is rounded out of it.

`Machine.literal_round_trip` follows a word from the line into the accumulator
of a machine that loads the line and steps once.
-/

namespace RegisterMachine

/-! ## The line -/

/-- **An integer behind a mnemonic is read as the instruction with that
operand**, rounded once. -/
theorem Instruction.parseWords_mnemonic_toString (k : ℕ) (op : Opcode)
    (n : ℤ) :
    parseWords k (Text.words (op.mnemonic ++ " " ++ toString n).toList)
      = .ok (some ⟨op, some (.ofInt n)⟩) := by
  obtain ⟨hne, hword⟩ := Binary64.isWord_toString_int n
  have hvalue : (Numeral.parse? (toString n).toList).map Numeral.value
      = some (.ofInt n) := by
    rw [Numeral.parse?_value_eq_ofRat (Numeral.spells_toString n),
      ← Binary64.ofInt_eq_ofRat]
  rw [words_mnemonic_append op hne hword, parseWords, String.ofList_toList,
    Opcode.ofMnemonic?_mnemonic]
  dsimp only
  rw [List.head?_cons, Option.bind_some, hvalue, Option.isNone_some,
    Bool.and_false]
  rfl

/-- **That line is a program of one instruction.** -/
theorem Program.parse_mnemonic_toString (op : Opcode) (n : ℤ) :
    parse (op.mnemonic ++ " " ++ toString n)
      = .ok (ofList [⟨op, some (.ofInt n)⟩]) := by
  have hline : Text.IsNarrow (op.mnemonic ++ " " ++ toString n) :=
    Instruction.isNarrow_mnemonic_append op (Text.isNarrow_toString_int n)
  rw [parse_eq_ok_iff, Text.lines_eq_singleton hline.newline_notMem,
    parseLines_cons_of_ok (Instruction.parseWords_mnemonic_toString 0 op n)]
  rfl

namespace Machine

/-! ## The machine -/

/-- **A literal goes into the accumulator** if it is a word, and nothing
happens otherwise. -/
theorem advance_of_loadi {m : Machine} {i : Instruction}
    (hi : m.current? = some i) (hop : i.opcode = .loadi) :
    m.advance = match i.integerOperand? with
      | none => (.invalidOperand, m)
      | some w => (.continued,
          { m with
            registers := m.registers.setAcc w
            counter := m.counter + 1
            cycles := m.cycles + 1 }) := by
  unfold advance
  rw [hi]
  dsimp only
  rw [if_neg (by rw [hop]; decide), hop]
  cases i.integerOperand? <;> rfl

/-- **A word is read back, rounded.** The line of an opcode and a word is the
program of that one instruction. Its integer operand is the word that the
nearest double stands for; there is none exactly from `2 ^ 63 - 512` on, where
that double is past the range, and up to `2 ^ 53` it is the word itself. A
machine with an accumulator that loads a `loadi` of the word and steps goes on
with the rounded word in it; where there is none, accumulator and counter stay
as they were. -/
theorem literal_round_trip (op : Opcode) (n : Int64) :
    Program.parse (op.mnemonic ++ " " ++ toString n.toInt)
        = .ok (.ofList [.ofInt op n])
      ∧ ((Instruction.ofInt op n).integerOperand? = none
          ↔ 2 ^ 63 - 512 ≤ n.toInt)
      ∧ (∀ w, (Instruction.ofInt op n).integerOperand? = some w
          ↔ Binary64.IsNearestWord n w)
      ∧ (n.toInt.natAbs ≤ 2 ^ 53 →
          (Instruction.ofInt op n).integerOperand? = some n)
      ∧ ∀ m : Machine, 0 < m.registers.size →
          ∃ loaded, m.loadSource ("loadi " ++ toString n.toInt)
              = (.ok 1, loaded)
            ∧ loaded.counter = 0 ∧ loaded.acc = m.acc
            ∧ (n.toInt < 2 ^ 63 - 512 →
                loaded.step.1 = .continued
                  ∧ Binary64.IsNearestWord n loaded.step.2.acc)
            ∧ (2 ^ 63 - 512 ≤ n.toInt →
                loaded.step.1 = .invalidOperand
                  ∧ loaded.step.2.acc = loaded.acc
                  ∧ loaded.step.2.counter = loaded.counter) := by
  refine ⟨Program.parse_mnemonic_toString op n.toInt,
    Binary64.toInt64?_ofInt_eq_none_iff n,
    Binary64.toInt64?_ofInt_eq_some_iff n,
    Binary64.toInt64?_ofInt_of_natAbs_le n, fun m hm => ?_⟩
  set loaded := m.load (.ofList [.ofInt .loadi n]) with hloaded
  have hparse : Program.parse ("loadi " ++ toString n.toInt)
      = .ok (.ofList [.ofInt .loadi n]) :=
    Program.parse_mnemonic_toString .loadi n.toInt
  have hadvance := advance_of_loadi (m := loaded) (i := .ofInt .loadi n) rfl rfl
  refine ⟨loaded, ?_, rfl, rfl, fun hsmall => ?_, fun hbig => ?_⟩
  · unfold loadSource
    rw [hparse]
    rfl
  · obtain ⟨w, hw⟩ := Option.ne_none_iff_exists'.mp fun hnone =>
      not_le.mpr hsmall ((Binary64.toInt64?_ofInt_eq_none_iff n).mp hnone)
    have hoperand : (Instruction.ofInt .loadi n).integerOperand? = some w := hw
    rw [hoperand] at hadvance
    unfold step
    rw [hadvance]
    refine ⟨rfl, ?_⟩
    show Binary64.IsNearestWord n ((m.registers.setAcc w).read 0)
    rw [Registers.read_setAcc, if_pos ⟨rfl, hm⟩]
    exact (Binary64.toInt64?_ofInt_eq_some_iff n w).mp hw
  · have hoperand : (Instruction.ofInt .loadi n).integerOperand? = none :=
      (Binary64.toInt64?_ofInt_eq_none_iff n).mpr hbig
    rw [hoperand] at hadvance
    unfold step
    rw [hadvance]
    exact ⟨rfl, rfl, rfl⟩

/-- **The two words at the end of the range**, on a machine as it is first set
up: the one is rounded down to the last double, and the next out of the
range. -/
theorem last_literals :
    0 < (new .standard).registers.size
      ∧ (∃ loaded, (new .standard).loadSource "loadi 9223372036854775295"
          = (.ok 1, loaded)
        ∧ loaded.step.1 = .continued
        ∧ Binary64.IsNearestWord 9223372036854775295 9223372036854774784
        ∧ Binary64.IsNearestWord 9223372036854775295 loaded.step.2.acc)
      ∧ ∃ loaded, (new .standard).loadSource "loadi 9223372036854775296"
          = (.ok 1, loaded)
        ∧ loaded.step.1 = .invalidOperand
        ∧ loaded.step.2.acc = 0 ∧ loaded.step.2.counter = 0 := by
  have hm : 0 < (new .standard).registers.size := by decide +kernel
  refine ⟨hm, ?_, ?_⟩
  · obtain ⟨-, -, hword, -, hloads⟩ :=
      literal_round_trip .loadi 9223372036854775295
    obtain ⟨loaded, hload, -, -, hrounded, -⟩ := hloads (new .standard) hm
    have hin : (9223372036854775295 : Int64).toInt < 2 ^ 63 - 512 := by
      decide +kernel
    obtain ⟨hstatus, hacc⟩ := hrounded hin
    exact ⟨loaded, hload, hstatus, (hword _).mp (by decide +kernel), hacc⟩
  · obtain ⟨-, -, -, -, hloads⟩ :=
      literal_round_trip .loadi 9223372036854775296
    obtain ⟨loaded, hload, hcounter, hacc, -, hrefused⟩ :=
      hloads (new .standard) hm
    have hout : (2 : ℤ) ^ 63 - 512 ≤ (9223372036854775296 : Int64).toInt := by
      decide +kernel
    obtain ⟨hstatus, hacc', hcounter'⟩ := hrefused hout
    have hzero : (new .standard).acc = 0 := by simp [acc, new, Registers.acc]
    exact ⟨loaded, hload, hstatus, (hacc'.trans hacc).trans hzero,
      hcounter'.trans hcounter⟩

end Machine

end RegisterMachine
