import RegisterMachine.Numeral
import RegisterMachine.Program.Basic
import RegisterMachine.Text.Split

/-!
# Reading programs

A line with no word is skipped. Any other line is one instruction: its first
word is the mnemonic, its second the operand, and the words after that are
not looked at. A `hold` keeps its operand if that is a numeral and has none
otherwise; every other opcode needs one. The lines are read in order and the
first bad one ends the reading; it is named by its index among all lines,
skipped ones included, while instructions are counted without them.
-/

namespace RegisterMachine

/-- **Why a text is no program**, and at which line, counted from zero. -/
inductive ParseError where
  /-- The first word of the line stands for no opcode. -/
  | unknownOpcode (line : Nat) (mnemonic : String)
  /-- The second word is no numeral, or there is none. -/
  | invalidOperand (line : Nat) (token : Option String)
  deriving DecidableEq, Repr

namespace ParseError

/-- The index of the bad line. -/
def line : ParseError → Nat
  | .unknownOpcode line _ => line
  | .invalidOperand line _ => line

/-- The same error so many lines further down. -/
def shift (n : Nat) : ParseError → ParseError
  | .unknownOpcode line mnemonic => .unknownOpcode (line + n) mnemonic
  | .invalidOperand line token => .invalidOperand (line + n) token

/-- What is wrong, without the place. -/
def reason : ParseError → String
  | .unknownOpcode _ mnemonic => "unknown opcode `" ++ mnemonic ++ "`"
  | .invalidOperand _ (some token) =>
    "invalid operand `" ++ token ++ "`, expected a number"
  | .invalidOperand _ none => "missing operand"

/-- **The message of an error**; lines are counted from one in it. -/
def message (e : ParseError) : String :=
  "line " ++ toString (e.line + 1) ++ ": " ++ e.reason

@[simp] theorem line_shift (n : Nat) (e : ParseError) :
    (e.shift n).line = e.line + n := by
  cases e <;> rfl

end ParseError

/-- **Reads one line**, given its words and its index: an instruction, nothing
if there is no word, or what is wrong with it. -/
def Instruction.parseWords (line : Nat) :
    List (List Char) → Except ParseError (Option Instruction)
  | [] => .ok none
  | first :: others =>
    match Opcode.ofMnemonic? (String.ofList first) with
    | none => .error (.unknownOpcode line (String.ofList first))
    | some opcode =>
      let operand := (others.head?.bind Numeral.parse?).map Numeral.value
      if opcode.requiresOperand && operand.isNone then
        .error (.invalidOperand line (others.head?.map String.ofList))
      else .ok (some ⟨opcode, operand⟩)

namespace Program

/-- **Reads lines in order**, the first with the given index, and stops at
the first bad one. -/
def parseLines (line : Nat) :
    List (List Char) → Except ParseError (List Instruction)
  | [] => .ok []
  | l :: ls =>
    match Instruction.parseWords line (Text.words l) with
    | .error e => .error e
    | .ok i => (parseLines (line + 1) ls).map (i.toList ++ ·)

/-- **Reads a program.** -/
def parse (source : String) : Except ParseError Program :=
  (parseLines 0 (Text.lines source.toList)).map ofList

/-- **The line that an error is about**, as it stands in the source but for
the blanks at its end. -/
def excerpt? (source : String) (line : Nat) : Option String :=
  (Text.lines source.toList)[line]?.map fun l =>
    String.ofList (Text.trimEnd l)

end Program

end RegisterMachine
