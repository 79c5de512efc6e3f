import RegisterMachine.Binary64.Integer
import RegisterMachine.Decimal.Notation
import RegisterMachine.Decimal.Shortest
import RegisterMachine.Opcode

/-!
# Instructions

An instruction is an opcode and an operand; a `hold` may go without. The
operand is kept as the binary64 number that was written, whole or not: only
when the instruction executes is it asked for an integer.

As text a whole operand below `10 ^ 15` is an integer and any other finite
one is written with the fewest digits that read back, positionally; zero has
no sign.
-/

namespace RegisterMachine

-- powers are those of the core library, whatever else is in scope
attribute [local instance (high)] instPowNat

/-- **An instruction.** -/
structure Instruction where
  /-- What it does. -/
  opcode : Opcode
  /-- What it does it with; a `hold` can do without. -/
  operand : Option Binary64
  deriving DecidableEq, Repr

/-- The number as text in shortest digits, positionally, a tie going to the
greater neighbour. -/
def Binary64.plainText (x : Binary64) : String :=
  let sign := if x.negative then "-" else ""
  if x.isFinite then
    sign ++ String.ofList (Decimal.shortest .up x).positional
  else if x.isInfinite then sign ++ "inf"
  else "NaN"

/-- **The number as an operand**: a whole number below `10 ^ 15` is written as
an integer. -/
def Binary64.operandText (x : Binary64) : String :=
  match x.toInt? with
  | some n => if n.natAbs < 10 ^ (15 : Nat) then toString n else x.plainText
  | none => x.plainText

namespace Instruction

/-- An instruction with an integer operand, rounded to binary64. -/
def ofInt (opcode : Opcode) (operand : Int64) : Instruction :=
  ⟨opcode, some (.ofInt operand.toInt)⟩

/-- **The operand as a machine word**, if there is one and it is whole and in
range. -/
def integerOperand? (i : Instruction) : Option Int64 :=
  i.operand.bind Binary64.toInt64?

/-- **The instruction as a line of source text.** -/
def text (i : Instruction) : String :=
  match i.operand with
  | some x => i.opcode.mnemonic ++ " " ++ x.operandText
  | none => i.opcode.mnemonic

/-- Equality of instructions with operands compared as numbers. -/
def numEq (i j : Instruction) : Bool :=
  i.opcode == j.opcode &&
    match i.operand, j.operand with
    | some x, some y => x.numEq y
    | none, none => true
    | _, _ => false

@[simp] theorem integerOperand?_none (op : Opcode) :
    integerOperand? ⟨op, none⟩ = none := rfl

@[simp] theorem text_none (op : Opcode) : text ⟨op, none⟩ = op.mnemonic := rfl

end Instruction

end RegisterMachine
