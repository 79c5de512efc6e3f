/-!
# The instruction set

Sixteen opcodes, each with at most one operand. Register zero is the
accumulator, and every data and arithmetic instruction reads or writes it.
The order of `Opcode.all` is the one in which the set is described.
-/

namespace RegisterMachine

/-- **A machine opcode.** -/
inductive Opcode where
  /-- Accumulator from a register. -/
  | load
  /-- Accumulator from the operand itself. -/
  | loadi
  /-- Accumulator into a register. -/
  | store
  /-- Jump. -/
  | jmp
  /-- Jump if the accumulator is zero. -/
  | jeq
  /-- Jump if it is not negative. -/
  | jge
  /-- Jump if it is not positive. -/
  | jle
  /-- Jump if it is positive. -/
  | jgt
  /-- Jump if it is negative. -/
  | jlt
  /-- Stop. -/
  | hold
  /-- Add a register. -/
  | add
  /-- Subtract a register. -/
  | sub
  /-- Multiply by a register. -/
  | mul
  /-- Divide by a register. -/
  | div
  /-- Accumulator from the register that a register names. -/
  | loadind
  /-- Accumulator into the register that a register names. -/
  | storeind
  deriving DecidableEq, Repr, Inhabited

/-- **How an instruction takes its operand.** -/
inductive OperandKind where
  /-- As a value. -/
  | immediate
  /-- As the index of a register, at least one. -/
  | register
  /-- As the index of an instruction, at least one. -/
  | target
  /-- Not at all. -/
  | unused
  deriving DecidableEq, Repr

namespace OperandKind

/-- The name of a kind. -/
def name : OperandKind → String
  | .immediate => "Immediate"
  | .register => "Register"
  | .target => "Target"
  | .unused => "None"

end OperandKind

namespace Opcode

/-- **Every opcode**, in the order of their description. -/
def all : List Opcode :=
  [.load, .loadi, .store, .jmp, .jeq, .jge, .jle, .jgt, .jlt, .hold,
   .add, .sub, .mul, .div, .loadind, .storeind]

theorem mem_all (op : Opcode) : op ∈ all := by
  cases op <;> decide

/-- **The word that stands for an opcode** in source text. -/
def mnemonic : Opcode → String
  | .load => "load"
  | .loadi => "loadi"
  | .store => "store"
  | .jmp => "jmp"
  | .jeq => "jeq"
  | .jge => "jge"
  | .jle => "jle"
  | .jgt => "jgt"
  | .jlt => "jlt"
  | .hold => "hold"
  | .add => "add"
  | .sub => "sub"
  | .mul => "mul"
  | .div => "div"
  | .loadind => "loadind"
  | .storeind => "storeind"

/-- **The opcode of a word**; case matters. -/
def ofMnemonic? (s : String) : Option Opcode :=
  all.find? fun op => op.mnemonic == s

/-- One line about an opcode. -/
def description : Opcode → String
  | .load => "load register x into ACC"
  | .loadi => "load the literal x into ACC"
  | .store => "store ACC into register x"
  | .loadind => "load the register addressed by register x into ACC"
  | .storeind => "store ACC into the register addressed by register x"
  | .jmp => "jump to instruction x"
  | .jeq => "jump to instruction x if ACC = 0"
  | .jge => "jump to instruction x if ACC >= 0"
  | .jle => "jump to instruction x if ACC <= 0"
  | .jgt => "jump to instruction x if ACC > 0"
  | .jlt => "jump to instruction x if ACC < 0"
  | .hold => "halt the machine"
  | .add => "add register x to ACC"
  | .sub => "subtract register x from ACC"
  | .mul => "multiply ACC by register x"
  | .div => "divide ACC by register x"

/-- How the opcode takes its operand. -/
def operandKind : Opcode → OperandKind
  | .loadi => .immediate
  | .hold => .unused
  | .jmp | .jeq | .jge | .jle | .jgt | .jlt => .target
  | .load | .store | .loadind | .storeind | .add | .sub | .mul | .div =>
    .register

/-- Whether an instruction with this opcode has to have an operand. -/
def requiresOperand (op : Opcode) : Bool := op.operandKind != .unused

/-- Whether the opcode may send the program counter elsewhere. -/
def isJump (op : Opcode) : Bool := op.operandKind == .target

/-- **Whether a jump is taken**, by the accumulator; an opcode that is no jump
never is. -/
def jumps (op : Opcode) (acc : Int64) : Bool :=
  match op with
  | .jmp => true
  | .jeq => decide (acc = 0)
  | .jge => decide (0 ≤ acc)
  | .jle => decide (acc ≤ 0)
  | .jgt => decide (0 < acc)
  | .jlt => decide (acc < 0)
  | _ => false

/-- **The mnemonic determines the opcode.** -/
@[simp] theorem ofMnemonic?_mnemonic (op : Opcode) :
    ofMnemonic? op.mnemonic = some op := by
  cases op <;> decide

theorem mnemonic_of_ofMnemonic? {s : String} {op : Opcode}
    (h : ofMnemonic? s = some op) : op.mnemonic = s := by
  have := List.find?_some h
  simpa using this

@[simp] theorem requiresOperand_eq_false (op : Opcode) :
    op.requiresOperand = false ↔ op = .hold := by
  cases op <;> decide

end Opcode

/-- The message for a word that stands for no opcode. -/
def unknownMnemonicMessage (s : String) : String :=
  "unknown mnemonic `" ++ s ++ "`"

end RegisterMachine
