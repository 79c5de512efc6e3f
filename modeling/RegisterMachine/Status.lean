import RegisterMachine.Json.Value

/-!
# The outcome of a tick

A tick either executes an instruction and goes on, or says why it did not: a
`hold` was reached, the counter addresses no instruction, or the operand is
not one the instruction can use. The last two are faults. Each outcome has a
code, by which it is stored.
-/

namespace RegisterMachine

/-- **The outcome of a tick.** -/
inductive Status where
  /-- An instruction was executed. -/
  | continued
  /-- A `hold` was reached. -/
  | halted
  /-- The counter addresses no instruction. -/
  | noInstruction
  /-- The operand is missing, not a whole number, or not allowed here. -/
  | invalidOperand
  deriving DecidableEq, Repr, Inhabited

namespace Status

/-- **The code of an outcome.** -/
def code : Status → Int
  | .continued => 1
  | .halted => 0
  | .noInstruction => -1
  | .invalidOperand => -2

/-- **The outcome of a code**, if it is the code of one. -/
def ofCode? : Int → Option Status
  | 1 => some .continued
  | 0 => some .halted
  | -1 => some .noInstruction
  | -2 => some .invalidOperand
  | _ => none

/-- The name of an outcome. -/
def name : Status → String
  | .continued => "Continue"
  | .halted => "Halted"
  | .noInstruction => "NoInstruction"
  | .invalidOperand => "InvalidOperand"

/-- What an outcome means. -/
def meaning : Status → String
  | .continued => "running"
  | .halted => "halted"
  | .noInstruction => "no instruction at program counter"
  | .invalidOperand => "invalid operand"

/-- **The text of an outcome**: its meaning and its code. -/
def text (s : Status) : String :=
  s.meaning ++ " (" ++ toString s.code ++ ")"

/-- Whether the machine goes on. -/
def isContinue (s : Status) : Bool := s == .continued

/-- Whether the outcome is a fault. -/
def isError (s : Status) : Bool :=
  s == .noInstruction || s == .invalidOperand

/-- The message for a code that no outcome has. -/
def unknownCodeMessage (code : Int) : String :=
  "unknown status code " ++ toString code

/-- An outcome as JSON: its code. -/
def toJson (s : Status) : Json := .int s.code

/-- **Reads an outcome** from the JSON text of its code, an integer of eight
bits. -/
def reader : Json.Reader Status := fun s => do
  let r ← Json.integer (-128) 127 s
  match ofCode? r.value with
  | some status => .ok (r.map fun _ => status)
  | none => .error .unexpected

@[simp] theorem ofCode?_code (s : Status) : ofCode? s.code = some s := by
  cases s <;> rfl

/-- Only codes of outcomes are read. -/
theorem code_of_ofCode? {n : Int} {s : Status} (h : ofCode? n = some s) :
    s.code = n := by
  unfold ofCode? at h
  split at h <;> simp_all [code] <;> subst h <;> rfl

end Status

end RegisterMachine
