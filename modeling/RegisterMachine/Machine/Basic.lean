import RegisterMachine.Program.Parser
import RegisterMachine.Registers.Basic
import RegisterMachine.Settings.Basic
import RegisterMachine.Status

/-!
# The machine

A machine holds registers, a program and a counter into it, and some
bookkeeping: whether a run is under way, the outcome of the last recorded
tick, and how many ticks have gone on since the program was loaded or the
machine reset.

`advance` is the whole execution cycle and the only place where registers or
counter follow a program; it changes nothing unless it goes on. Everything
else is bookkeeping around it: `step` records the outcome, `tick` does so only
during a run and ends the run when the machine does not go on, and `run`
steps up to a limit.
-/

namespace RegisterMachine

/-- **A register machine.** -/
structure Machine where
  /-- The register file; register zero is the accumulator. -/
  registers : Registers
  /-- The loaded program. -/
  program : Program
  /-- The index of the next instruction. -/
  counter : Nat
  /-- Delay, number of registers and reset span. -/
  settings : Settings
  /-- Whether a run is under way. -/
  running : Bool
  /-- The outcome of the last recorded tick. -/
  lastStatus : Status
  /-- Ticks that went on since the last load or reset. -/
  cycles : UInt64
  deriving DecidableEq, Repr

/-- What a run up to a limit came to. -/
structure Outcome where
  /-- The outcome of the last tick; that of going on if there was none. -/
  status : Status
  /-- How many ticks there were, the last one included. -/
  ticks : Nat
  deriving DecidableEq, Repr

/-- **The quotient of two words**, cut off toward zero. A divisor of zero has
none, and neither has the one quotient that is no word. -/
def quotient? (a b : Int64) : Option Int64 :=
  if b = 0 ∨ (a = Int64.minValue ∧ b = -1) then none else some (a / b)

namespace Registers

/-- **What an instruction does** to the registers and to the counter, given
its operand; nothing if it cannot use the operand. Except for a literal, the
operand names a register or an instruction and is at least one. -/
def execute? (r : Registers) (counter : Nat) (op : Opcode) (x : Int64) :
    Option (Registers × Nat) :=
  if op ≠ .loadi ∧ x < 1 then none
  else
    let next := counter + 1
    let n := x.toNatClampNeg
    match op with
    | .loadi => some (r.setAcc x, next)
    | .load => some (r.setAcc (r.read n), next)
    | .store => (r.write? n r.acc).map (·, next)
    | .loadind =>
      if r.read n < 0 then none
      else some (r.setAcc (r.read (r.read n).toNatClampNeg), next)
    | .storeind =>
      if r.read n < 0 then none
      else (r.write? (r.read n).toNatClampNeg r.acc).map (·, next)
    | .add => some (r.setAcc (r.acc + r.read n), next)
    | .sub => some (r.setAcc (r.acc - r.read n), next)
    | .mul => some (r.setAcc (r.acc * r.read n), next)
    | .div => (quotient? r.acc (r.read n)).map fun q => (r.setAcc q, next)
    | .jmp | .jeq | .jge | .jle | .jgt | .jlt =>
      some (r, if op.jumps r.acc then n else next)
    | .hold => none

end Registers

namespace Machine

/-- **A machine with the given settings**, all registers zero and no
program. -/
def new (settings : Settings) : Machine where
  registers := .zero settings.registerCount.toNat
  program := .empty
  counter := 0
  settings := settings
  running := false
  lastStatus := .halted
  cycles := 0

instance : Inhabited Machine := ⟨new .standard⟩

/-! ## Observation -/

/-- The accumulator. -/
def acc (m : Machine) : Int64 := m.registers.acc

/-- The milliseconds between ticks while running. -/
def delay (m : Machine) : UInt64 := m.settings.delay

/-- The instruction that the counter addresses, if any. -/
def current? (m : Machine) : Option Instruction := m.program.get? m.counter

/-- The machine for inspection. -/
def outline (m : Machine) : Outline :=
  .record "Machine"
    [("pc", .leaf (toString m.counter)),
     ("running", .leaf (toString m.running)),
     ("last_status", .leaf m.lastStatus.name),
     ("cycles", .leaf (toString m.cycles)),
     ("registers", m.registers.outline)]

/-! ## Loading -/

/-- **Loads a program** and goes back to its beginning. The registers keep
their values, and a run goes on. -/
def load (m : Machine) (p : Program) : Machine :=
  { m with program := p, counter := 0, cycles := 0 }

/-- **Reads and loads a program**: how many instructions it has, or why it
was not loaded. -/
def loadSource (m : Machine) (source : String) :
    Except ParseError Nat × Machine :=
  match Program.parse source with
  | .error e => (.error e, m)
  | .ok p => (.ok p.size, m.load p)

/-! ## Execution -/

/-- **Executes the instruction at the counter.** Nothing changes unless the
machine goes on. -/
def advance (m : Machine) : Status × Machine :=
  match m.current? with
  | none => (.noInstruction, m)
  | some i =>
    if i.opcode = .hold then (.halted, m)
    else
      match i.integerOperand?.bind
          (m.registers.execute? m.counter i.opcode) with
      | none => (.invalidOperand, m)
      | some (registers, counter) =>
        (.continued, { m with registers, counter, cycles := m.cycles + 1 })

/-- **Executes one instruction and records the outcome.** -/
def step (m : Machine) : Status × Machine :=
  let (status, m) := m.advance
  (status, { m with lastStatus := status })

/-- Ends a run, if one is under way. -/
def stop (m : Machine) : Machine := { m with running := false }

/-- **Begins a run** with a delay between its ticks. -/
def start (m : Machine) (delay : UInt64) : Machine :=
  { m with settings := { m.settings with delay }, running := true }

/-- Sets the delay alone. -/
def setDelay (m : Machine) (delay : UInt64) : Machine :=
  { m with settings := { m.settings with delay } }

/-- **A tick of a run**: nothing outside a run; a step, which ends the run
unless the machine goes on. -/
def tick (m : Machine) : Option Status × Machine :=
  if m.running then
    let (status, m) := m.step
    (some status, if status.isContinue then m else m.stop)
  else (none, m)

/-- **Goes back to the beginning of the program**, ends a run, and clears the
registers below the reset span. -/
def reset (m : Machine) : Machine :=
  { m with
    registers := m.registers.clear m.settings.resetSpan.toNat
    counter := 0
    running := false
    lastStatus := .halted
    cycles := 0 }

/-- Steps up to a limit, some ticks having been made already. -/
def runFrom (ticks : Nat) : (limit : Nat) → Machine → Outcome × Machine
  | 0, m => (⟨.continued, ticks⟩, m)
  | limit + 1, m =>
    let (status, m) := m.step
    if status.isContinue then runFrom (ticks + 1) limit m
    else (⟨status, ticks + 1⟩, m)

/-- **Steps until the machine does not go on**, or up to a limit. -/
def run (m : Machine) (limit : Nat) : Outcome × Machine := runFrom 0 limit m

/-- **The steps of a run up to a limit**: the outcome of each, and the machine
after it. -/
def trace (m : Machine) : (limit : Nat) → List (Status × Machine)
  | 0 => []
  | limit + 1 =>
    let step := m.step
    step :: if step.1.isContinue then step.2.trace limit else []

/-! ## Small laws -/

@[simp] theorem fst_step (m : Machine) : m.step.1 = m.advance.1 := rfl

@[simp] theorem lastStatus_step (m : Machine) :
    m.step.2.lastStatus = m.step.1 := rfl

/-- **A machine that does not go on is left as it was.** -/
theorem advance_snd_of_not_isContinue {m : Machine}
    (h : m.advance.1.isContinue = false) : m.advance.2 = m := by
  unfold advance at h ⊢
  split
  · rfl
  · split
    · rfl
    · split
      · rfl
      · simp_all [Status.isContinue]

@[simp] theorem tick_of_not_running {m : Machine} (h : m.running = false) :
    m.tick = (none, m) := by
  simp [tick, h]

@[simp] theorem run_zero (m : Machine) : m.run 0 = (⟨.continued, 0⟩, m) := rfl

end Machine

end RegisterMachine
