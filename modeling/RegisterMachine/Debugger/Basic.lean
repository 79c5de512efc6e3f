import RegisterMachine.Machine.Basic
import RegisterMachine.Ticker

/-!
# The debugger

A debugger shows one machine and drives it: by single steps, or in a run that
a ticker paces. After every command it has a notice for its user. The delay
can be halved and doubled, within bounds; machine and ticker are kept at the
same delay by every command here.

The point in time of a command comes with the command.
-/

namespace RegisterMachine

-- powers are those of the core library, whatever else is in scope
attribute [local instance (high)] instPowNat

/-- **What a debugger has to say** after its last command. -/
inductive Notice where
  /-- Nothing has happened yet. -/
  | ready
  /-- The instruction at an index was executed. -/
  | executed (counter : Nat) (instruction : String)
  /-- A `hold` was reached. -/
  | halted (counter : Nat) (cycles : UInt64)
  /-- The counter addresses no instruction. -/
  | noInstruction (counter : Nat)
  /-- The instruction at an index cannot use its operand. -/
  | invalidOperand (counter : Nat) (instruction : String)
  /-- A run was begun. -/
  | running (delay : UInt64)
  /-- A run was ended. -/
  | paused
  /-- The delay was changed. -/
  | delaySet (delay : UInt64)
  /-- The machine was reset. -/
  | reset
  deriving DecidableEq, Repr

/-- **The text of a notice.** -/
def Notice.text : Notice → String
  | .ready => "Ready. Press 's' to step, 'r' to run, 'q' to quit."
  | .executed counter i => Text.index counter ++ ": " ++ i
  | .halted counter cycles =>
    "Halted at " ++ Text.index counter ++ " after " ++ toString cycles
      ++ " cycles"
  | .noInstruction counter => "Error: no instruction at " ++ toString counter
  | .invalidOperand counter i =>
    "Error: invalid operand at " ++ Text.index counter ++ ": " ++ i
  | .running ms => "Running every " ++ toString ms ++ " ms..."
  | .paused => "Paused."
  | .delaySet ms => "Delay: " ++ toString ms ++ " ms"
  | .reset => "Reset. Ready."

/-- **A debugger.** -/
structure Debugger where
  /-- The machine that is debugged. -/
  machine : Machine
  /-- Paces the ticks of a run. -/
  ticker : Ticker
  /-- What there is to say. -/
  notice : Notice
  /-- The first register in view. -/
  scroll : Nat
  /-- Whether the user has asked to leave. -/
  leaving : Bool
  deriving DecidableEq, Repr

/-- **A line of the listing in view.** -/
structure ListingEntry where
  /-- The index of the instruction. -/
  index : Nat
  /-- The instruction. -/
  text : String
  /-- Whether the counter is here. -/
  isCurrent : Bool
  deriving DecidableEq, Repr

namespace Debugger

/-- The least delay that halving leads to. -/
def leastDelay : UInt64 := 10

/-- The greatest delay that doubling leads to. -/
def greatestDelay : UInt64 := 5000

/-- **Twice a delay**, the greatest word if that is no word. -/
def doubled (delay : UInt64) : UInt64 :=
  UInt64.ofNat (min (2 * delay.toNat) (2 ^ (64 : Nat) - 1))

/-- The delay within the bounds that is nearest a given one. -/
def bounded (delay : UInt64) : UInt64 :=
  if delay < leastDelay then leastDelay
  else if greatestDelay < delay then greatestDelay
  else delay

/-- **The next delay** on the way to a faster or a slower run. -/
def scaled (faster : Bool) (delay : UInt64) : UInt64 :=
  bounded (if faster then delay / 2 else doubled delay)

/-- **A debugger for a machine and a program.** -/
def new (machine : Machine) (program : Program) (now : Instant) :
    Debugger where
  machine := machine.load program
  ticker := .new (.ofMillis machine.delay.toNat) now
  notice := .ready
  scroll := 0
  leaving := false

/-- The notice after a tick that began at an index. -/
def report (m : Machine) (counter : Nat) (status : Status) : Notice :=
  let instruction := ((m.program.get? counter).map Instruction.text).getD "---"
  match status with
  | .continued => .executed counter instruction
  | .halted => .halted counter m.cycles
  | .noInstruction => .noInstruction counter
  | .invalidOperand => .invalidOperand counter instruction

/-- **Executes one instruction.** -/
def step (d : Debugger) : Debugger :=
  let (status, machine) := d.machine.step
  { d with machine, notice := report machine d.machine.counter status }

/-- **Begins a run** at the delay of the machine. -/
def run (d : Debugger) (now : Instant) : Debugger :=
  { d with
    machine := d.machine.start d.machine.delay
    ticker := d.ticker.restart now
    notice := .running d.machine.delay }

/-- Ends a run. -/
def pause (d : Debugger) : Debugger :=
  { d with machine := d.machine.stop, notice := .paused }

/-- **Executes a tick of a run, if one is due.** -/
def tick (d : Debugger) (now : Instant) : Debugger :=
  if d.machine.running then
    let (due, ticker) := d.ticker.poll now
    let d := { d with ticker }
    if due then
      match d.machine.tick with
      | (some status, machine) =>
        { d with machine, notice := report machine d.machine.counter status }
      | (none, machine) => { d with machine }
    else d
  else d

/-- **Halves or doubles the delay.** A run goes on at the new one. -/
def scaleDelay (d : Debugger) (faster : Bool) (now : Instant) : Debugger :=
  let delay := scaled faster d.machine.delay
  { d with
    machine := d.machine.setDelay delay
    ticker := d.ticker.setInterval (.ofMillis delay.toNat) now
    notice := .delaySet delay }

/-- Resets the machine. -/
def reset (d : Debugger) : Debugger :=
  { d with machine := d.machine.reset, notice := .reset }

/-- **The listing in view**: so many lines, the counter in the middle as far
as the program goes. -/
def listing (d : Debugger) (lines : Nat) : List ListingEntry :=
  let counter := d.machine.counter
  ((d.machine.program.toList.zipIdx.drop (counter - lines / 2)).take lines).map
    fun e => ⟨e.2, e.1.text, e.2 == counter⟩

/-! ## Commands -/

/-- **What a user can ask of a debugger.** -/
inductive Command where
  /-- Execute one instruction. -/
  | step
  /-- Begin a run. -/
  | run (now : Instant)
  /-- End a run. -/
  | pause
  /-- Reset the machine. -/
  | reset
  /-- Halve or double the delay. -/
  | scaleDelay (faster : Bool) (now : Instant)
  /-- Let a tick happen, if one is due. -/
  | tick (now : Instant)
  deriving DecidableEq, Repr

/-- **Performs a command.** -/
def perform (d : Debugger) : Command → Debugger
  | .step => d.step
  | .run now => d.run now
  | .pause => d.pause
  | .reset => d.reset
  | .scaleDelay faster now => d.scaleDelay faster now
  | .tick now => d.tick now

/-- The debugger after a list of commands. -/
def performAll (d : Debugger) (commands : List Command) : Debugger :=
  commands.foldl perform d

/-- A bounded delay is within the bounds. -/
theorem bounded_mem (delay : UInt64) :
    leastDelay ≤ bounded delay ∧ bounded delay ≤ greatestDelay := by
  unfold bounded
  split
  · decide
  · split
    · decide
    · next h₁ h₂ => exact ⟨UInt64.not_lt.mp h₁, UInt64.not_lt.mp h₂⟩

/-- Outside a run a tick changes nothing. -/
@[simp] theorem tick_of_not_running {d : Debugger}
    (h : d.machine.running = false) (now : Instant) : d.tick now = d := by
  simp [tick, h]

end Debugger

end RegisterMachine
