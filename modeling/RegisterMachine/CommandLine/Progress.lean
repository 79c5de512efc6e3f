import RegisterMachine.Machine.Basic
import RegisterMachine.Ticker

/-!
# Driving a machine to its end

A program is run in one of two ways. Straight on, a step follows the other
until the machine does not go on or the limit is reached. Paced, the machine
is started and a ticker is polled; a tick happens whenever one is due, for
whatever clock readings the polls are made at. Both keep the same account:
the machine, the last outcome, the number of ticks, and, if asked for, a line
for every tick that went on.
-/

namespace RegisterMachine.CommandLine

/-- **How far a machine has come.** -/
structure Progress where
  /-- The machine now. -/
  machine : Machine
  /-- The outcome of the last tick; that of going on if there was none. -/
  status : Status
  /-- How many ticks there were. -/
  ticks : Nat
  /-- The lines of the trace, in order. -/
  trace : Array String
  deriving DecidableEq, Repr

/-- **A line of the trace**: the counter before a tick, the instruction that
was executed, and the accumulator after it. -/
def traceLine (counter : Nat) (m : Machine) : String :=
  let instruction := ((m.program.get? counter).map Instruction.text).getD ""
  Text.index counter ++ ": " ++ Text.padRight 16 instruction ++ " ACC="
    ++ toString m.acc

namespace Progress

/-- A machine that has not ticked yet. -/
def start (m : Machine) : Progress := ⟨m, .continued, 0, #[]⟩

/-- **Takes a tick into account**: its outcome and the machine after it. -/
def record (tracing : Bool) (p : Progress) (status : Status) (m : Machine) :
    Progress where
  machine := m
  status := status
  ticks := p.ticks + 1
  trace :=
    if tracing && status.isContinue then
      p.trace.push (traceLine p.machine.counter m)
    else p.trace

/-- One step straight on. -/
def step (tracing : Bool) (p : Progress) : Progress :=
  p.record tracing p.machine.step.1 p.machine.step.2

/-- **Straight on**, up to so many steps. -/
def straight (tracing : Bool) : Nat → Progress → Progress
  | 0, p => p
  | limit + 1, p =>
    let p := p.step tracing
    if p.status.isContinue then straight tracing limit p else p

end Progress

/-- **A paced run**: how far the machine has come, and the ticker that paces
it. -/
structure Paced where
  /-- How far the machine has come. -/
  progress : Progress
  /-- Paces the ticks. -/
  ticker : Ticker
  deriving DecidableEq, Repr

namespace Paced

/-- Starts a machine at its own delay. -/
def start (m : Machine) (now : Instant) : Paced :=
  ⟨.start (m.start m.delay), .new (.ofMillis m.delay.toNat) now⟩

/-- Whether the run is over: the machine has stopped or the limit is
reached. -/
def finished (limit : Nat) (r : Paced) : Bool :=
  !(r.progress.machine.running && decide (r.progress.ticks < limit))

/-- **One poll of the ticker**, with a tick if one is due. A run that is over
stays as it is. -/
def poll (tracing : Bool) (limit : Nat) (r : Paced) (now : Instant) : Paced :=
  if r.finished limit then r
  else
    let (due, ticker) := r.ticker.poll now
    if due then
      match r.progress.machine.tick with
      | (some status, m) => ⟨r.progress.record tracing status m, ticker⟩
      | (none, _) => { r with ticker }
    else { r with ticker }

/-- The run after polls at given clock readings. -/
def polls (tracing : Bool) (limit : Nat) (r : Paced) (readings : List Instant) :
    Paced :=
  readings.foldl (poll tracing limit) r

/-- **The run for a host that wakes exactly when a tick is due**, for so many
polls at most. -/
def onTime (tracing : Bool) (limit : Nat) : Nat → Paced → Paced
  | 0, r => r
  | n + 1, r =>
    if r.finished limit then r
    else onTime tracing limit n (r.poll tracing limit r.ticker.deadline)

/-- What is left when the run is over: the machine has stopped. -/
def finish (r : Paced) : Progress :=
  { r.progress with machine := r.progress.machine.stop }

end Paced

end RegisterMachine.CommandLine
