import RegisterMachine.Binary64.Integer
import RegisterMachine.Machine.Json

/-!
# Sessions

A page that shows a machine has a clock but no ticker: it calls `pump` as
often as it redraws, and a tick happens if the delay has passed since the
last one. The clock may jump; it counts whole milliseconds, in double
precision, as does the time between two readings. A pump reads it twice: one
reading decides whether a tick is due, and when the tick has been executed
another is kept. A call that executes a tick reports the code of its outcome,
one that does not reports two.

As long as clock and delay stay below `2 ^ 53` milliseconds, a tick is due
exactly when the delay has passed (`Session.isDue_iff`).

The machine is one whose indices are words of sixty-four bits: counters,
counts and the indices of registers are not cut at thirty-two bits here.
-/

namespace RegisterMachine

-- powers are those of the core library, whatever else is in scope
attribute [local instance (high)] instPowNat

/-- **A machine and the clock reading of its last tick.** -/
structure Session where
  /-- The machine. -/
  machine : Machine
  /-- The reading at the start of the run or at the last tick of one. -/
  lastTick : Int
  deriving DecidableEq, Repr

namespace Session

/-- A machine with the standard settings, and no tick yet. -/
def new : Session := ⟨.new .standard, 0⟩

/-- The code reported for a call: that of the outcome, or two if nothing was
executed. -/
def code : Option Status → Int
  | some status => status.code
  | none => 2

/-- Reads and loads a program. -/
def loadSource (s : Session) (source : String) :
    Except ParseError Nat × Session :=
  let (reply, machine) := s.machine.loadSource source
  (reply, { s with machine })

/-- Executes one instruction; the schedule of a run is not touched. -/
def step (s : Session) : Status × Session :=
  let (status, machine) := s.machine.step
  (status, { s with machine })

/-- **Begins a run**; the first tick is due after the delay. The delay is a
word of thirty-two bits. -/
def start (s : Session) (delay : UInt32) (now : Int) : Session :=
  ⟨s.machine.start delay.toUInt64, Binary64.nearestInt now⟩

/-- **A tick of a run**, now. -/
def tick (s : Session) (now : Int) : Option Status × Session :=
  match s.machine.tick with
  | (some status, machine) => (some status, ⟨machine, Binary64.nearestInt now⟩)
  | (none, machine) => (none, { s with machine })

/-- The time since the last tick. -/
def elapsed (s : Session) (now : Int) : Int :=
  Binary64.nearestInt (Binary64.nearestInt now - s.lastTick)

/-- **Whether the delay has passed** since the last tick. -/
def isDue (s : Session) (now : Int) : Bool :=
  decide (Binary64.nearestInt s.machine.delay.toNat ≤ s.elapsed now)

/-- **A tick of a run, if it is due** at one reading of the clock; another is
kept. -/
def pump (s : Session) (asked now : Int) : Option Status × Session :=
  if s.machine.running && s.isDue asked then s.tick now else (none, s)

/-- **With a clock and a delay of at most fifty-three bits nothing is
rounded**: the delay has passed if the readings are so far apart. -/
theorem isDue_iff (s : Session) {now : Int} (hnow : now.natAbs < 2 ^ (53 : Nat))
    (hdelay : s.machine.delay.toNat < 2 ^ (53 : Nat)) :
    s.isDue now = true ↔ s.machine.delay.toNat ≤ now - s.lastTick := by
  unfold isDue elapsed
  rw [decide_eq_true_iff, Binary64.nearestInt_of_natAbs_lt hnow,
    Binary64.nearestInt_of_natAbs_lt (by simpa using hdelay),
    Binary64.le_nearestInt_iff hdelay]

/-- Ends a run. -/
def stop (s : Session) : Session := { s with machine := s.machine.stop }

/-- Resets the machine. -/
def reset (s : Session) : Session := { s with machine := s.machine.reset }

/-- The delay, as a word of thirty-two bits; the greatest if it is none. -/
def delay (s : Session) : UInt32 :=
  UInt32.ofNat (min s.machine.delay.toNat (2 ^ (32 : Nat) - 1))

/-- **The index of the first bad line of a text**, at most `2 ^ 31 - 1`; minus
one if the text is a program. -/
def errorLine (source : String) : Int :=
  match Program.parse source with
  | .ok _ => -1
  | .error e => min e.line (2 ^ (31 : Nat) - 1)

/-! ## Calls -/

/-- **What a page can call**, with the readings of the clock that the call
makes. -/
inductive Call where
  /-- Read and load a program. -/
  | loadSource (source : String)
  /-- Execute one instruction. -/
  | step
  /-- Begin a run, and keep the reading. -/
  | start (delay : UInt32) (now : Int)
  /-- Tick, if a run is under way, and keep the reading. -/
  | tick (now : Int)
  /-- Tick, if one is due at the first reading, and keep the second. -/
  | pump (asked now : Int)
  /-- End a run. -/
  | stop
  /-- Reset the machine. -/
  | reset
  deriving DecidableEq, Repr

/-- The readings of the clock that a call may make. -/
def Call.readings : Call → List Int
  | .start _ now | .tick now => [now]
  | .pump asked now => [asked, now]
  | _ => []

/-- **What a call reports.** -/
inductive Report where
  /-- Nothing. -/
  | done
  /-- A code. -/
  | code (code : Int)
  /-- A program of so many instructions was loaded. -/
  | loaded (size : Nat)
  /-- The text was no program. -/
  | refused (error : ParseError)
  deriving DecidableEq, Repr

/-- **The text that a call fails with**, if it does. -/
def Report.failure? : Report → Option String
  | .refused e => some e.message
  | _ => none

/-- **Makes a call.** -/
def perform (s : Session) : Call → Report × Session
  | .loadSource source =>
    match s.loadSource source with
    | (.ok n, s) => (.loaded n, s)
    | (.error e, s) => (.refused e, s)
  | .step => (.code s.step.1.code, s.step.2)
  | .start delay now => (.done, s.start delay now)
  | .tick now => (.code (code (s.tick now).1), (s.tick now).2)
  | .pump asked now => (.code (code (s.pump asked now).1), (s.pump asked now).2)
  | .stop => (.done, s.stop)
  | .reset => (.done, s.reset)

/-- The session after a list of calls. -/
def performAll (s : Session) (calls : List Call) : Session :=
  calls.foldl (fun s c => (s.perform c).2) s

end Session

end RegisterMachine
