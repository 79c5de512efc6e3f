import RegisterMachine.Machine.Basic

/-!
# Operations and histories

A host works a machine through ten operations. Each takes the machine to the
next and gives a reply, so a finite list of them is a history, and what a
machine looks like after a history is a fold.
-/

namespace RegisterMachine

/-- **What a host can ask of a machine.** -/
inductive Operation where
  /-- Load a program. -/
  | load (program : Program)
  /-- Read and load a program. -/
  | loadSource (source : String)
  /-- Execute one instruction and record the outcome. -/
  | step
  /-- Execute one instruction without recording the outcome. -/
  | advance
  /-- Tick, if a run is under way. -/
  | tick
  /-- Step up to a limit. -/
  | run (limit : Nat)
  /-- Begin a run. -/
  | start (delay : UInt64)
  /-- End a run. -/
  | stop
  /-- Go back to the beginning. -/
  | reset
  /-- Set the delay. -/
  | setDelay (delay : UInt64)
  deriving DecidableEq, Repr

/-- **What the machine replies.** -/
inductive Reply where
  /-- Nothing to report. -/
  | done
  /-- A tick was executed. -/
  | status (status : Status)
  /-- No tick was executed, for no run is under way. -/
  | idle
  /-- A run up to a limit ended. -/
  | outcome (outcome : Outcome)
  /-- A program of so many instructions was loaded. -/
  | loaded (size : Nat)
  /-- The text was no program. -/
  | refused (error : ParseError)
  deriving DecidableEq, Repr

namespace Machine

/-- **Performs an operation.** -/
def perform (m : Machine) : Operation → Reply × Machine
  | .load p => (.done, m.load p)
  | .loadSource source =>
    match m.loadSource source with
    | (.ok n, m) => (.loaded n, m)
    | (.error e, m) => (.refused e, m)
  | .step => (.status m.step.1, m.step.2)
  | .advance => (.status m.advance.1, m.advance.2)
  | .tick =>
    match m.tick with
    | (some s, m) => (.status s, m)
    | (none, m) => (.idle, m)
  | .run limit => (.outcome (m.run limit).1, (m.run limit).2)
  | .start delay => (.done, m.start delay)
  | .stop => (.done, m.stop)
  | .reset => (.done, m.reset)
  | .setDelay delay => (.done, m.setDelay delay)

/-- **The machine after a history.** -/
def performAll (m : Machine) (ops : List Operation) : Machine :=
  ops.foldl (fun m op => (m.perform op).2) m

/-- The replies along a history, in order. -/
def replies (m : Machine) : List Operation → List Reply
  | [] => []
  | op :: ops => (m.perform op).1 :: replies (m.perform op).2 ops

@[simp] theorem performAll_nil (m : Machine) : m.performAll [] = m := rfl

@[simp] theorem performAll_cons (m : Machine) (op : Operation)
    (ops : List Operation) :
    m.performAll (op :: ops) = (m.perform op).2.performAll ops := rfl

/-- A history may be cut anywhere. -/
theorem performAll_append (m : Machine) (ops ops' : List Operation) :
    m.performAll (ops ++ ops') = (m.performAll ops).performAll ops' :=
  List.foldl_append

end Machine

end RegisterMachine
