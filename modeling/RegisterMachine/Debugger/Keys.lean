import RegisterMachine.Debugger.Basic

/-!
# The keys of a debugger

A debugger is attended in turns. In a turn it waits for a key, for a while and
never past the next tick that is due; it does what the key asks for, if one was
pressed; and it lets a tick happen. It ends with the turn in which it was asked
to leave.

Most keys stand for commands. The two arrows scroll through the registers, one
register at a time, no further than the last one comes into view.
-/

namespace RegisterMachine.Debugger

/-- **A key that was pressed.** -/
inductive Key where
  /-- A character. -/
  | char (c : Char)
  /-- The upward arrow. -/
  | up
  /-- The downward arrow. -/
  | down
  /-- Any other key. -/
  | other
  deriving DecidableEq, Repr

/-- **The command that a key stands for**, if it stands for one. -/
def Key.command? (now : Instant) : Key → Option Command
  | .char 's' => some .step
  | .char 'r' => some (.run now)
  | .char 'p' => some .pause
  | .char 'x' => some .reset
  | .char '+' => some (.scaleDelay true now)
  | .char '-' => some (.scaleDelay false now)
  | _ => none

/-- **What a key does** that is pressed at a point in time. -/
def press (d : Debugger) (key : Key) (now : Instant) : Debugger :=
  match key with
  | .char 'q' => { d with leaving := true }
  | .up => { d with scroll := d.scroll - 1 }
  | .down =>
    if d.scroll + 1 < d.machine.registers.size then
      { d with scroll := d.scroll + 1 }
    else d
  | key =>
    match key.command? now with
    | some c => d.perform c
    | none => d

/-- The longest that a key is waited for. -/
def patience : Duration := .ofMillis 50

/-- **How long a key is waited for**: while a run is under way, no longer than
until the next tick is due. -/
def wait (d : Debugger) (now : Instant) : Duration :=
  if d.machine.running then min (d.ticker.remaining now) patience
  else patience

/-- **What happens in a turn.** -/
structure Turn where
  /-- The key that was pressed, if one was, and when. -/
  key : Option (Key × Instant)
  /-- When a tick is asked for. -/
  now : Instant
  deriving DecidableEq, Repr

/-- **One turn**: a key or none, and then a tick if one is due. -/
def turn (d : Debugger) (t : Turn) : Debugger :=
  match t.key with
  | some (key, now) => (d.press key now).tick t.now
  | none => d.tick t.now

/-- **Turn after turn**, up to the one in which the debugger is asked to
leave. -/
def attend (d : Debugger) : List Turn → Debugger
  | [] => d
  | t :: ts =>
    if (d.turn t).leaving then d.turn t else (d.turn t).attend ts

end RegisterMachine.Debugger
