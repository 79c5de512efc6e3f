/-!
# Tickers

A machine never waits. Whoever drives a run keeps a ticker and asks it, as
often as it likes, whether a tick is due. A tick is due once the deadline is
reached; the next deadline is one interval later, unless that has passed as
well, and then it is one interval from now. So ticks keep to a grid while the
host keeps up, and a host that fell behind gets no burst.

Time is an integer number of nanoseconds from some origin.
-/

namespace RegisterMachine

/-- A point in time, in nanoseconds from some origin. -/
abbrev Instant := Int

/-- A span of time, in nanoseconds. -/
abbrev Duration := Nat

/-- So many milliseconds. -/
def Duration.ofMillis (n : Nat) : Duration := n * 1000000

/-- **A ticker.** -/
structure Ticker where
  /-- The time from one tick to the next. -/
  interval : Duration
  /-- When the next tick is due. -/
  deadline : Instant
  deriving DecidableEq, Repr

namespace Ticker

/-- A ticker whose first tick is due one interval from now. -/
def new (interval : Duration) (now : Instant) : Ticker :=
  ⟨interval, now + interval⟩

/-- Puts the next tick one interval from now. -/
def restart (t : Ticker) (now : Instant) : Ticker := new t.interval now

/-- Changes the interval and puts the next tick one interval from now. -/
def setInterval (t : Ticker) (interval : Duration) (now : Instant) : Ticker :=
  { t with interval }.restart now

/-- **Whether a tick is due**, and the ticker for the one after it. -/
def poll (t : Ticker) (now : Instant) : Bool × Ticker :=
  if now < t.deadline then (false, t)
  else
    let next := t.deadline + t.interval
    (true, { t with deadline := if next < now then now + t.interval else next })

/-- **The time left until the next tick**, zero once it is due. -/
def remaining (t : Ticker) (now : Instant) : Duration :=
  (t.deadline - now).toNat

/-- A ticker polled at one point in time after another: which polls found a
tick due, and the ticker at the end. -/
def polls (t : Ticker) : List Instant → List Bool × Ticker
  | [] => ([], t)
  | now :: times =>
    let (due, t) := t.poll now
    let (dues, t) := t.polls times
    (due :: dues, t)

@[simp] theorem interval_poll (t : Ticker) (now : Instant) :
    (t.poll now).2.interval = t.interval := by
  unfold poll
  split <;> rfl

/-- A tick is due exactly when the deadline is reached. -/
theorem poll_fst (t : Ticker) (now : Instant) :
    (t.poll now).1 = true ↔ t.deadline ≤ now := by
  unfold poll
  split
  · next h => simpa using h
  · next h => simpa using h

end Ticker

end RegisterMachine
