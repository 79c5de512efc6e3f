/-!
# Settings

A machine has three settings: the delay between ticks while it runs, the
number of its registers, and how many of them a reset clears. They are words,
and any words make a machine; settings from a file are held to two rules, that
there is an accumulator and that a reset does not reach past the registers.
-/

namespace RegisterMachine

/-- **The settings of a machine.** -/
structure Settings where
  /-- Milliseconds between ticks while running. -/
  delay : UInt64
  /-- The number of registers. -/
  registerCount : UInt64
  /-- A reset clears the registers below this index. -/
  resetSpan : UInt64
  deriving DecidableEq, Repr

namespace Settings

/-- **The settings of a machine that was given none.** -/
def standard : Settings := ⟨100, 256, 100⟩

instance : Inhabited Settings := ⟨standard⟩

/-- **Why settings are refused.** -/
inductive Refusal where
  /-- There is no register, and so no accumulator. -/
  | noRegisters
  /-- A reset would reach past the registers. -/
  | resetSpanTooLarge (span count : UInt64)
  deriving DecidableEq, Repr

/-- The message of a refusal. -/
def Refusal.message : Refusal → String
  | .noRegisters => "register_count must be at least 1 (the accumulator)"
  | .resetSpanTooLarge span count =>
    "reset_span " ++ toString span ++ " exceeds register_count "
      ++ toString count

/-- **What the settings are refused for**, if for anything. -/
def refusal? (s : Settings) : Option Refusal :=
  if s.registerCount = 0 then some .noRegisters
  else if s.registerCount < s.resetSpan then
    some (.resetSpanTooLarge s.resetSpan s.registerCount)
  else none

/-- **The settings that are accepted** have a register and a reset within the
registers. -/
theorem refusal?_eq_none_iff (s : Settings) :
    s.refusal? = none
      ↔ s.registerCount ≠ 0 ∧ s.resetSpan ≤ s.registerCount := by
  unfold refusal?
  split
  · simp_all
  · split
    · next h => simpa using fun _ => h
    · next h => simp_all

end Settings

end RegisterMachine
