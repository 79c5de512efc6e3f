import RegisterMachine.Debugger.Keys
import RegisterMachine.Proofs.Debugger.Pace

/-!
# A debugger that is attended by keys

What keys do is what commands do, and a little more: an arrow moves the view and
one key asks to leave, and no command sees either
(`Debugger.perform_withView`). So a debugger that is attended turn by turn is the
debugger after a list of commands, with a view of its own, and what was said of
commands is said of keys (`Debugger.attend_eq_performAll`).

However the arrows are pressed, the first register in view is a register of the
machine, since a step of either arrow keeps it one and no command changes how many
there are (`Debugger.inView_attend`). And a debugger that waits for a key does not
sleep through a tick (`Debugger.wait_le`).
-/

namespace RegisterMachine.Debugger

variable {d : Debugger} {key : Key} {now : Instant} {t : Turn}

/-! ## The view -/

/-- The debugger with another view: the first register in it, and whether the
user has asked to leave. -/
def withView (d : Debugger) (scroll : ℕ) (leaving : Bool) : Debugger :=
  { d with scroll, leaving }

/-- **No command sees the view or changes it.** -/
theorem perform_withView (d : Debugger) (scroll : ℕ) (leaving : Bool)
    (c : Command) :
    (d.withView scroll leaving).perform c
      = (d.perform c).withView scroll leaving := by
  cases c with
  | step | run | pause | reset | scaleDelay => rfl
  | tick now =>
    show (d.withView scroll leaving).tick now = (d.tick now).withView scroll leaving
    unfold tick withView
    dsimp only
    split
    · split
      · split <;> rfl
      · rfl
    · rfl

theorem performAll_withView (d : Debugger) (scroll : ℕ) (leaving : Bool)
    (cs : List Command) :
    (d.withView scroll leaving).performAll cs
      = (d.performAll cs).withView scroll leaving := by
  induction cs generalizing d with
  | nil => rfl
  | cons c cs ih => rw [performAll_cons, perform_withView, ih]; rfl

/-! ## Keys as commands -/

/-- The key that asks to leave. -/
def Key.leaves (key : Key) : Bool := key == .char 'q'

/-- The first register in view once a key was pressed. -/
def scrolled (d : Debugger) : Key → ℕ
  | .up => d.scroll - 1
  | .down =>
    if d.scroll + 1 < d.machine.registers.size then d.scroll + 1 else d.scroll
  | _ => d.scroll

/-- **A key is a command or none**, a move of the view, and a wish to leave. -/
theorem press_eq (d : Debugger) (key : Key) (now : Instant) :
    d.press key now
      = (d.performAll (key.command? now).toList).withView (d.scrolled key)
        (d.leaving || key.leaves) := by
  have hview : ∀ c, (d.perform c).withView d.scroll d.leaving = d.perform c :=
    fun c => (perform_withView d d.scroll d.leaving c).symm
  unfold press
  split
  · show _ = d.withView d.scroll (d.leaving || true)
    rw [Bool.or_true]
    rfl
  · show _ = d.withView (d.scroll - 1) (d.leaving || false)
    rw [Bool.or_false]
    rfl
  · show _ = d.withView (d.scrolled .down) (d.leaving || false)
    rw [Bool.or_false]
    unfold scrolled
    dsimp only
    split <;> rfl
  · next hquit hup hdown =>
    have hleaves : key.leaves = false := beq_false_of_ne hquit
    have hscrolled : d.scrolled key = d.scroll := by
      cases key with
      | up => exact absurd rfl hup
      | down => exact absurd rfl hdown
      | char | other => rfl
    rw [hleaves, hscrolled, Bool.or_false]
    cases key.command? now with
    | none => rfl
    | some c => exact (hview c).symm

/-! ## Turns -/

namespace Turn

/-- The commands of a turn: that of its key, and a tick. -/
def commands (t : Turn) : List Command :=
  (t.key.bind fun k => k.1.command? k.2).toList ++ [.tick t.now]

/-- Whether the debugger is asked to leave in a turn. -/
def leaves (t : Turn) : Bool := t.key.any fun k => k.1.leaves

end Turn

/-- The first register in view after a turn. -/
def viewed (d : Debugger) (t : Turn) : ℕ :=
  t.key.elim d.scroll fun k => d.scrolled k.1

/-- The turns that a debugger is attended for: those up to the first in which it
is asked to leave. -/
def attended : List Turn → List Turn
  | [] => []
  | t :: ts => if t.leaves then [t] else t :: attended ts

/-- **A turn is its commands**, a move of the view, and a wish to leave. -/
theorem turn_eq (d : Debugger) (t : Turn) :
    d.turn t = (d.performAll t.commands).withView (d.viewed t)
      (d.leaving || t.leaves) := by
  obtain ⟨_ | ⟨key, pressed⟩, now⟩ := t
  · show d.tick now = (d.tick now).withView d.scroll (d.leaving || false)
    rw [Bool.or_false]
    exact perform_withView d d.scroll d.leaving (.tick now)
  · show (d.press key pressed).tick now
      = (d.performAll ((key.command? pressed).toList ++ [.tick now])).withView
        (d.scrolled key) (d.leaving || key.leaves)
    rw [press_eq, performAll_append]
    exact perform_withView _ _ _ (.tick now)

/-- **A debugger that is attended is a debugger after commands**, those of the
turns it is attended for, with a view of its own. -/
theorem attend_eq_performAll (h : d.leaving = false) (ts : List Turn) :
    ∃ scroll, d.attend ts
      = (d.performAll ((attended ts).flatMap Turn.commands)).withView scroll
        (ts.any Turn.leaves) := by
  induction ts generalizing d with
  | nil =>
    refine ⟨d.scroll, ?_⟩
    show d = d.withView d.scroll false
    rw [← h]
    rfl
  | cons t ts ih =>
    have hturn := d.turn_eq t
    rw [h, Bool.false_or] at hturn
    have hleaving : (d.turn t).leaving = t.leaves := by rw [hturn]; rfl
    unfold attend attended
    rw [hleaving, List.any_cons]
    cases hleaves : t.leaves with
    | true =>
      rw [if_pos rfl, if_pos rfl, hturn, hleaves, List.flatMap_singleton]
      exact ⟨d.viewed t, rfl⟩
    | false =>
      rw [hleaves] at hleaving
      obtain ⟨scroll, hrest⟩ := ih hleaving
      rw [if_neg Bool.false_ne_true, if_neg Bool.false_ne_true, hrest, hturn,
        performAll_withView, List.flatMap_cons, performAll_append]
      exact ⟨scroll, rfl⟩

/-- **However it is attended, a debugger keeps machine and ticker at the same
delay.** -/
theorem InStep.attend (hstep : d.InStep) (h : d.leaving = false)
    (ts : List Turn) : (d.attend ts).InStep := by
  obtain ⟨scroll, hattend⟩ := attend_eq_performAll h ts
  rw [hattend]
  exact hstep.performAll ((attended ts).flatMap Turn.commands)

/-! ## What is in view -/

/-- **The first register in view is a register**, or the accumulator. -/
def InView (d : Debugger) : Prop :=
  d.scroll = 0 ∨ d.scroll < d.machine.registers.size

/-- No command changes how many registers there are. -/
theorem size_registers_perform (d : Debugger) (c : Command) :
    (d.perform c).machine.registers.size = d.machine.registers.size := by
  cases c with
  | step => exact d.machine.size_registers_advance
  | run | pause | scaleDelay => rfl
  | reset => exact Registers.size_clear _ _
  | tick now =>
    show (d.tick now).machine.registers.size = _
    cases h : d.executes now with
    | false => rw [tick_of_not_executes h]
    | true =>
      rw [(tick_of_executes h).2]
      exact d.machine.size_registers_tick

theorem size_registers_performAll (d : Debugger) (cs : List Command) :
    (d.performAll cs).machine.registers.size = d.machine.registers.size := by
  induction cs generalizing d with
  | nil => rfl
  | cons c cs ih => exact (ih _).trans (d.size_registers_perform c)

/-- An arrow leads from a register to a register. -/
theorem InView.scrolled (h : d.InView) (key : Key) :
    d.scrolled key = 0 ∨ d.scrolled key < d.machine.registers.size := by
  unfold Debugger.scrolled
  split
  · rcases h with h | h
    · exact .inl (by rw [h])
    · exact .inr (lt_of_le_of_lt (Nat.sub_le _ _) h)
  · split
    · next hlt => exact .inr hlt
    · exact h
  · exact h

/-- **After a turn the first register in view is one.** -/
theorem InView.turn (h : d.InView) (t : Turn) : (d.turn t).InView := by
  have hviewed : d.viewed t = 0 ∨ d.viewed t < d.machine.registers.size := by
    unfold viewed
    cases t.key with
    | none => exact h
    | some k => exact h.scrolled k.1
  rw [turn_eq]
  unfold InView
  show d.viewed t = 0 ∨ d.viewed t < (d.performAll t.commands).machine.registers.size
  rwa [size_registers_performAll]

theorem InView.attend (h : d.InView) (ts : List Turn) : (d.attend ts).InView := by
  induction ts generalizing d with
  | nil => exact h
  | cons t ts ih =>
    unfold Debugger.attend
    split
    · exact h.turn t
    · exact ih (h.turn t)

/-- **However the arrows are pressed**, the first register in view of a debugger
that was new is one. -/
theorem inView_attend (machine : Machine) (program : Program) (now : Instant)
    (ts : List Turn) : ((new machine program now).attend ts).InView :=
  InView.attend (.inl rfl) ts

/-! ## Waiting for a key -/

/-- **No tick is slept through**: the wait for a key is short, and while a run
is under way it is over when the next tick is due, if not before. -/
theorem wait_le (d : Debugger) (now : Instant) :
    d.wait now ≤ patience
      ∧ (d.machine.running = true → now ≤ d.ticker.deadline →
        now + d.wait now ≤ d.ticker.deadline) := by
  unfold wait
  refine ⟨?_, fun hrun hnow => ?_⟩
  · split
    · exact Nat.min_le_right _ _
    · exact le_rfl
  · rw [if_pos hrun]
    have hremaining : ((d.ticker.remaining now : ℕ) : ℤ) = d.ticker.deadline - now :=
      Int.toNat_of_nonneg (Int.sub_nonneg_of_le hnow)
    have hmin : min (d.ticker.remaining now) patience ≤ d.ticker.remaining now :=
      Nat.min_le_left _ _
    have hcast : ((min (d.ticker.remaining now) patience : ℕ) : ℤ)
        ≤ d.ticker.remaining now := Int.ofNat_le.mpr hmin
    calc now + ((min (d.ticker.remaining now) patience : ℕ) : ℤ)
        ≤ now + d.ticker.remaining now := Int.add_le_add_left hcast now
      _ = d.ticker.deadline := by rw [hremaining]; ring

end RegisterMachine.Debugger
