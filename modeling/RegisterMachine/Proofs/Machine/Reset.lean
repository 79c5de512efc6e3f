import RegisterMachine.Proofs.Machine.Direct
import RegisterMachine.Proofs.Machine.History

/-!
# A reset machine is a new one

A reset forgets everything that has happened, but for what it is there to
keep: the program, the delay, and the registers from the reset span on. That
takes more than the reset itself, which puts back five fields of seven. The
other two are the settings, of which a history changes nothing but the delay,
and the program; and the registers it clears are as many as there were at
first. `Machine.reset_begins_anew` draws the consequences: a reset machine is
a new one with the program loaded and the kept registers in place, so what
came before matters through those alone.
-/

namespace RegisterMachine

namespace Registers

variable {r s : Registers}

/-- **Clearing forgets what stood below the span.** -/
theorem AgreeOn.clear_eq {span : ℕ} (h : AgreeOn (span ≤ ·) r s) :
    r.clear span = s.clear span := by
  ext i
  · rw [size_clear, size_clear, h.size_eq]
  · rw [read_clear, read_clear]
    split
    · rfl
    · next hi => rw [h.read_eq i (not_lt.mp hi)]

theorem clear_clear (r : Registers) (span : ℕ) :
    (r.clear span).clear span = r.clear span := by
  refine AgreeOn.clear_eq ⟨size_clear r span, fun i hi => ?_⟩
  rw [read_clear, if_neg (not_lt.mpr hi)]

/-- A span over the whole file leaves none of it. -/
theorem clear_of_size_le {span : ℕ} (h : r.size ≤ span) :
    r.clear span = zero r.size := by
  ext i
  · rw [size_clear, size_zero]
  · rw [read_clear, read_zero]
    split
    · rfl
    · next hi => exact read_of_size_le r (le_trans h (not_lt.mp hi))

end Registers

namespace Machine

variable {m m' : Machine} {settings : Settings} {past past' : List Event}

/-- **A reset leaves settings, program and cleared registers**, and puts the
rest back as it is in a new machine. -/
theorem reset_eq (m : Machine) :
    m.reset = { (new m.settings).load m.program with
      registers := m.registers.clear m.settings.resetSpan.toNat } := rfl

theorem reset_reset (m : Machine) : m.reset.reset = m.reset := by
  rw [reset_eq m.reset, reset_eq m]
  dsimp only [new, load]
  rw [Registers.clear_clear]

/-- A reset after a history is one more operation. -/
theorem performAll_concat_reset (m : Machine) (ops : List Operation) :
    m.performAll (ops ++ [.reset]) = (m.performAll ops).reset :=
  performAll_append m ops [.reset]

/-- **A history leaves the settings alone**, but for the delay. -/
theorem Accounts.settings_eq_with_delay (h : Accounts settings past m) :
    m.settings = { settings with delay := m.delay } := by
  rw [delay, h.settings_eq]

/-- **A reset machine is a new one**, with what it kept in the registers. -/
theorem Accounts.reset_eq (h : Accounts settings past m) :
    m.reset = { (new { settings with delay := m.delay }).load m.program with
      registers := m.registers.clear settings.resetSpan.toNat } := by
  rw [Machine.reset_eq, h.settings_eq_with_delay]

/-- Below the span the registers of a reset machine are those of a new one. -/
theorem read_clear_or_new (m : Machine) (span i : ℕ) :
    (m.registers.clear span).read i
      = if span ≤ i then m.registers.read i
        else (new settings).registers.read i := by
  have hzero : (new settings).registers.read i = 0 := Registers.read_zero _ i
  rw [Registers.read_clear, hzero]
  by_cases hi : span ≤ i
  · rw [if_pos hi, if_neg (not_lt.mpr hi)]
  · rw [if_neg hi, if_pos (not_le.mp hi)]

/-- **With a span over all registers** a reset machine is a new one. -/
theorem Accounts.reset_eq_new (h : Accounts settings past m)
    (hspan : settings.registerCount ≤ settings.resetSpan) :
    m.reset = (new { settings with delay := m.delay }).load m.program := by
  have hle : m.registers.size ≤ settings.resetSpan.toNat :=
    h.size_registers.trans_le hspan
  rw [h.reset_eq, Registers.clear_of_size_le hle, h.size_registers]
  rfl

/-- **Histories that agree on what a reset keeps** are the same after it. -/
theorem Accounts.reset_eq_reset (h : Accounts settings past m)
    (h' : Accounts settings past' m') (hprogram : m.program = m'.program)
    (hdelay : m.delay = m'.delay)
    (hread : ∀ i, settings.resetSpan.toNat ≤ i →
      m.registers.read i = m'.registers.read i) : m.reset = m'.reset := by
  have hagree : Registers.AgreeOn (settings.resetSpan.toNat ≤ ·) m.registers
      m'.registers :=
    ⟨h.size_registers.trans h'.size_registers.symm, hread⟩
  rw [h.reset_eq, h'.reset_eq, hagree.clear_eq, hprogram, hdelay]

/-- **A reset begins anew.** After any operations, a machine that is reset is
a new one with the present delay and the program loaded, except that every
register from the reset span on keeps its value. So with a span over all
registers it is that new machine, and will ever behave like it; two histories
end alike once they are reset, if they agree on program, delay and the kept
registers; and resetting again changes nothing. -/
theorem reset_begins_anew (settings : Settings) (ops : List Operation) :
    let m := (new settings).performAll ops
    let fresh := (new { settings with delay := m.delay }).load m.program
    let again := (new settings).performAll (ops ++ [.reset])
    (∃ r, again = { fresh with registers := r }
        ∧ r.size = fresh.registers.size
        ∧ ∀ i, r.read i = if settings.resetSpan.toNat ≤ i
            then m.registers.read i else fresh.registers.read i)
      ∧ (settings.registerCount ≤ settings.resetSpan →
          again = fresh ∧ ∀ later, again.replies later = fresh.replies later
            ∧ again.performAll later = fresh.performAll later)
      ∧ (∀ ops', let m' := (new settings).performAll ops'
          m.program = m'.program → m.delay = m'.delay →
          (∀ i, settings.resetSpan.toNat ≤ i →
            m.registers.read i = m'.registers.read i) →
          again = (new settings).performAll (ops' ++ [.reset]))
      ∧ (new settings).performAll (ops ++ [.reset, .reset]) = again := by
  intro m fresh again
  have haccounts := (accounts_new settings).performAll ops
  have hagain : again = m.reset := performAll_concat_reset _ ops
  refine ⟨⟨m.registers.clear settings.resetSpan.toNat, ?_, ?_,
    m.read_clear_or_new _⟩, fun hspan => ?_, ?_, ?_⟩
  · rw [hagain]
    exact haccounts.reset_eq
  · rw [Registers.size_clear, haccounts.size_registers]
    exact (Registers.size_zero _).symm
  · have hfresh : again = fresh := hagain.trans (haccounts.reset_eq_new hspan)
    rw [hfresh]
    exact ⟨rfl, fun later => ⟨rfl, rfl⟩⟩
  · intro ops' m' hprogram hdelay hread
    have haccounts' := (accounts_new settings).performAll ops'
    rw [hagain, performAll_concat_reset]
    exact haccounts.reset_eq_reset haccounts' hprogram hdelay hread
  · rw [performAll_append, hagain]
    exact m.reset_reset

/-- Puts a seven into two registers. -/
def sevens : Program := .ofList [.ofInt .loadi 7, .ofInt .store 1]

/-- **A machine that runs into the end of its program**, on two registers and
with a reset span of five: once it is reset it is new, and no other than one
that was never run. -/
theorem sevens_begins_anew :
    let settings : Settings := ⟨100, 2, 5⟩
    let ops : List Operation := [.load sevens, .start 5, .run 3]
    let unused : List Operation := [.load sevens, .setDelay 5]
    let again := (new settings).performAll (ops ++ [.reset])
    settings.registerCount ≤ settings.resetSpan
      ∧ ((new settings).performAll ops).registers = ⟨#[7, 7]⟩
      ∧ ((new settings).performAll ops).lastStatus = .noInstruction
      ∧ again = (new ⟨5, 2, 5⟩).load sevens
      ∧ again.replies [.tick, .run 9]
        = ((new ⟨5, 2, 5⟩).load sevens).replies [.tick, .run 9]
      ∧ again = (new settings).performAll (unused ++ [.reset]) := by
  intro settings ops unused again
  have hspan : settings.registerCount ≤ settings.resetSpan := by decide
  have hregisters : ((new settings).performAll ops).registers = ⟨#[7, 7]⟩ := by
    decide +kernel
  have hprogram : ((new settings).performAll ops).program = sevens := by
    decide +kernel
  have hdelay : ((new settings).performAll ops).delay = 5 := by decide +kernel
  obtain ⟨-, hfresh, hagree, -⟩ := reset_begins_anew settings ops
  rw [hprogram, hdelay] at hfresh
  refine ⟨hspan, hregisters, by decide +kernel, (hfresh hspan).1,
    ((hfresh hspan).2 _).1, hagree unused hprogram hdelay fun i hi => ?_⟩
  have hi : 2 ≤ i := le_trans (by decide) hi
  rw [hregisters, Registers.read_of_size_le _ hi]
  exact (Registers.read_of_size_le (.zero 2) hi).symm

end Machine

end RegisterMachine
