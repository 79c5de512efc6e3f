import RegisterMachine.Machine.Basic

/-!
# What a tick can be

`Machine.advance` is opened here, once. A tick is of one of four kinds, and
`Machine.IsTick` lists them with everything that is known in each: the first
three leave the machine alone, and the fourth changes registers, counter and
cycles, and nothing else. What an instruction does to the registers is opened
here as well, in `Registers.Executed`: it writes one register or none, so
their number never changes.
-/

namespace RegisterMachine

namespace Registers

/-- **One register was written**: the file `s` is the file `r` but for the
register `i`, which holds `v`. -/
structure Wrote (r : Registers) (i : Nat) (v : Int64) (s : Registers) :
    Prop where
  /-- There are as many registers as before. -/
  size_eq : s.size = r.size
  /-- The written register is read back, and the others as before. -/
  read_eq : ∀ j, s.read j = if j = i then v else r.read j

/-- The accumulator is written if there is one. -/
theorem wrote_setAcc {r : Registers} (h : 0 < r.size) (v : Int64) :
    r.Wrote 0 v (r.setAcc v) where
  size_eq := size_setAcc r v
  read_eq j := by
    rw [read_setAcc]
    simp only [h, and_true]

theorem wrote_of_write? {r s : Registers} {i : Nat} {v : Int64}
    (h : r.write? i v = some s) : r.Wrote i v s where
  size_eq := size_of_write? h
  read_eq := read_of_write? h

/-- **What an instruction can do**, with everything that is known in each
case: the file and the counter after it, by opcode. The six jumps are one
case, for they differ in their test alone. -/
inductive Executed (r : Registers) (c : Nat) (x : Int64) :
    Opcode → Registers × Nat → Prop where
  | loadi : Executed r c x .loadi (r.setAcc x, c + 1)
  | load (hx : ¬x < 1) :
      Executed r c x .load (r.setAcc (r.read x.toNatClampNeg), c + 1)
  | store {s : Registers} (hx : ¬x < 1)
      (hw : r.write? x.toNatClampNeg r.acc = some s) :
      Executed r c x .store (s, c + 1)
  | loadind (hx : ¬x < 1) (hp : ¬r.read x.toNatClampNeg < 0) :
      Executed r c x .loadind
        (r.setAcc (r.read (r.read x.toNatClampNeg).toNatClampNeg), c + 1)
  | storeind {s : Registers} (hx : ¬x < 1)
      (hp : ¬r.read x.toNatClampNeg < 0)
      (hw : r.write? (r.read x.toNatClampNeg).toNatClampNeg r.acc = some s) :
      Executed r c x .storeind (s, c + 1)
  | add (hx : ¬x < 1) :
      Executed r c x .add (r.setAcc (r.acc + r.read x.toNatClampNeg), c + 1)
  | sub (hx : ¬x < 1) :
      Executed r c x .sub (r.setAcc (r.acc - r.read x.toNatClampNeg), c + 1)
  | mul (hx : ¬x < 1) :
      Executed r c x .mul (r.setAcc (r.acc * r.read x.toNatClampNeg), c + 1)
  | div {q : Int64} (hx : ¬x < 1)
      (hq : quotient? r.acc (r.read x.toNatClampNeg) = some q) :
      Executed r c x .div (r.setAcc q, c + 1)
  | jump {op : Opcode} (hx : ¬x < 1) (hop : op.isJump = true) :
      Executed r c x op
        (r, if op.jumps r.acc then x.toNatClampNeg else c + 1)

/-- **An instruction that is executed does one of these.** -/
theorem executed_of_execute? {r : Registers} {c : Nat} {op : Opcode}
    {x : Int64} {p : Registers × Nat} (h : r.execute? c op x = some p) :
    r.Executed c x op p := by
  unfold execute? at h
  split at h
  · cases h
  · next hguard =>
    have hx : op ≠ .loadi → ¬x < 1 := fun hop hlt => hguard ⟨hop, hlt⟩
    cases op <;> dsimp only at h
    case loadi => cases h; exact .loadi
    case load => cases h; exact .load (hx (by decide))
    case store =>
      obtain ⟨s, hw, rfl⟩ := Option.map_eq_some_iff.mp h
      exact .store (hx (by decide)) hw
    case loadind =>
      split at h
      · cases h
      · next hp => cases h; exact .loadind (hx (by decide)) hp
    case storeind =>
      split at h
      · cases h
      · next hp =>
        obtain ⟨s, hw, rfl⟩ := Option.map_eq_some_iff.mp h
        exact .storeind (hx (by decide)) hp hw
    case add => cases h; exact .add (hx (by decide))
    case sub => cases h; exact .sub (hx (by decide))
    case mul => cases h; exact .mul (hx (by decide))
    case div =>
      obtain ⟨q, hq, rfl⟩ := Option.map_eq_some_iff.mp h
      exact .div (hx (by decide)) hq
    case hold => cases h
    case jmp | jeq | jge | jle | jgt | jlt =>
      cases h
      exact .jump (hx (by decide)) rfl

/-- **No instruction changes the number of registers.** -/
theorem Executed.size_eq {r s : Registers} {c d : Nat} {op : Opcode}
    {x : Int64} (h : r.Executed c x op (s, d)) : s.size = r.size := by
  cases h with
  | loadi | load | loadind | add | sub | mul | div => exact size_setAcc r _
  | store _ hw | storeind _ _ hw => exact size_of_write? hw
  | jump => rfl

end Registers

namespace Machine

variable {m : Machine}

/-- **The four kinds of tick.** -/
inductive IsTick (m : Machine) : Status × Machine → Prop where
  /-- The counter addresses no instruction. -/
  | noInstruction (hnone : m.current? = none) : IsTick m (.noInstruction, m)
  /-- It addresses a `hold`. -/
  | halted {i : Instruction} (hi : m.current? = some i)
      (hop : i.opcode = .hold) : IsTick m (.halted, m)
  /-- The operand is no word, or not one the instruction can use. -/
  | invalidOperand {i : Instruction} (hi : m.current? = some i)
      (hop : i.opcode ≠ .hold)
      (hx : ∀ x, i.integerOperand? = some x →
        m.registers.execute? m.counter i.opcode x = none) :
      IsTick m (.invalidOperand, m)
  /-- The instruction is executed. -/
  | continued {i : Instruction} {x : Int64} {registers : Registers}
      {counter : Nat} (hi : m.current? = some i) (hop : i.opcode ≠ .hold)
      (hx : i.integerOperand? = some x)
      (hexec : m.registers.execute? m.counter i.opcode x
        = some (registers, counter)) :
      IsTick m (.continued,
        { m with registers, counter, cycles := m.cycles + 1 })

/-- **Every tick is of one of the four kinds.** -/
theorem isTick_advance (m : Machine) : m.IsTick m.advance := by
  unfold advance
  cases hi : m.current? with
  | none => exact .noInstruction hi
  | some i =>
    dsimp only
    split
    · next hop => exact .halted hi hop
    · next hop =>
      split
      · next hnone =>
        refine .invalidOperand hi hop fun x hx => ?_
        rwa [hx] at hnone
      · next hsome =>
        obtain ⟨x, hx, hexec⟩ := Option.bind_eq_some_iff.mp hsome
        exact .continued hi hop hx hexec

/-- **An instruction that can be executed is**, and the step records that the
machine goes on. -/
theorem step_of_execute? {i : Instruction} {x : Int64} {registers : Registers}
    {counter : Nat} (hi : m.current? = some i) (hop : i.opcode ≠ .hold)
    (hx : i.integerOperand? = some x)
    (hexec : m.registers.execute? m.counter i.opcode x
      = some (registers, counter)) :
    m.step = (.continued,
      { m with
        registers, counter
        lastStatus := .continued, cycles := m.cycles + 1 }) := by
  unfold step advance
  rw [hi]
  dsimp only
  rw [if_neg hop, hx, Option.bind_some, hexec]

/-- **Settings, run flag and last status take no part in a tick.** -/
theorem advance_with (m : Machine) (settings : Settings) (running : Bool)
    (lastStatus : Status) :
    { m with settings, running, lastStatus }.advance
      = (m.advance.1, { m.advance.2 with settings, running, lastStatus }) := by
  unfold advance current?
  cases m.program.get? m.counter with
  | none => rfl
  | some i =>
    dsimp only
    split
    · rfl
    · cases i.integerOperand?.bind (m.registers.execute? m.counter i.opcode) <;> rfl

theorem step_with (m : Machine) (settings : Settings) (running : Bool) :
    { m with settings, running }.step
      = (m.step.1, { m.step.2 with settings, running }) := by
  unfold step
  rw [advance_with m settings running m.lastStatus]

/-- **What the last tick came to is no matter to the next.** -/
theorem step_with_lastStatus (m : Machine) (lastStatus : Status) :
    { m with lastStatus }.step = m.step := by
  have hadvance := advance_with m m.settings m.running m.lastStatus
  unfold step
  rw [advance_with m m.settings m.running lastStatus]
  exact congrArg (fun tick => (tick.1, { tick.2 with lastStatus := tick.1 }))
    hadvance.symm

/-! ## What a tick leaves alone -/

theorem settings_advance (m : Machine) : m.advance.2.settings = m.settings := by
  have h := m.isTick_advance
  generalize m.advance = tick at h
  cases h with
  | noInstruction | halted | invalidOperand | continued => rfl

theorem program_advance (m : Machine) : m.advance.2.program = m.program := by
  have h := m.isTick_advance
  generalize m.advance = tick at h
  cases h with
  | noInstruction | halted | invalidOperand | continued => rfl

theorem settings_step (m : Machine) : m.step.2.settings = m.settings :=
  m.settings_advance

/-- **A tick never changes how many registers there are.** -/
theorem size_registers_advance (m : Machine) :
    m.advance.2.registers.size = m.registers.size := by
  have h := m.isTick_advance
  generalize m.advance = tick at h
  cases h with
  | noInstruction | halted | invalidOperand => rfl
  | continued _ _ _ hexec => exact (Registers.executed_of_execute? hexec).size_eq

theorem size_registers_tick (m : Machine) :
    m.tick.2.registers.size = m.registers.size := by
  unfold tick
  split
  · dsimp only
    split <;> exact m.size_registers_advance
  · rfl

/-- A tick of a run leaves the settings alone, and with them the delay. -/
theorem settings_tick (m : Machine) : m.tick.2.settings = m.settings := by
  unfold tick
  split
  · dsimp only
    split <;> exact m.settings_advance
  · rfl

/-- **During a run every tick has an outcome, and records it.** -/
theorem tick_of_running (h : m.running = true) :
    m.tick.1 = some m.advance.1 ∧ m.tick.2.lastStatus = m.advance.1 := by
  unfold tick
  rw [if_pos h]
  refine ⟨rfl, ?_⟩
  dsimp only
  split <;> rfl

end Machine

end RegisterMachine
