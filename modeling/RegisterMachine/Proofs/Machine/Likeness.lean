import RegisterMachine.Machine.Json
import RegisterMachine.Machine.Operation
import RegisterMachine.Proofs.Json.Library
import RegisterMachine.Proofs.Json.Written
import RegisterMachine.Proofs.Program.Settled
import RegisterMachine.Proofs.Registers.ReadBack

/-!
# Machines that are written alike behave alike

The JSON text of a machine does not quite determine the machine: an operand
that is not finite is written as `null`, like one that is absent.
`Machine.settle` takes such operands away, and two machines have one text only
if they are equal once settled (`Machine.settle_eq_of_write`). This is so of the
text that any writer gives them, in either layout.

What the text does determine is the behaviour. No instruction can use an
operand that is not finite, and none is told from one without: settling a
machine changes nothing that an operation replies or does
(`Machine.perform_settle`). So machines that are written alike go through every
history alike (`Machine.alike_along_history`).
-/

namespace RegisterMachine

/-! ## What the text keeps -/

theorem Registers.toJson_injective : Function.Injective Registers.toJson := by
  rintro ⟨r⟩ ⟨s⟩ h
  simp only [toJson, Json.object.injEq, List.cons.injEq, Prod.mk.injEq,
    Json.array.injEq, and_true, true_and] at h
  have hlist : r.toList = s.toList := by
    refine List.map_injective_iff.mpr (fun v w hvw => ?_) h
    exact Int64.toInt_inj.mp (Json.int.inj hvw)
  exact congrArg Registers.mk (Array.toList_inj.mp hlist)

theorem Settings.toJson_injective : Function.Injective Settings.toJson := by
  rintro ⟨delay, count, span⟩ ⟨delay', count', span'⟩ h
  simp only [toJson, Json.object.injEq, List.cons.injEq, Prod.mk.injEq,
    Json.int.injEq, Int.natCast_inj, UInt64.toNat_inj, and_true,
    true_and] at h
  obtain ⟨rfl, rfl, rfl⟩ := h
  rfl

theorem Status.toJson_injective : Function.Injective Status.toJson := by
  intro s s' h
  have hcode : s.code = s'.code := Json.int.inj h
  have hsome : some s = some s' := by
    rw [← Status.ofCode?_code s, hcode, Status.ofCode?_code s']
  exact Option.some.inj hsome

namespace Machine

/-- **The machine without operands that are not finite.** -/
def settle (m : Machine) : Machine := { m with program := m.program.settle }

theorem settle_toJson (m : Machine) : m.toJson.settle = m.settle.toJson := by
  unfold toJson settle
  rw [Json.settle_object]
  simp only [List.map_cons, List.map_nil, Registers.settle_toJson,
    Program.settle_toJson]
  rfl

theorem toJson_injective : Function.Injective toJson := by
  rintro ⟨r, p, c, settings, running, status, cycles⟩
    ⟨r', p', c', settings', running', status', cycles'⟩ h
  simp only [toJson, Json.object.injEq, List.cons.injEq, Prod.mk.injEq,
    Json.int.injEq, Json.bool.injEq, Int.natCast_inj, UInt64.toNat_inj,
    Registers.toJson_injective.eq_iff, Program.toJson_injective.eq_iff,
    Settings.toJson_injective.eq_iff, Status.toJson_injective.eq_iff,
    and_true, true_and] at h
  obtain ⟨rfl, rfl, rfl, rfl, rfl, rfl, rfl⟩ := h
  rfl

/-- **Machines with one text are equal once settled**, whatever writes it. -/
theorem settle_eq_of_write {digits : Binary64 → Json.NumberText}
    {write : Json → String} (hwrite : Json.IsWriter digits write)
    {m m' : Machine} (h : write m.toJson = write m'.toJson) :
    m.settle = m'.settle := by
  apply toJson_injective
  rw [← settle_toJson, ← settle_toJson]
  exact hwrite.settle_eq h

/-! ## What an operation makes of a settled machine -/

/-- **A tick does not see what is settled.** -/
theorem advance_settle (m : Machine) :
    m.settle.advance = (m.advance.1, m.advance.2.settle) := by
  have hcurrent : m.settle.current? = m.current?.map Instruction.settle :=
    m.program.get?_settle m.counter
  unfold advance
  rw [hcurrent]
  cases m.current? with
  | none => rfl
  | some i =>
    have hexecute : i.settle.integerOperand?.bind
          (m.settle.registers.execute? m.settle.counter i.settle.opcode)
        = i.integerOperand?.bind
          (m.registers.execute? m.counter i.opcode) := by
      rw [i.integerOperand?_settle]
      rfl
    rw [Option.map_some]
    dsimp only
    rw [hexecute]
    show (if i.opcode = .hold then _ else _) = _
    split
    · rfl
    · cases i.integerOperand?.bind (m.registers.execute? m.counter i.opcode)
        <;> rfl

theorem step_settle (m : Machine) :
    m.settle.step = (m.step.1, m.step.2.settle) := by
  unfold step
  rw [advance_settle]
  rfl

theorem tick_settle (m : Machine) :
    m.settle.tick = (m.tick.1, m.tick.2.settle) := by
  unfold tick
  show (if m.running then _ else _) = _
  split
  · rw [step_settle]
    dsimp only
    split <;> rfl
  · rfl

theorem runFrom_settle (ticks limit : ℕ) (m : Machine) :
    runFrom ticks limit m.settle
      = ((runFrom ticks limit m).1, (runFrom ticks limit m).2.settle) := by
  induction limit generalizing ticks m with
  | zero => rfl
  | succ limit ih =>
    unfold runFrom
    rw [step_settle]
    dsimp only
    split
    · exact ih _ _
    · rfl

@[simp] theorem settle_settle (m : Machine) : m.settle.settle = m.settle := by
  unfold settle
  rw [Program.settle_settle]

/-- **Settling a machine changes no reply** and, once settled again, no
machine that follows. -/
theorem perform_settle (m : Machine) (op : Operation) :
    (m.settle.perform op).1 = (m.perform op).1
      ∧ (m.settle.perform op).2.settle = (m.perform op).2.settle := by
  cases op with
  | load p => exact ⟨rfl, rfl⟩
  | loadSource source =>
    simp only [perform, loadSource]
    cases Program.parse source with
    | ok p => exact ⟨rfl, rfl⟩
    | error e => exact ⟨rfl, m.settle_settle⟩
  | step =>
    unfold perform
    rw [step_settle]
    exact ⟨rfl, settle_settle _⟩
  | advance =>
    unfold perform
    rw [advance_settle]
    exact ⟨rfl, settle_settle _⟩
  | tick =>
    unfold perform
    dsimp only
    rw [tick_settle]
    obtain ⟨status, n⟩ := m.tick
    cases status <;> exact ⟨rfl, n.settle_settle⟩
  | run limit =>
    simp only [perform, run]
    rw [runFrom_settle]
    exact ⟨rfl, settle_settle _⟩
  | start delay => exact ⟨rfl, settle_settle (m.start delay)⟩
  | stop => exact ⟨rfl, settle_settle m.stop⟩
  | reset => exact ⟨rfl, settle_settle m.reset⟩
  | setDelay delay => exact ⟨rfl, settle_settle (m.setDelay delay)⟩

/-- Machines that are equal once settled take every operation alike. -/
theorem perform_of_settle_eq {m m' : Machine} (h : m.settle = m'.settle)
    (op : Operation) :
    (m.perform op).1 = (m'.perform op).1
      ∧ (m.perform op).2.settle = (m'.perform op).2.settle := by
  obtain ⟨hreply, hsettle⟩ := m.perform_settle op
  obtain ⟨hreply', hsettle'⟩ := m'.perform_settle op
  rw [h] at hreply hsettle
  exact ⟨hreply.symm.trans hreply', hsettle.symm.trans hsettle'⟩

/-- Machines that are equal once settled go through every history alike. -/
theorem performAll_of_settle_eq {m m' : Machine} (h : m.settle = m'.settle)
    (ops : List Operation) :
    m.replies ops = m'.replies ops
      ∧ (m.performAll ops).settle = (m'.performAll ops).settle := by
  induction ops generalizing m m' with
  | nil => exact ⟨rfl, h⟩
  | cons op ops ih =>
    obtain ⟨hreply, hsettle⟩ := perform_of_settle_eq h op
    obtain ⟨hreplies, hafter⟩ := ih hsettle
    exact ⟨by rw [replies, replies, hreply, hreplies], hafter⟩

/-- **Machines that are written alike behave alike.** If a writer gives two
machines the same text, then along every history they give the same replies, and
after it they have the same registers, counter, cycles, run flag, last status
and delay. -/
theorem alike_along_history {digits : Binary64 → Json.NumberText}
    {write : Json → String} (hwrite : Json.IsWriter digits write)
    {m m' : Machine} (h : write m.toJson = write m'.toJson)
    (ops : List Operation) :
    m.replies ops = m'.replies ops
      ∧ (m.performAll ops).registers = (m'.performAll ops).registers
      ∧ (m.performAll ops).counter = (m'.performAll ops).counter
      ∧ (m.performAll ops).cycles = (m'.performAll ops).cycles
      ∧ (m.performAll ops).running = (m'.performAll ops).running
      ∧ (m.performAll ops).lastStatus = (m'.performAll ops).lastStatus
      ∧ (m.performAll ops).delay = (m'.performAll ops).delay := by
  obtain ⟨hreplies, hsettle⟩ :=
    performAll_of_settle_eq (settle_eq_of_write hwrite h) ops
  have hregisters := congrArg registers hsettle
  have hcounter := congrArg counter hsettle
  have hcycles := congrArg cycles hsettle
  have hrunning := congrArg running hsettle
  have hstatus := congrArg lastStatus hsettle
  have hdelay := congrArg delay hsettle
  exact ⟨hreplies, hregisters, hcounter, hcycles, hrunning, hstatus, hdelay⟩

/-- A machine that is to store a seven, with an operand that names where. -/
def storing (operand : Option Binary64) : Machine :=
  (new ⟨100, 2, 1⟩).load
    (.ofList [⟨.loadi, some (.ofInt 7)⟩, ⟨.store, operand⟩])

/-- **Storing at infinity is written like storing nowhere**, and both fail at
the same tick with the seven still in the accumulator. -/
theorem storing_at_infinity_alike :
    Json.IsWriter Json.realParts Json.compact
      ∧ storing (some (.infinity false)) ≠ storing none
      ∧ (storing (some (.infinity false))).toJson.compact
        = (storing none).toJson.compact
      ∧ (storing none).replies [.start 5, .tick, .tick, .run 3, .reset]
        = [.done, .status .continued, .status .invalidOperand,
          .outcome ⟨.invalidOperand, 1⟩, .done]
      ∧ (storing (some (.infinity false))).replies
          [.start 5, .tick, .tick, .run 3, .reset]
        = (storing none).replies [.start 5, .tick, .tick, .run 3, .reset]
      ∧ ((storing (some (.infinity false))).performAll
          [.start 5, .tick, .tick]).registers
        = ((storing none).performAll [.start 5, .tick, .tick]).registers := by
  have htext : (storing (some (.infinity false))).toJson.compact
      = (storing none).toJson.compact := by decide +kernel
  have hwrite := Json.isWriter_compact
  exact ⟨hwrite, by decide, htext, by decide +kernel,
    (alike_along_history hwrite htext _).1,
    (alike_along_history hwrite htext _).2.1⟩

end Machine

end RegisterMachine
