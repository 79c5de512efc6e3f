import RegisterMachine.Proofs.Machine.History

/-!
# A machine that does not go on stays where it is

A tick that does not go on leaves registers, program, counter and cycles as
they were, and these alone decide the outcome of the next tick. So whatever a
host does short of loading a program or resetting the machine, it is told the
same outcome over and over: the machine is *stuck*.

Two machines that agree in those four fields stand at the same place
(`Machine.SamePlace`). An operation that does not restart a stuck machine
leaves it at its place, and every tick it executes on the way has the outcome
that the first one had; `Machine.stuck_until_restarted` draws the two along
every history.
-/

namespace RegisterMachine

/-- **An operation that gives a machine something new to execute**: a reset,
and a load unless the text is no program. -/
def Operation.restarts : Operation → Bool
  | .load _ => true
  | .loadSource source => (Program.parse source).isOk
  | .reset => true
  | _ => false

/-- A text that gives nothing new to execute is no program. -/
theorem Operation.exists_parse_error {source : String}
    (h : (Operation.loadSource source).restarts = false) :
    ∃ e, Program.parse source = .error e := by
  cases hparse : Program.parse source with
  | error e => exact ⟨e, rfl⟩
  | ok p =>
    rw [Operation.restarts, hparse] at h
    cases h

namespace Machine

open Event

variable {m m' : Machine} {op : Operation}

/-- **Two machines stand at the same place**: they may differ in settings,
run flag and last status. -/
structure SamePlace (m m' : Machine) : Prop where
  registers_eq : m'.registers = m.registers
  program_eq : m'.program = m.program
  counter_eq : m'.counter = m.counter
  cycles_eq : m'.cycles = m.cycles

/-- A restart is one event. -/
theorem exists_events_of_restarts (m : Machine) (hop : op.restarts = true) :
    ∃ e, m.events op = [e] ∧ e.restarts = true := by
  cases op with
  | load p => exact ⟨.loaded p, rfl, rfl⟩
  | loadSource source =>
    cases hparse : Program.parse source with
    | ok p => exact ⟨.loaded p, events_loadSource_of_ok hparse, rfl⟩
    | error error =>
      rw [Operation.restarts, hparse] at hop
      cases hop
  | reset => exact ⟨.reset, rfl, rfl⟩
  | step | advance | tick | run | start | stop | setDelay => cases hop

namespace SamePlace

theorem refl (m : Machine) : SamePlace m m := ⟨rfl, rfl, rfl, rfl⟩

/-- **The place decides the outcome of a tick.** -/
theorem advance_fst (h : SamePlace m m') : m'.advance.1 = m.advance.1 := by
  have hm : m' = { m with
      settings := m'.settings, running := m'.running
      lastStatus := m'.lastStatus } := by
    rw [← h.registers_eq, ← h.program_eq, ← h.counter_eq, ← h.cycles_eq]
  rw [hm, advance_with]

variable (h : SamePlace m m') (hstuck : m.advance.1 ≠ .continued)
include h hstuck

/-! ## One operation -/

/-- **A tick of a stuck machine** says what the first one said, and nothing
else happens. -/
theorem advance_eq : m'.advance = (m.advance.1, m') := by
  have hcontinue : m'.advance.1.isContinue = false := by
    rw [h.advance_fst]
    exact beq_false_of_ne hstuck
  exact Prod.ext h.advance_fst (advance_snd_of_not_isContinue hcontinue)

theorem step_eq :
    m'.step = (m.advance.1, { m' with lastStatus := m.advance.1 }) := by
  unfold step
  rw [h.advance_eq hstuck]

/-- A tick of a run ends it. -/
theorem tick_eq (hrun : m'.running = true) :
    m'.tick = (some m.advance.1,
      { m' with lastStatus := m.advance.1, running := false }) := by
  have hcontinue : m.advance.1.isContinue = false := beq_false_of_ne hstuck
  unfold tick
  rw [if_pos hrun, h.step_eq hstuck]
  dsimp only
  rw [hcontinue]
  rfl

/-- A run up to a limit comes to its end with its first tick. -/
theorem run_eq (limit : ℕ) :
    m'.run (limit + 1)
      = (⟨m.advance.1, 1⟩, { m' with lastStatus := m.advance.1 }) := by
  have hcontinue : m.advance.1.isContinue = false := beq_false_of_ne hstuck
  unfold run runFrom
  rw [h.step_eq hstuck]
  dsimp only
  rw [hcontinue]
  rfl

theorem trace_eq (limit : ℕ) :
    m'.trace (limit + 1)
      = [(m.advance.1, { m' with lastStatus := m.advance.1 })] := by
  have hcontinue : m.advance.1.isContinue = false := beq_false_of_ne hstuck
  unfold trace
  rw [h.step_eq hstuck]
  dsimp only
  rw [hcontinue]
  rfl

/-- **An operation that does not restart the machine leaves it at its
place.** -/
theorem perform (hop : op.restarts = false) :
    SamePlace m (m'.perform op).2 := by
  obtain ⟨hregisters, hprogram, hcounter, hcycles⟩ := id h
  cases op with
  | load p => cases hop
  | loadSource source =>
    obtain ⟨e, hparse⟩ := Operation.exists_parse_error hop
    rw [perform_loadSource_of_error hparse]
    exact h
  | step =>
    show SamePlace m m'.step.2
    rw [h.step_eq hstuck]
    exact ⟨hregisters, hprogram, hcounter, hcycles⟩
  | advance =>
    show SamePlace m m'.advance.2
    rw [h.advance_eq hstuck]
    exact h
  | tick =>
    cases hrun : m'.running with
    | false =>
      rw [perform_tick_of_not_running hrun]
      exact h
    | true =>
      rw [perform_tick, h.tick_eq hstuck hrun]
      exact ⟨hregisters, hprogram, hcounter, hcycles⟩
  | run limit =>
    show SamePlace m (m'.run limit).2
    cases limit with
    | zero => exact h
    | succ limit =>
      rw [h.run_eq hstuck]
      exact ⟨hregisters, hprogram, hcounter, hcycles⟩
  | start | stop | setDelay => exact ⟨hregisters, hprogram, hcounter, hcycles⟩
  | reset => cases hop

/-- **The ticks of such an operation all have the one outcome**, and it loads
and resets nothing. -/
theorem events_eq (hop : op.restarts = false) {e : Event}
    (he : e ∈ m'.events op) :
    e.restarts = false
      ∧ ∀ driver status, e = .executed driver status → status = m.advance.1 := by
  have hexecuted : ∀ driver, (Event.executed driver m.advance.1).restarts = false
      ∧ ∀ d status, Event.executed driver m.advance.1 = .executed d status →
        status = m.advance.1 :=
    fun driver => ⟨rfl, fun d status heq => (Event.executed.inj heq).2.symm⟩
  cases op with
  | load p => cases hop
  | loadSource source =>
    obtain ⟨error, hparse⟩ := Operation.exists_parse_error hop
    rw [events_loadSource_of_error hparse] at he
    cases he
  | step =>
    rw [events, h.step_eq hstuck] at he
    obtain rfl := List.mem_singleton.mp he
    exact hexecuted .step
  | advance =>
    rw [events, h.advance_eq hstuck] at he
    obtain rfl := List.mem_singleton.mp he
    exact hexecuted .advance
  | tick =>
    cases hrun : m'.running with
    | false =>
      rw [events_tick_of_not_running hrun] at he
      cases he
    | true =>
      rw [events, h.tick_eq hstuck hrun] at he
      obtain rfl := List.mem_singleton.mp he
      exact hexecuted .tick
  | run limit =>
    cases limit with
    | zero => cases he
    | succ limit =>
      rw [events, h.trace_eq hstuck] at he
      obtain rfl := List.mem_singleton.mp he
      exact hexecuted .run
  | start | stop | setDelay =>
    obtain rfl := List.mem_singleton.mp he
    exact ⟨rfl, fun driver status heq => by cases heq⟩
  | reset => cases hop

/-- **A reply that tells of a tick tells the one outcome.** -/
theorem status_of_perform (hop : op.restarts = false) {status : Status}
    (hreply : (m'.perform op).1 = .status status) : status = m.advance.1 := by
  -- the operations with such a reply are those that tick once
  obtain ⟨driver, he⟩ : ∃ driver, .executed driver status ∈ m'.events op := by
    rw [← told_perform, hreply]
    cases op with
    | step => exact ⟨.step, List.mem_singleton_self _⟩
    | advance => exact ⟨.advance, List.mem_singleton_self _⟩
    | tick => exact ⟨.tick, List.mem_singleton_self _⟩
    | loadSource source =>
      obtain ⟨e, hparse⟩ := Operation.exists_parse_error hop
      rw [perform_loadSource_of_error hparse] at hreply
      cases hreply
    | load | run | start | stop | reset | setDelay => cases hreply
  exact (h.events_eq hstuck hop he).2 driver status rfl

/-! ## Histories -/

/-- **A history without a restart leaves the machine at its place.** -/
theorem performAll {ops : List Operation}
    (hops : ∀ op ∈ ops, op.restarts = false) :
    SamePlace m (m'.performAll ops) := by
  induction ops generalizing m' with
  | nil => exact h
  | cons op ops ih =>
    obtain ⟨hop, hops⟩ := List.forall_mem_cons.mp hops
    exact ih (h.perform hstuck hop) hops

/-- **What a host is told along it**: wherever a tick is reported it has the
one outcome, and a run up to a limit reports one tick. -/
theorem reply_eq {ops : List Operation}
    (hops : ∀ op ∈ ops, op.restarts = false) {r : Reply}
    (hr : (op, r) ∈ ops.zip (m'.replies ops)) :
    (∀ status, r = .status status → status = m.advance.1)
      ∧ ∀ limit, op = .run (limit + 1) → r = .outcome ⟨m.advance.1, 1⟩ := by
  induction ops generalizing m' with
  | nil => cases hr
  | cons op' ops ih =>
    obtain ⟨hop, hops⟩ := List.forall_mem_cons.mp hops
    rcases List.mem_cons.mp hr with heq | hr
    · obtain ⟨rfl, rfl⟩ := Prod.mk.inj heq
      exact ⟨fun status => h.status_of_perform hstuck hop,
        fun limit hrun => by rw [hrun, Machine.perform, h.run_eq hstuck]⟩
    · exact ih (h.perform hstuck hop) hops hr

/-- **Up to the first restart every tick has the one outcome**, in a history
that may restart the machine. -/
theorem status_eq_of_log {ops : List Operation} {before after : List Event}
    {driver : Driver} {status : Status}
    (hlog : m'.log ops = before ++ .executed driver status :: after)
    (hbefore : ∀ e ∈ before, e.restarts = false) :
    status = m.advance.1 := by
  induction ops generalizing m' before with
  | nil => exact absurd hlog.symm (List.append_ne_nil_of_right_ne_nil _
      (List.cons_ne_nil _ _))
  | cons op ops ih =>
    replace hlog : m'.events op ++ (m'.perform op).2.log ops = _ := hlog
    cases hop : op.restarts with
    | true =>
      -- the restart is the first event, and so it stands in front of the tick
      obtain ⟨e, hevents, he⟩ := exists_events_of_restarts m' hop
      rw [hevents] at hlog
      cases before with
      | nil =>
        obtain ⟨rfl, -⟩ := List.cons.inj hlog
        cases he
      | cons e' before =>
        obtain ⟨rfl, -⟩ := List.cons.inj hlog
        exact absurd he (Bool.eq_false_iff.mp (hbefore e (List.mem_cons_self ..)))
    | false =>
      -- the tick is one of this operation's, or it comes later
      rcases List.append_eq_append_iff.mp hlog with
        ⟨rest, rfl, hrest⟩ | ⟨rest, hevents, hrest⟩
      · exact ih (h.perform hstuck hop) hrest fun e he =>
          hbefore e (List.mem_append_right _ he)
      · cases rest with
        | nil =>
          have hlater : (m'.perform op).2.log ops
              = [] ++ .executed driver status :: after := hrest.symm
          exact ih (h.perform hstuck hop) hlater
            fun e he => absurd he List.not_mem_nil
        | cons e rest =>
          obtain ⟨rfl, -⟩ := List.cons.inj hrest
          have he : .executed driver status ∈ m'.events op := by
            rw [hevents]
            exact List.mem_append_right _ (List.mem_cons_self ..)
          exact (h.events_eq hstuck hop he).2 driver status rfl

/-- A history without a restart has no event that is one. -/
theorem restarts_eq_false_of_mem_log {ops : List Operation}
    (hops : ∀ op ∈ ops, op.restarts = false) {e : Event}
    (he : e ∈ m'.log ops) : e.restarts = false := by
  induction ops generalizing m' with
  | nil => cases he
  | cons op ops ih =>
    obtain ⟨hop, hops⟩ := List.forall_mem_cons.mp hops
    rcases List.mem_append.mp he with he | he
    · exact (h.events_eq hstuck hop he).1
    · exact ih (h.perform hstuck hop) hops he

end SamePlace

/-- **Faults and halts last and do no harm.** Let a tick not go on. Along any
history without a restart every tick that is executed or reported has the same
outcome, a run up to a limit that is not zero reports it after one tick, and
registers, counter, program and cycles stay as they are. And in any history at
all a tick goes on only behind a load or a reset. -/
theorem stuck_until_restarted (hstuck : m.advance.1 ≠ .continued)
    (ops : List Operation) :
    ((∀ op ∈ ops, op.restarts = false) →
        (∀ driver status, .executed driver status ∈ m.log ops →
            status = m.advance.1)
          ∧ (∀ op status, (op, .status status) ∈ ops.zip (m.replies ops) →
            status = m.advance.1)
          ∧ (∀ limit r, 1 ≤ limit →
            (.run limit, r) ∈ ops.zip (m.replies ops) →
              r = .outcome ⟨m.advance.1, 1⟩)
          ∧ (m.performAll ops).registers = m.registers
          ∧ (m.performAll ops).counter = m.counter
          ∧ (m.performAll ops).program = m.program
          ∧ (m.performAll ops).cycles = m.cycles)
      ∧ ∀ before driver after,
        m.log ops = before ++ .executed driver .continued :: after →
          ∃ e ∈ before, e.restarts = true := by
  have hplace := SamePlace.refl m
  refine ⟨fun hops => ⟨fun driver status he => ?_, fun op status hr => ?_,
    fun limit r hlimit hr => ?_, ?_⟩, fun before driver after hlog => ?_⟩
  · obtain ⟨before, after, hlog⟩ := List.append_of_mem he
    refine hplace.status_eq_of_log hstuck hlog fun e he => ?_
    refine hplace.restarts_eq_false_of_mem_log hstuck hops ?_
    rw [hlog]
    exact List.mem_append_left _ he
  · exact (hplace.reply_eq hstuck hops hr).1 status rfl
  · obtain ⟨limit, rfl⟩ := Nat.exists_eq_add_of_le' hlimit
    exact (hplace.reply_eq hstuck hops hr).2 limit rfl
  · obtain ⟨hregisters, hprogram, hcounter, hcycles⟩ :=
      hplace.performAll hstuck hops
    exact ⟨hregisters, hcounter, hprogram, hcycles⟩
  · by_contra hnone
    push Not at hnone
    refine hstuck (hplace.status_eq_of_log hstuck hlog fun e he => ?_).symm
    exact Bool.eq_false_iff.mpr (hnone e he)

/-- Everything short of a restart, on a machine that holds: a run is begun and
ended by its first tick, and a text that is no program is refused. -/
def idling : List Operation :=
  [.start 5, .tick, .tick, .run 3, .loadSource "jump", .setDelay 7, .advance,
   .step, .stop]

/-- A machine that holds with a value in its accumulator keeps it. -/
theorem holding_idles :
    let m := { new .standard with
      registers := ⟨#[7]⟩, program := .ofList [⟨.hold, none⟩] }
    m.advance.1 = .halted
      ∧ (∀ op ∈ idling, op.restarts = false)
      ∧ (.run 3, .outcome ⟨.halted, 1⟩) ∈ idling.zip (m.replies idling)
      ∧ (m.performAll idling).registers = ⟨#[7]⟩ := by
  intro m
  have hstatus : m.advance.1 = .halted := by decide
  have hops : ∀ op ∈ idling, op.restarts = false := by decide +kernel
  have hrun : (.run 3, .outcome ⟨.halted, 1⟩) ∈ idling.zip (m.replies idling) := by
    decide +kernel
  have hstuck : m.advance.1 ≠ .continued := by rw [hstatus]; decide
  exact ⟨hstatus, hops, hrun, ((stuck_until_restarted hstuck idling).1 hops).2.2.2.1⟩

end Machine

end RegisterMachine
