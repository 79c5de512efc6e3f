import Mathlib.Data.List.DropRight
import RegisterMachine.Machine.Operation
import RegisterMachine.Proofs.Latest
import RegisterMachine.Proofs.Machine.Tick

/-!
# The bookkeeping of a machine is a matter of its history

What a machine is asked, and which ticks it executes because of it, is a list
of events (`Machine.log`): a program is loaded, a tick is executed by one of
four operations and has an outcome, a run is begun or ended, the machine is
reset, the delay is set. A text that is no program, a tick outside a run and
a run of no ticks are no events.

Everything that the machine keeps beside its registers and its counter can be
read off that list. `Machine.Accounts` says how, field by field, and
`Machine.accounts_performAll` that it holds after every history. An event
enters the books in one way (`Machine.Entered`), so the invariant is kept by
events and not by operations one by one; an operation is the events that it
gives rise to. And the events are no more than what a host is told: they can
be recovered from the operations and the replies (`Operation.told`).
-/

namespace RegisterMachine

/-- **The operation that executes a tick.** -/
inductive Driver where
  | advance
  | step
  | tick
  | run
  deriving DecidableEq, Repr

/-- **What happens to a machine.** -/
inductive Event where
  | loaded (program : Program)
  | executed (driver : Driver) (status : Status)
  | started (delay : UInt64)
  | stopped
  | reset
  | delaySet (delay : UInt64)
  deriving DecidableEq, Repr

namespace Event

def program? : Event → Option Program
  | .loaded p => some p
  | _ => none

def delay? : Event → Option UInt64
  | .started delay => some delay
  | .delaySet delay => some delay
  | _ => none

/-- The outcome of a tick, unless `advance` executed it. -/
def recorded? : Event → Option Status
  | .executed .advance _ => none
  | .executed _ status => some status
  | _ => none

/-- A tick that went on. -/
def isContinued : Event → Bool
  | .executed _ status => status.isContinue
  | _ => false

def isReset : Event → Bool
  | .reset => true
  | _ => false

/-- The cycles are counted anew. -/
def restarts : Event → Bool
  | .loaded _ => true
  | .reset => true
  | _ => false

def beginsRun : Event → Bool
  | .started _ => true
  | _ => false

/-- A run ends if it is stopped, if the machine is reset, and if `tick`
executed a tick that did not go on. -/
def endsRun : Event → Bool
  | .stopped => true
  | .reset => true
  | .executed .tick status => !status.isContinue
  | _ => false

/-- The latest of the things that some events tell. -/
def latest {α : Type} (f : Event → Option α) (log : List Event) : Option α :=
  (log.filterMap f).getLast?

/-- The events behind the latest one of a kind; all if there is none. -/
def since (p : Event → Bool) (log : List Event) : List Event :=
  log.rtakeWhile fun e => !p e

/-- **A run is under way**: one was begun, and nothing behind that ends
it. -/
def UnderWay (log : List Event) : Prop :=
  ∃ before e after, log = before ++ e :: after ∧ e.beginsRun = true
    ∧ ∀ e' ∈ after, e'.endsRun = false

/-! ## One more event -/

theorem latest_concat {α : Type} (f : Event → Option α) (log : List Event)
    (e : Event) : latest f (log ++ [e]) = (f e).or (latest f log) := by
  unfold latest
  rw [List.filterMap_append]
  cases h : f e with
  | none =>
    rw [List.filterMap_cons_none h, List.filterMap_nil, List.append_nil,
      Option.none_or]
  | some a =>
    rw [List.filterMap_cons_some h, List.filterMap_nil, List.getLast?_concat,
      Option.some_or]

theorem since_concat (p : Event → Bool) (log : List Event) (e : Event) :
    since p (log ++ [e]) = if p e then [] else since p log ++ [e] := by
  unfold since
  rw [List.rtakeWhile_concat]
  cases p e <;> rfl

theorem underWay_concat (log : List Event) (e : Event) :
    UnderWay (log ++ [e])
      ↔ e.beginsRun = true ∨ (UnderWay log ∧ e.endsRun = false) :=
  exists_latest_concat_iff log e

end Event

namespace Machine

open Event

variable {settings : Settings} {past : List Event} {e : Event}
  {m m' : Machine}

/-- **The books of a machine are the account of its history.** The registers
are as many as there were and the settings are as they were, but for the
delay, which was set last or never. The program is the one loaded last. The
cycles are the ticks that went on since the last load or reset, in 64 bits,
and the last status is that of the latest recorded tick since the last
reset. -/
structure Accounts (settings : Settings) (past : List Event) (m : Machine) :
    Prop where
  size_registers : m.registers.size = settings.registerCount.toNat
  settings_eq : m.settings
    = { settings with delay := (latest delay? past).getD settings.delay }
  program_eq : m.program = (latest program? past).getD .empty
  cycles_eq : m.cycles = .ofNat ((since restarts past).countP isContinued)
  lastStatus_eq : m.lastStatus
    = (latest recorded? (since isReset past)).getD .halted
  running_iff : m.running = true ↔ UnderWay past

/-- **How an event enters the books.** -/
structure Entered (e : Event) (m m' : Machine) : Prop where
  size_eq : m'.registers.size = m.registers.size
  settings_eq : m'.settings
    = { m.settings with delay := e.delay?.getD m.settings.delay }
  program_eq : m'.program = e.program?.getD m.program
  cycles_eq : m'.cycles
    = if e.restarts then 0 else if e.isContinued then m.cycles + 1 else m.cycles
  lastStatus_eq : m'.lastStatus
    = if e.isReset then .halted else e.recorded?.getD m.lastStatus
  running_eq : m'.running = (e.beginsRun || (m.running && !e.endsRun))

/-- **A new machine has no history.** -/
theorem accounts_new (settings : Settings) : Accounts settings [] (new settings) where
  size_registers := Registers.size_zero _
  settings_eq := rfl
  program_eq := rfl
  cycles_eq := rfl
  lastStatus_eq := rfl
  running_iff := by
    refine iff_of_false Bool.false_ne_true ?_
    rintro ⟨before, b, after, hlog, -⟩
    exact List.append_ne_nil_of_right_ne_nil _ (List.cons_ne_nil b after) hlog.symm

/-- **An event that enters the books keeps them an account.** -/
theorem Accounts.concat (h : Accounts settings past m) (he : Entered e m m') :
    Accounts settings (past ++ [e]) m' where
  size_registers := he.size_eq.trans h.size_registers
  settings_eq := by
    rw [he.settings_eq, h.settings_eq, latest_concat]
    cases e.delay? <;> rfl
  program_eq := by
    rw [he.program_eq, h.program_eq, latest_concat]
    cases e.program? <;> rfl
  cycles_eq := by
    rw [he.cycles_eq, h.cycles_eq, since_concat]
    cases e.restarts with
    | true => rfl
    | false =>
      show (if e.isContinued then _ else _)
        = UInt64.ofNat ((since restarts past ++ [e]).countP isContinued)
      rw [List.countP_append, List.countP_singleton]
      cases e.isContinued with
      | true => exact (UInt64.ofNat_add _ 1).symm
      | false => rfl
  lastStatus_eq := by
    rw [he.lastStatus_eq, h.lastStatus_eq, since_concat]
    cases e.isReset with
    | true => rfl
    | false =>
      show e.recorded?.getD _ = (latest recorded? (since isReset past ++ [e])).getD _
      rw [latest_concat]
      cases e.recorded? <;> rfl
  running_iff := by
    rw [he.running_eq, underWay_concat, ← h.running_iff, Bool.or_eq_true,
      Bool.and_eq_true, Bool.not_eq_true']

/-! ## The events of an operation -/

theorem entered_load (m : Machine) (p : Program) :
    Entered (.loaded p) m (m.load p) :=
  ⟨rfl, rfl, rfl, rfl, rfl, (Bool.and_true _).symm⟩

theorem entered_advance (m : Machine) :
    Entered (.executed .advance m.advance.1) m m.advance.2 := by
  have h := m.isTick_advance
  have hsize := m.size_registers_advance
  generalize m.advance = r at h hsize
  cases h with
  | noInstruction | halted | invalidOperand | continued =>
    exact ⟨hsize, rfl, rfl, rfl, rfl, (Bool.and_true _).symm⟩

/-- **A step enters the books with its outcome**, whichever operation makes
it; what becomes of a run is the operation's own. -/
theorem entered_of_step {driver : Driver} {running : Bool}
    (hdriver : driver ≠ .advance)
    (hrunning : running
      = (m.running && !(Event.executed driver m.step.1).endsRun)) :
    Entered (.executed driver m.step.1) m { m.step.2 with running } := by
  have h := m.entered_advance
  refine ⟨h.size_eq, h.settings_eq, h.program_eq, h.cycles_eq, ?_, hrunning⟩
  cases driver with
  | advance => exact absurd rfl hdriver
  | step | tick | run => rfl

theorem running_step (m : Machine) : m.step.2.running = m.running :=
  m.entered_advance.running_eq.trans (Bool.and_true _)

theorem entered_step (m : Machine) :
    Entered (.executed .step m.step.1) m m.step.2 :=
  entered_of_step (by decide) (m.running_step.trans (Bool.and_true _).symm)

theorem entered_run (m : Machine) :
    Entered (.executed .run m.step.1) m m.step.2 :=
  entered_of_step (by decide) (m.running_step.trans (Bool.and_true _).symm)

/-- A tick of a run ends it if it does not go on. -/
theorem entered_tick (hrun : m.running = true) :
    Entered (.executed .tick m.step.1) m m.tick.2 := by
  unfold tick
  rw [if_pos hrun]
  show Entered _ m (if m.step.1.isContinue then m.step.2 else m.step.2.stop)
  cases hcontinue : m.step.1.isContinue with
  | true =>
    refine entered_of_step (by decide) ?_
    show m.step.2.running = (m.running && !!m.step.1.isContinue)
    rw [running_step, hcontinue, Bool.not_not, Bool.and_true]
  | false =>
    refine entered_of_step (by decide) ?_
    show false = (m.running && !!m.step.1.isContinue)
    rw [hcontinue, Bool.not_not, Bool.and_false]

/-- **The events that an operation gives rise to.** -/
def events (m : Machine) : Operation → List Event
  | .load p => [.loaded p]
  | .loadSource source => (Program.parse source).toOption.toList.map .loaded
  | .step => [.executed .step m.step.1]
  | .advance => [.executed .advance m.advance.1]
  | .tick => m.tick.1.toList.map (.executed .tick)
  | .run limit => (m.trace limit).map fun r => .executed .run r.1
  | .start delay => [.started delay]
  | .stop => [.stopped]
  | .reset => [.reset]
  | .setDelay delay => [.delaySet delay]

/-- **The events of a history**, in order. -/
def log (m : Machine) : List Operation → List Event
  | [] => []
  | op :: ops => m.events op ++ (m.perform op).2.log ops

/-! ## Operations that may do nothing

A text is loaded if it is a program, and a tick is executed during a run. -/

variable {source : String} {p : Program} {error : ParseError}

theorem events_loadSource_of_ok (h : Program.parse source = .ok p) :
    m.events (.loadSource source) = [.loaded p] := by
  rw [events, h]
  rfl

theorem perform_loadSource_of_ok (h : Program.parse source = .ok p) :
    m.perform (.loadSource source) = (.loaded p.size, m.load p) := by
  rw [perform, loadSource, h]

theorem events_loadSource_of_error (h : Program.parse source = .error error) :
    m.events (.loadSource source) = [] := by
  rw [events, h]
  rfl

theorem perform_loadSource_of_error (h : Program.parse source = .error error) :
    m.perform (.loadSource source) = (.refused error, m) := by
  rw [perform, loadSource, h]

theorem events_tick_of_running (h : m.running = true) :
    m.events .tick = [.executed .tick m.step.1] := by
  rw [events, (tick_of_running h).1]
  rfl

theorem perform_tick (m : Machine) :
    m.perform .tick = (m.tick.1.elim .idle .status, m.tick.2) := by
  unfold perform
  dsimp only
  cases m.tick with
  | mk status m' => cases status <;> rfl

theorem events_tick_of_not_running (h : m.running = false) :
    m.events .tick = [] := by
  rw [events, tick_of_not_running h]
  rfl

theorem perform_tick_of_not_running (h : m.running = false) :
    m.perform .tick = (.idle, m) := by
  rw [perform_tick, tick_of_not_running h]
  rfl

/-! ## Every operation keeps the books -/

/-- The steps up to a limit are entered one by one. -/
theorem Accounts.runFrom (h : Accounts settings past m) (ticks limit : ℕ) :
    Accounts settings
      (past ++ (m.trace limit).map fun r => .executed .run r.1)
      (runFrom ticks limit m).2 := by
  induction limit generalizing past m ticks with
  | zero =>
    show Accounts settings (past ++ []) m
    rwa [List.append_nil]
  | succ limit ih =>
    have hstep := h.concat m.entered_run
    unfold trace Machine.runFrom
    dsimp only
    rw [List.map_cons, ← List.singleton_append, ← List.append_assoc]
    cases m.step.1.isContinue with
    | true => exact ih hstep (ticks + 1)
    | false =>
      show Accounts settings (past ++ [_] ++ []) m.step.2
      rwa [List.append_nil]

/-- **An operation keeps the books an account.** -/
theorem Accounts.perform (h : Accounts settings past m) (op : Operation) :
    Accounts settings (past ++ m.events op) (m.perform op).2 := by
  cases op with
  | load p => exact h.concat (m.entered_load p)
  | loadSource source =>
    cases hparse : Program.parse source with
    | error e =>
      rw [events_loadSource_of_error hparse, perform_loadSource_of_error hparse,
        List.append_nil]
      exact h
    | ok p =>
      rw [events_loadSource_of_ok hparse, perform_loadSource_of_ok hparse]
      exact h.concat (m.entered_load p)
  | step => exact h.concat m.entered_step
  | advance => exact h.concat m.entered_advance
  | tick =>
    cases hrun : m.running with
    | true =>
      rw [events_tick_of_running hrun, perform_tick]
      exact h.concat (entered_tick hrun)
    | false =>
      rw [events_tick_of_not_running hrun, perform_tick_of_not_running hrun,
        List.append_nil]
      exact h
  | run limit => exact h.runFrom 0 limit
  | start delay =>
    exact h.concat ⟨rfl, rfl, rfl, rfl, rfl, rfl⟩
  | stop => exact h.concat ⟨rfl, rfl, rfl, rfl, rfl, (Bool.and_false _).symm⟩
  | reset =>
    exact h.concat ⟨Registers.size_clear _ _, rfl, rfl, rfl, rfl,
      (Bool.and_false _).symm⟩
  | setDelay delay =>
    exact h.concat ⟨rfl, rfl, rfl, rfl, rfl, (Bool.and_true _).symm⟩

theorem Accounts.performAll (h : Accounts settings past m)
    (ops : List Operation) :
    Accounts settings (past ++ m.log ops) (m.performAll ops) := by
  induction ops generalizing past m with
  | nil =>
    show Accounts settings (past ++ []) m
    rwa [List.append_nil]
  | cons op ops ih =>
    show Accounts settings (past ++ (m.events op ++ (m.perform op).2.log ops))
      ((m.perform op).2.performAll ops)
    rw [← List.append_assoc]
    exact ih (h.perform op)

/-! ## What a host is told -/

end Machine

/-- **The outcomes of the ticks of a run up to a limit**: all but the last went
on. -/
def Outcome.statuses (o : Outcome) : List Status :=
  match o.ticks with
  | 0 => []
  | n + 1 => List.replicate n .continued ++ [o.status]

/-- **The events that the reply to an operation tells of.** -/
def Operation.told : Operation → Reply → List Event
  | .load p, _ => [.loaded p]
  | .loadSource source, _ =>
    (Program.parse source).toOption.toList.map .loaded
  | .step, .status status => [.executed .step status]
  | .advance, .status status => [.executed .advance status]
  | .tick, .status status => [.executed .tick status]
  | .run _, .outcome o => o.statuses.map (.executed .run)
  | .start delay, _ => [.started delay]
  | .stop, _ => [.stopped]
  | .reset, _ => [.reset]
  | .setDelay delay, _ => [.delaySet delay]
  | _, _ => []

namespace Machine

theorem exists_statuses_trace (m : Machine) (ticks limit : ℕ) :
    ∃ status n, (runFrom ticks limit m).1 = ⟨status, ticks + n⟩
      ∧ (m.trace limit).map Prod.fst = Outcome.statuses ⟨status, n⟩
      ∧ (n = 0 → status = .continued) := by
  induction limit generalizing m ticks with
  | zero => exact ⟨.continued, 0, rfl, rfl, fun _ => rfl⟩
  | succ limit ih =>
    unfold trace Machine.runFrom
    dsimp only
    cases hcontinue : m.step.1.isContinue with
    | false =>
      exact ⟨m.step.1, 1, rfl, rfl, fun h => absurd h Nat.one_ne_zero⟩
    | true =>
      have hstatus : m.step.1 = .continued := eq_of_beq hcontinue
      obtain ⟨status, n, houtcome, htrace, hzero⟩ := ih m.step.2 (ticks + 1)
      refine ⟨status, n + 1, ?_, ?_, fun h => absurd h (Nat.succ_ne_zero n)⟩
      · show (Machine.runFrom (ticks + 1) limit m.step.2).1 = _
        rw [houtcome, Nat.add_assoc, Nat.add_comm 1 n]
      · show m.step.1 :: (m.step.2.trace limit).map Prod.fst = _
        rw [htrace, hstatus]
        cases n with
        | zero => rw [hzero rfl]; rfl
        | succ n => rfl

/-- **The outcome of a run tells its ticks.** -/
theorem statuses_run (m : Machine) (limit : ℕ) :
    (m.run limit).1.statuses = (m.trace limit).map Prod.fst := by
  obtain ⟨status, n, houtcome, htrace, -⟩ := m.exists_statuses_trace 0 limit
  rw [htrace, run, houtcome, Nat.zero_add]

/-- **A reply tells the events of its operation.** -/
theorem told_perform (m : Machine) (op : Operation) :
    op.told (m.perform op).1 = m.events op := by
  cases op with
  | load | loadSource | step | advance | start | stop | reset | setDelay => rfl
  | tick =>
    show Operation.tick.told (m.perform .tick).1 = m.tick.1.toList.map _
    rw [perform_tick]
    cases m.tick.1 <;> rfl
  | run limit =>
    show (m.run limit).1.statuses.map _ = (m.trace limit).map _
    rw [statuses_run, List.map_map]
    rfl

theorem log_eq_flatten_told (m : Machine) (ops : List Operation) :
    m.log ops = (List.zipWith Operation.told ops (m.replies ops)).flatten := by
  induction ops generalizing m with
  | nil => rfl
  | cons op ops ih =>
    show m.events op ++ (m.perform op).2.log ops
      = op.told (m.perform op).1 ++ (List.zipWith _ ops _).flatten
    rw [told_perform, ih]

/-- **The bookkeeping of a machine is determined by its history.** After any
operations the books are the account of the events, and the events are those
that the replies to the operations tell of. -/
theorem accounts_performAll (settings : Settings) (ops : List Operation) :
    Accounts settings ((new settings).log ops) ((new settings).performAll ops)
      ∧ (new settings).log ops
        = (List.zipWith Operation.told ops ((new settings).replies ops)).flatten :=
  ⟨(accounts_new settings).performAll ops, log_eq_flatten_told _ ops⟩

end Machine

end RegisterMachine
