import RegisterMachine.Proofs.Machine.Rules
import RegisterMachine.Proofs.Machine.Stuck

/-!
# Where the counter can be

The counter begins at zero, a load or a reset brings it back there, and
nothing else does: an instruction that is executed leaves it at the next
index or at the target of a jump, and no jump goes to zero. So the counter is
zero exactly as long as nothing has been executed, and the first instruction
is executed once at most before the next load or reset. And as a jump goes
where its operand says, the counter never leaves the indices of the program,
the one behind them, and the targets of its jumps (`Program.Reaches`).

What one event does to the place of a machine is `Machine.Undergoes`, and a
history is a walk of such steps (`Machine.GoesThrough`) through the events of
its log, each with the counter at which it happens (`Machine.placedLog`). Two
facts about a step, `Undergoes.counter_eq_zero_iff` and `Undergoes.reaches`,
carry the rest.
-/

namespace RegisterMachine

/-- A tick is executed, whatever comes of it. -/
def Event.isExecuted : Event → Bool
  | .executed _ _ => true
  | _ => false

theorem Event.isExecuted_of_isContinued {e : Event}
    (h : e.isContinued = true) : e.isExecuted = true := by
  cases e with
  | executed => rfl
  | loaded | started | stopped | reset | delaySet => cases h

/-- **The indices that a counter can come to**: those of the program and the
one behind the last, which is zero if there is none, and the targets of its
jumps, which are at least one. -/
def Program.Reaches (p : Program) (c : ℕ) : Prop :=
  c ≤ p.size ∨ ∃ i ∈ p.toList, i.opcode.isJump = true
    ∧ ∃ x, i.integerOperand? = some x ∧ 1 ≤ x.toInt ∧ x.toInt = c

/-- A target is a word, and so it is below the half of all of them. -/
theorem Program.Reaches.le {p : Program} {c : ℕ} (h : p.Reaches c) :
    c ≤ max p.size (2 ^ 63 - 1) := by
  rcases h with hsize | ⟨i, -, -, x, -, -, hx⟩
  · exact le_max_of_le_left hsize
  · have hlt := x.toInt_lt
    exact le_max_of_le_right (by omega)

/-- **An instruction that is executed** leaves the counter at the next index,
or at its own operand if it is a jump. -/
theorem Registers.Executed.next_or_target {r s : Registers} {c d : ℕ}
    {op : Opcode} {x : Int64} (h : r.Executed c x op (s, d)) :
    d = c + 1 ∨ (op.isJump = true ∧ 1 ≤ x.toInt ∧ x.toInt = d) := by
  cases h with
  | jump hx hop =>
    split
    · have hone : 1 ≤ x.toInt := by
        rw [Int64.lt_iff_toInt_lt] at hx
        exact not_lt.mp hx
      exact .inr ⟨hop, hone,
        (natCast_toNatClampNeg (toInt_nonneg_of_not_lt_one hx)).symm⟩
    · exact .inl rfl
  | _ => exact .inl rfl

namespace Machine

open Event

variable {m m' m'' : Machine} {e : Event} {es es' : List (ℕ × Event)}
  {past : List Event}

/-! ## One step -/

/-- **What an event does to the place of a machine.** The last case is about
runs and their delay. -/
inductive Undergoes (m : Machine) : Event → Machine → Prop where
  | loaded {m' : Machine} (p : Program) (h : SamePlace (m.load p) m') :
      Undergoes m (.loaded p) m'
  | executed {m' : Machine} (driver : Driver) (h : SamePlace m.advance.2 m') :
      Undergoes m (.executed driver m.advance.1) m'
  | reset {m' : Machine} (h : SamePlace m.reset m') : Undergoes m .reset m'
  | stays {e : Event} {m' : Machine} (hrestarts : e.restarts = false)
      (hexecuted : e.isExecuted = false) (h : SamePlace m m') :
      Undergoes m e m'

theorem counter_advance_eq_zero_iff (m : Machine) :
    m.advance.2.counter = 0
      ↔ m.advance.1.isContinue = false ∧ m.counter = 0 := by
  have htick := m.isTick_advance
  generalize m.advance = tick at htick
  cases htick with
  | noInstruction | halted | invalidOperand => exact (and_iff_right rfl).symm
  | @continued _ x _ counter _ _ _ hexec =>
    refine iff_of_false (fun hzero => ?_) fun h => Bool.noConfusion h.1
    replace hzero : counter = 0 := hzero
    rcases (Registers.executed_of_execute? hexec).next_or_target with
      hnext | ⟨-, hone, htarget⟩ <;> omega

/-- **Where a tick leaves the counter** is in reach, if it was before. -/
theorem reaches_advance (h : m.program.Reaches m.counter) :
    m.program.Reaches m.advance.2.counter := by
  have htick := m.isTick_advance
  generalize m.advance = tick at htick
  cases htick with
  | noInstruction | halted | invalidOperand => exact h
  | @continued i x _ _ hi _ hx hexec =>
    rcases (Registers.executed_of_execute? hexec).next_or_target with
      hnext | ⟨hjump, hone, htarget⟩
    · have hlt : m.counter < m.program.size := by
        rw [← not_le, ← Program.get?_eq_none_iff]
        exact fun hnone => Option.some_ne_none i (hi.symm.trans hnone)
      exact .inl (hnext ▸ hlt)
    · exact .inr ⟨i, Program.mem_toList_of_get? hi, hjump, x, hx, hone, htarget⟩

/-- **An event leaves the counter at zero** exactly if it is a load or a
reset, or it is no tick that went on and the counter was there before. -/
theorem Undergoes.counter_eq_zero_iff (h : Undergoes m e m') :
    m'.counter = 0
      ↔ e.restarts = true ∨ (e.isContinued = false ∧ m.counter = 0) := by
  cases h with
  | loaded p h => exact iff_of_true h.counter_eq (.inl rfl)
  | reset h => exact iff_of_true h.counter_eq (.inl rfl)
  | executed driver h =>
    rw [h.counter_eq, counter_advance_eq_zero_iff]
    exact (or_iff_right Bool.false_ne_true).symm
  | stays hrestarts hexecuted h =>
    have hcontinued : e.isContinued = false := by
      rw [Bool.eq_false_iff] at hexecuted ⊢
      exact fun hc => hexecuted (isExecuted_of_isContinued hc)
    rw [h.counter_eq, hrestarts, hcontinued]
    simp

theorem Undergoes.reaches (h : Undergoes m e m')
    (hreach : m.program.Reaches m.counter) :
    m'.program.Reaches m'.counter := by
  cases h with
  | loaded p h =>
    rw [h.program_eq, h.counter_eq]
    exact .inl (Nat.zero_le _)
  | reset h =>
    rw [h.program_eq, h.counter_eq]
    exact .inl (Nat.zero_le _)
  | executed driver h =>
    rw [h.program_eq, h.counter_eq, m.program_advance]
    exact reaches_advance hreach
  | stays _ _ h => rwa [h.program_eq, h.counter_eq]

/-! ## A walk -/

/-- The instruction at index zero is executed, and the machine goes on. -/
def isFirst (e : ℕ × Event) : Bool := e.1 == 0 && e.2.isContinued

/-- **A machine goes through events**, each with the counter at which it
happens. -/
inductive GoesThrough : Machine → List (ℕ × Event) → Machine → Prop where
  | nil (m : Machine) : GoesThrough m [] m
  | cons {m m' m'' : Machine} {e : Event} {es : List (ℕ × Event)}
      (he : Undergoes m e m') (hes : GoesThrough m' es m'') :
      GoesThrough m ((m.counter, e) :: es) m''

theorem Undergoes.goesThrough (h : Undergoes m e m') :
    GoesThrough m [(m.counter, e)] m' := .cons h (.nil m')

namespace GoesThrough

theorem append (h : GoesThrough m es m') (h' : GoesThrough m' es' m'') :
    GoesThrough m (es ++ es') m'' := by
  induction h with
  | nil => exact h'
  | cons he _ ih => exact .cons he (ih h')

/-- A walk may be cut anywhere. -/
theorem split (h : GoesThrough m (es ++ es') m'') :
    ∃ m', GoesThrough m es m' ∧ GoesThrough m' es' m'' := by
  induction es generalizing m with
  | nil => exact ⟨m, .nil m, h⟩
  | cons e es ih =>
    cases h with
    | cons he hes =>
      obtain ⟨m', hm, hm'⟩ := ih hes
      exact ⟨m', .cons he hm, hm'⟩

theorem reaches (h : GoesThrough m es m')
    (hreach : m.program.Reaches m.counter) :
    m'.program.Reaches m'.counter := by
  induction h with
  | nil => exact hreach
  | cons he _ ih => exact ih (he.reaches hreach)

/-- **The counter is zero exactly as long as no tick went on** since the last
load or reset. -/
theorem counter_eq_zero_iff (h : GoesThrough m es m')
    (hpast : m.counter = 0 ↔ (since restarts past).countP isContinued = 0) :
    m'.counter = 0
      ↔ (since restarts (past ++ es.map Prod.snd)).countP isContinued = 0 := by
  induction h generalizing past with
  | nil m => rwa [List.map_nil, List.append_nil]
  | @cons m m' m'' e es he _ ih =>
    rw [List.map_cons, ← List.singleton_append, ← List.append_assoc]
    refine ih ?_
    rw [he.counter_eq_zero_iff, hpast, since_concat]
    cases e.restarts with
    | true => simp
    | false => cases hcontinued : e.isContinued <;> simp [hcontinued]

/-- **Away from zero the counter stays away**, and the first instruction is
not executed. -/
theorem countP_isFirst_eq_zero (h : GoesThrough m es m')
    (hcounter : m.counter ≠ 0) (hes : ∀ e ∈ es, e.2.restarts = false) :
    es.countP isFirst = 0 := by
  induction h with
  | nil => rfl
  | @cons m m' m'' e es he _ ih =>
    obtain ⟨hrestarts, hes⟩ := List.forall_mem_cons.mp hes
    have hnext : m'.counter ≠ 0 := by
      rw [Ne, he.counter_eq_zero_iff]
      rintro (htrue | ⟨-, hzero⟩)
      · exact Bool.eq_false_iff.mp hrestarts htrue
      · exact hcounter hzero
    have hfirst : ¬isFirst (m.counter, e) = true := by simp [isFirst, hcounter]
    rw [List.countP_cons_of_neg hfirst]
    exact ih hnext hes

/-- **The first instruction is executed once at most** on a way without a
load or a reset. -/
theorem countP_isFirst_le_one (h : GoesThrough m es m')
    (hes : ∀ e ∈ es, e.2.restarts = false) : es.countP isFirst ≤ 1 := by
  induction h with
  | nil => exact Nat.zero_le 1
  | @cons m m' m'' e es he hwalk ih =>
    obtain ⟨hrestarts, hes⟩ := List.forall_mem_cons.mp hes
    rw [List.countP_cons]
    split
    · next hfirst =>
      -- after its first instruction the machine is away from zero
      have hcontinued : e.isContinued = true :=
        (Bool.and_eq_true_iff.mp hfirst).2
      have hnext : m'.counter ≠ 0 := by
        rw [Ne, he.counter_eq_zero_iff, hrestarts, hcontinued]
        simp
      exact le_of_eq (congrArg (· + 1) (hwalk.countP_isFirst_eq_zero hnext hes))
    · exact ih hes

end GoesThrough

/-! ## Histories -/

/-- The ticks of a run up to a limit, each with the counter at which it is
executed. -/
def placedRun (m : Machine) : (limit : ℕ) → List (ℕ × Event)
  | 0 => []
  | limit + 1 => (m.counter, .executed .run m.step.1)
      :: if m.step.1.isContinue then m.step.2.placedRun limit else []

/-- **The events of an operation**, each with the counter at which it
happens. -/
def placed (m : Machine) : Operation → List (ℕ × Event)
  | .run limit => m.placedRun limit
  | op => (m.events op).map fun e => (m.counter, e)

/-- **The log of a history**, with the counter at which each event
happens. -/
def placedLog (m : Machine) : List Operation → List (ℕ × Event)
  | [] => []
  | op :: ops => m.placed op ++ (m.perform op).2.placedLog ops

theorem map_snd_placedRun (m : Machine) (limit : ℕ) :
    (m.placedRun limit).map Prod.snd
      = (m.trace limit).map fun r => .executed .run r.1 := by
  induction limit generalizing m with
  | zero => rfl
  | succ limit ih =>
    unfold placedRun trace
    dsimp only
    rw [List.map_cons, List.map_cons]
    congr 1
    split
    · exact ih m.step.2
    · rfl

theorem map_snd_placed (m : Machine) (op : Operation) :
    (m.placed op).map Prod.snd = m.events op := by
  cases op with
  | run limit => exact m.map_snd_placedRun limit
  | load | loadSource | step | advance | tick | start | stop | reset
  | setDelay =>
    unfold placed
    rw [List.map_map]
    exact List.map_id _

/-- **Without the counters it is the log.** -/
theorem map_snd_placedLog (m : Machine) (ops : List Operation) :
    (m.placedLog ops).map Prod.snd = m.log ops := by
  induction ops generalizing m with
  | nil => rfl
  | cons op ops ih => rw [placedLog, log, List.map_append, map_snd_placed, ih]

theorem samePlace_step (m : Machine) : SamePlace m.advance.2 m.step.2 :=
  ⟨rfl, rfl, rfl, rfl⟩

theorem samePlace_tick (h : m.running = true) :
    SamePlace m.advance.2 m.tick.2 := by
  unfold tick
  rw [if_pos h]
  dsimp only
  split <;> exact ⟨rfl, rfl, rfl, rfl⟩

theorem goesThrough_runFrom (m : Machine) (ticks limit : ℕ) :
    GoesThrough m (m.placedRun limit) (runFrom ticks limit m).2 := by
  induction limit generalizing m ticks with
  | zero => exact .nil m
  | succ limit ih =>
    unfold placedRun runFrom
    refine .cons (.executed .run m.samePlace_step) ?_
    dsimp only
    split
    · exact ih m.step.2 (ticks + 1)
    · exact .nil m.step.2

/-- **An operation is a walk** through its events. -/
theorem goesThrough_perform (m : Machine) (op : Operation) :
    GoesThrough m (m.placed op) (m.perform op).2 := by
  cases op with
  | load p => exact (Undergoes.loaded p (.refl _)).goesThrough
  | loadSource source =>
    show GoesThrough m ((m.events (.loadSource source)).map _) _
    cases hparse : Program.parse source with
    | error e =>
      rw [events_loadSource_of_error hparse, perform_loadSource_of_error hparse]
      exact .nil m
    | ok p =>
      rw [events_loadSource_of_ok hparse, perform_loadSource_of_ok hparse]
      exact (Undergoes.loaded p (.refl _)).goesThrough
  | step => exact (Undergoes.executed .step m.samePlace_step).goesThrough
  | advance => exact (Undergoes.executed .advance (.refl _)).goesThrough
  | tick =>
    show GoesThrough m ((m.events .tick).map _) _
    cases hrun : m.running with
    | true =>
      rw [events_tick_of_running hrun, perform_tick]
      exact (Undergoes.executed .tick (samePlace_tick hrun)).goesThrough
    | false =>
      rw [events_tick_of_not_running hrun, perform_tick_of_not_running hrun]
      exact .nil m
  | run limit => exact m.goesThrough_runFrom 0 limit
  | reset => exact (Undergoes.reset (.refl _)).goesThrough
  | start delay =>
    have hplace : SamePlace m (m.start delay) := ⟨rfl, rfl, rfl, rfl⟩
    exact (Undergoes.stays (e := .started delay) rfl rfl hplace).goesThrough
  | stop =>
    have hplace : SamePlace m (m.stop) := ⟨rfl, rfl, rfl, rfl⟩
    exact (Undergoes.stays (e := .stopped) rfl rfl hplace).goesThrough
  | setDelay delay =>
    have hplace : SamePlace m (m.setDelay delay) := ⟨rfl, rfl, rfl, rfl⟩
    exact (Undergoes.stays (e := .delaySet delay) rfl rfl hplace).goesThrough

/-- **A history is a walk** through its log. -/
theorem goesThrough_performAll (m : Machine) (ops : List Operation) :
    GoesThrough m (m.placedLog ops) (m.performAll ops) := by
  induction ops generalizing m with
  | nil => exact .nil m
  | cons op ops ih =>
    exact (m.goesThrough_perform op).append (ih (m.perform op).2)

/-- **With fewer than `2 ^ 64` ticks the cycles are zero** exactly if none has
gone on since the last load or reset: their count does not come round. -/
theorem Accounts.cycles_eq_zero_iff {settings : Settings}
    (h : Accounts settings past m)
    (hticks : past.countP isExecuted < 2 ^ 64) :
    m.cycles = 0 ↔ (since restarts past).countP isContinued = 0 := by
  have hle : (since restarts past).countP isContinued ≤ past.countP isExecuted :=
    le_trans (List.countP_mono_left fun e _ => isExecuted_of_isContinued)
      (List.Sublist.countP_le (List.rtakeWhile_suffix _ past).sublist)
  have hlt := lt_of_le_of_lt hle hticks
  rw [h.cycles_eq, ← UInt64.toNat_inj, UInt64.toNat_ofNat_of_lt' hlt]
  rfl

/-- **Where the counter can be.** After any operations the counter is in reach
of the program, so that the index behind it is a word – for a program whose
own end is one, as it is for any that fits in memory. It is zero exactly if the
cycles are, as long as fewer than `2 ^ 64` ticks have been executed; and the
first instruction goes on at most once between two loads or resets. -/
theorem counter_in_reach (settings : Settings) (ops : List Operation) :
    let m := (new settings).performAll ops
    (((new settings).log ops).countP isExecuted < 2 ^ 64 →
        (m.counter = 0 ↔ m.cycles = 0))
      ∧ ((new settings).placedLog ops).map Prod.snd = (new settings).log ops
      ∧ (∀ before between after,
          (new settings).placedLog ops = before ++ between ++ after →
          (∀ e ∈ between, e.2.restarts = false) →
            between.countP isFirst ≤ 1)
      ∧ m.program.Reaches m.counter
      ∧ (m.program.size < 2 ^ 64 - 1 → m.counter + 1 < 2 ^ 64) := by
  intro m
  have hwalk := (new settings).goesThrough_performAll ops
  have hreach : m.program.Reaches m.counter :=
    hwalk.reaches (.inl (Nat.zero_le _))
  refine ⟨fun hticks => ?_, map_snd_placedLog _ ops,
    fun before between after hlog hbetween => ?_, hreach, fun hsize => ?_⟩
  · have haccounts := (accounts_new settings).performAll ops
    rw [List.nil_append] at haccounts
    have hempty : (new settings).counter = 0
        ↔ (since restarts []).countP isContinued = 0 := iff_of_true rfl rfl
    have hzero := hwalk.counter_eq_zero_iff hempty
    rw [List.nil_append, map_snd_placedLog] at hzero
    exact hzero.trans (haccounts.cycles_eq_zero_iff hticks).symm
  · rw [hlog] at hwalk
    obtain ⟨_, hfront, -⟩ := hwalk.split
    obtain ⟨_, -, hmiddle⟩ := hfront.split
    exact hmiddle.countP_isFirst_le_one hbetween
  · have hle := hreach.le
    omega

/-- A program that leaves its own indices at the second tick. -/
def leaving : Program := .ofList [.ofInt .loadi 1, .ofInt .jmp 9]

/-- **A jump past the end** takes the counter to its target, and the first
instruction has been executed once. -/
theorem leaving_in_reach :
    let ops : List Operation := [.load leaving, .run 5]
    let m := (new .standard).performAll ops
    let ticks : List (ℕ × Event) := [(0, .executed .run .continued),
      (1, .executed .run .continued), (9, .executed .run .noInstruction)]
    ((new .standard).log ops).countP isExecuted < 2 ^ 64
      ∧ m.counter = 9 ∧ m.program.size < 2 ^ 64 - 1
      ∧ (new .standard).placedLog ops = [(0, .loaded leaving)] ++ ticks ++ []
      ∧ (m.counter = 0 ↔ m.cycles = 0) ∧ ticks.countP isFirst ≤ 1
      ∧ m.program.Reaches m.counter ∧ m.counter + 1 < 2 ^ 64 := by
  intro ops m ticks
  have hticks : ((new .standard).log ops).countP isExecuted < 2 ^ 64 := by
    decide +kernel
  have hsize : m.program.size < 2 ^ 64 - 1 := by decide +kernel
  have hlog : (new .standard).placedLog ops
      = [(0, .loaded leaving)] ++ ticks ++ [] := by decide +kernel
  obtain ⟨hzero, -, hfirst, hreach, hnext⟩ := counter_in_reach .standard ops
  exact ⟨hticks, by decide +kernel, hsize, hlog, hzero hticks,
    hfirst _ _ _ hlog (by decide), hreach, hnext hsize⟩

end Machine

end RegisterMachine
