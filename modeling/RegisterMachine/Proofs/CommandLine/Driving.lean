import Mathlib.Data.Int.Order.Basic
import RegisterMachine.CommandLine.Report
import RegisterMachine.Proofs.Machine.History
import RegisterMachine.Proofs.Program.Listing

/-!
# However a machine is driven, it comes to the same end

A machine can be run up to a limit by itself (`Machine.run`), stepped straight
on with an account kept (`Progress.straight`), started and ticked whenever a
ticker says so (`Paced.polls`), or started and ticked without a pause
(`Machine.ticksFrom`). The four loops test for their end in different places.

What makes them agree is that settings and run flag take no part in a step
(`Machine.step_with`). A paced run is the straight one with the flag set, and
a poll that finds no tick due changes nothing but the ticker: so what is still
ahead of a paced run, and its account so far, come to the end of the straight
run at every point (`Paced.OnTrack`).

The account of a run with a trace differs from the one without in the trace
alone, which has a line for every tick that went on.
-/

namespace RegisterMachine

namespace Machine

/-- **A host that ticks a machine** until no run is under way or a limit is
reached; some ticks have been made already, the last with a given outcome. -/
def ticksFrom (status : Status) (ticks : ℕ) :
    (limit : ℕ) → Machine → Outcome × Machine
  | 0, m => (⟨status, ticks⟩, m)
  | limit + 1, m =>
    match m.tick with
    | (none, m) => (⟨status, ticks⟩, m)
    | (some status, m) => ticksFrom status (ticks + 1) limit m

/-- Without a run there is nothing to tick. -/
theorem ticksFrom_of_not_running {m : Machine} (h : m.running = false)
    (status : Status) (ticks limit : ℕ) :
    ticksFrom status ticks limit m = (⟨status, ticks⟩, m) := by
  cases limit with
  | zero => rfl
  | succ limit =>
    unfold ticksFrom
    rw [tick_of_not_running h]

/-- A tick of a run, in terms of a step outside one. -/
theorem tick_with (m : Machine) (settings : Settings) :
    { m with settings, running := true }.tick
      = (some m.step.1,
        { m.step.2 with settings, running := m.step.1.isContinue }) := by
  unfold tick
  rw [if_pos rfl, step_with]
  dsimp only
  cases m.step.1.isContinue <;> rfl

/-- **Ticking a run is running up to the limit**; the flag that is left says
whether the limit was reached. -/
theorem ticksFrom_with (m : Machine) (settings : Settings) (ticks limit : ℕ) :
    ticksFrom .continued ticks limit { m with settings, running := true }
      = ((runFrom ticks limit m).1,
        { (runFrom ticks limit m).2 with
          settings, running := (runFrom ticks limit m).1.status.isContinue }) := by
  induction limit generalizing m ticks with
  | zero => rfl
  | succ limit ih =>
    unfold ticksFrom runFrom
    rw [tick_with]
    dsimp only
    cases hcontinue : m.step.1.isContinue with
    | true =>
      have hstatus : m.step.1 = .continued := eq_of_beq hcontinue
      rw [hstatus, if_pos rfl]
      exact ih m.step.2 (ticks + 1)
    | false =>
      rw [ticksFrom_of_not_running rfl, if_neg Bool.false_ne_true]
      dsimp only
      rw [hcontinue]

end Machine

namespace CommandLine

variable {m : Machine} {tracing : Bool} {limit : ℕ}

/-! ## Straight on -/

/-- **The lines of a trace**: one for each tick that goes on, in order, with
the counter before the tick and the machine after it. -/
def traceLines (m : Machine) (limit : ℕ) : List String :=
  (((m :: (m.trace limit).map Prod.snd).zip (m.trace limit)).filter
    fun e => e.2.1.isContinue).map fun e => traceLine e.1.counter e.2.2

theorem traceLines_succ (m : Machine) (limit : ℕ) :
    traceLines m (limit + 1)
      = if m.step.1.isContinue then
          traceLine m.counter m.step.2 :: traceLines m.step.2 limit
        else [] := by
  have htrace : m.trace (limit + 1)
      = m.step :: if m.step.1.isContinue then m.step.2.trace limit else [] := rfl
  unfold traceLines
  rw [htrace, List.zip_cons_cons, List.filter_cons]
  cases m.step.1.isContinue <;> rfl

/-- The first tick of a run leaves its line, if it goes on and lines are
kept, and the lines of the others stand behind it. -/
theorem keptLines_succ (tracing : Bool) (m : Machine) (limit : ℕ) :
    (if tracing then traceLines m (limit + 1) else [])
      = (if tracing && m.step.1.isContinue then [traceLine m.counter m.step.2]
          else [])
        ++ if m.step.1.isContinue then
            if tracing then traceLines m.step.2 limit else []
          else [] := by
  rw [traceLines_succ]
  cases tracing <;> cases m.step.1.isContinue <;> rfl

/-- **The end of a run**, with a trace or without. -/
def ending (tracing : Bool) (m : Machine) (limit : ℕ) : Progress where
  machine := (m.run limit).2
  status := (m.run limit).1.status
  ticks := (m.run limit).1.ticks
  trace := (if tracing then traceLines m limit else []).toArray

namespace Progress

/-- **A step straight on leaves one line in the trace, or none.** -/
theorem toList_trace_step (tracing : Bool) (p : Progress) :
    (p.step tracing).trace.toList = p.trace.toList
      ++ if tracing && p.machine.step.1.isContinue then
          [traceLine p.machine.counter p.machine.step.2]
        else [] := by
  unfold step record
  dsimp only
  split
  · exact Array.toList_push
  · exact (List.append_nil _).symm

/-- **Straight on is running up to the limit**, with the lines of the trace
put behind those that there are. -/
theorem straight_eq {p : Progress} (hp : p.status = .continued) :
    straight tracing limit p =
      { machine := (p.machine.runFrom p.ticks limit).2
        status := (p.machine.runFrom p.ticks limit).1.status
        ticks := (p.machine.runFrom p.ticks limit).1.ticks
        trace := (p.trace.toList
          ++ if tracing then traceLines p.machine limit else []).toArray } := by
  induction limit generalizing p with
  | zero =>
    have hnone : (if tracing then traceLines p.machine 0 else []) = [] := by
      cases tracing <;> rfl
    rw [hnone, List.append_nil]
    show p = ⟨p.machine, .continued, p.ticks, p.trace⟩
    rw [← hp]
  | succ limit ih =>
    have hrun : Machine.runFrom p.ticks (limit + 1) p.machine
        = if p.machine.step.1.isContinue then
            Machine.runFrom (p.ticks + 1) limit p.machine.step.2
          else (⟨p.machine.step.1, p.ticks + 1⟩, p.machine.step.2) := rfl
    have hstraight : straight tracing (limit + 1) p
        = if p.machine.step.1.isContinue then
            straight tracing limit (p.step tracing)
          else p.step tracing := rfl
    rw [hrun, hstraight, keptLines_succ, ← List.append_assoc, ← toList_trace_step]
    cases hcontinue : p.machine.step.1.isContinue with
    | false =>
      show p.step tracing = ⟨p.machine.step.2, p.machine.step.1, p.ticks + 1,
        ((p.step tracing).trace.toList ++ []).toArray⟩
      rw [List.append_nil]
      rfl
    | true =>
      have hstatus : (p.step tracing).status = .continued := eq_of_beq hcontinue
      exact ih hstatus

end Progress

/-! ## Paced -/

namespace Paced

variable {r : Paced} {goal : Progress}

theorem finished_iff :
    r.finished limit = true
      ↔ r.progress.machine.running = false ∨ limit ≤ r.progress.ticks := by
  unfold finished
  cases r.progress.machine.running <;> simp

/-- **A paced run is on track** to the end of a straight one: going on
straight from here, with the run flag put away, comes to that end, unless the
machine has stopped, and then this is the end. -/
structure OnTrack (tracing : Bool) (limit : ℕ) (goal : Progress) (r : Paced) :
    Prop where
  ticks_le : r.progress.ticks ≤ limit
  comes_to : r.progress.machine.running = true →
    r.progress.status = .continued
      ∧ Progress.straight tracing (limit - r.progress.ticks) r.finish = goal
  is_there : r.progress.machine.running = false → r.finish = goal

/-- A machine outside a run is started on track. -/
theorem onTrack_start (hm : m.running = false) (now : Instant) :
    OnTrack tracing limit (Progress.straight tracing limit (.start m))
      (start m now) where
  ticks_le := Nat.zero_le limit
  comes_to _ := by
    have hfinish : (start m now).finish = .start m := by
      show Progress.start { m with running := false } = _
      rw [← hm]
    refine ⟨rfl, ?_⟩
    rw [hfinish]
    rfl
  is_there h := by cases h

/-- A tick that is due, as the poll makes it. -/
theorem poll_of_due (hgoing : r.finished limit = false) {now : Instant}
    (hdue : r.ticker.deadline ≤ now) :
    r.poll tracing limit now
      = ⟨r.progress.record tracing r.progress.machine.step.1
          { r.progress.machine.step.2 with
            settings := r.progress.machine.settings
            running := r.progress.machine.step.1.isContinue },
        (r.ticker.poll now).2⟩ := by
  have hrun : r.progress.machine.running = true := by
    by_contra hstops
    rw [finished_iff.mpr (.inl (Bool.eq_false_iff.mpr hstops))] at hgoing
    cases hgoing
  have htick : r.progress.machine.tick = (some r.progress.machine.step.1,
      { r.progress.machine.step.2 with
        settings := r.progress.machine.settings
        running := r.progress.machine.step.1.isContinue }) := by
    rw [← Machine.tick_with, ← hrun]
  have hpoll : (r.ticker.poll now).1 = true := (r.ticker.poll_fst now).mpr hdue
  unfold poll
  rw [hgoing, if_neg Bool.false_ne_true]
  dsimp only
  rw [hpoll, if_pos rfl, htick]

/-- A poll before the tick is due, or after the run is over. -/
theorem poll_of_not_due {now : Instant}
    (h : r.finished limit = true ∨ now < r.ticker.deadline) :
    (r.poll tracing limit now).progress = r.progress := by
  unfold poll
  split
  · rfl
  · next hgoing =>
    have hpoll : (r.ticker.poll now).1 = false := by
      rw [Bool.eq_false_iff, Ne, Ticker.poll_fst, not_le]
      exact h.resolve_left hgoing
    dsimp only
    rw [hpoll]
    rfl

/-- **A tick that is due is a step straight on.** -/
theorem OnTrack.tick (h : OnTrack tracing limit goal r)
    (hgoing : r.finished limit = false) (ticker : Ticker) :
    OnTrack tracing limit goal
      ⟨r.progress.record tracing r.progress.machine.step.1
        { r.progress.machine.step.2 with
          settings := r.progress.machine.settings
          running := r.progress.machine.step.1.isContinue }, ticker⟩ := by
  rw [Bool.eq_false_iff, Ne, finished_iff, not_or, Bool.not_eq_false, Nat.not_le]
    at hgoing
  obtain ⟨hstatus, hgoal⟩ := h.comes_to hgoing.1
  obtain ⟨left, hleft⟩ : ∃ left, limit - r.progress.ticks = left + 1 :=
    ⟨limit - r.progress.ticks - 1, by omega⟩
  have hstep : r.finish.machine.step = (r.progress.machine.step.1,
      { r.progress.machine.step.2 with
        settings := r.progress.machine.settings, running := false }) :=
    Machine.step_with r.progress.machine r.progress.machine.settings false
  rw [hleft] at hgoal
  unfold Progress.straight Progress.step at hgoal
  rw [hstep] at hgoal
  dsimp only at hgoal
  refine ⟨hgoing.2, fun hgoes => ⟨eq_of_beq hgoes, ?_⟩, fun hstops => ?_⟩
  · have hahead : limit - (r.progress.ticks + 1) = left := by omega
    show Progress.straight tracing (limit - (r.progress.ticks + 1)) _ = goal
    rw [hahead, ← hgoal]
    exact (if_pos hgoes).symm
  · rw [← hgoal]
    exact (if_neg (Bool.eq_false_iff.mp hstops)).symm

/-- **A poll keeps a paced run on track**, whatever the clock says. -/
theorem OnTrack.poll (h : OnTrack tracing limit goal r) (now : Instant) :
    OnTrack tracing limit goal (r.poll tracing limit now) := by
  by_cases hdue : r.finished limit = false ∧ r.ticker.deadline ≤ now
  · rw [poll_of_due hdue.1 hdue.2]
    exact h.tick hdue.1 _
  · have hsame : (r.poll tracing limit now).progress = r.progress := by
      refine poll_of_not_due ?_
      rwa [not_and_or, Bool.not_eq_false, not_le] at hdue
    have hfinish : (r.poll tracing limit now).finish = r.finish := by
      unfold finish
      rw [hsame]
    refine ⟨?_, ?_, ?_⟩
    · rw [hsame]
      exact h.ticks_le
    · rw [hsame, hfinish]
      exact h.comes_to
    · rw [hsame, hfinish]
      exact h.is_there

theorem OnTrack.polls (h : OnTrack tracing limit goal r)
    (readings : List Instant) :
    OnTrack tracing limit goal (r.polls tracing limit readings) := by
  induction readings generalizing r with
  | nil => exact h
  | cons now readings ih => exact ih (h.poll now)

/-- **A run that is on track and over is at its end.** -/
theorem OnTrack.finish_eq (h : OnTrack tracing limit goal r)
    (hover : r.finished limit = true) : r.finish = goal := by
  cases hrun : r.progress.machine.running with
  | false => exact h.is_there hrun
  | true =>
    have hticks : limit ≤ r.progress.ticks := by
      rw [finished_iff, hrun] at hover
      exact hover.resolve_left Bool.noConfusion
    rw [← (h.comes_to hrun).2, Nat.sub_eq_zero_of_le hticks]
    rfl

/-! ## A host that wakes when a tick is due -/

/-- Polling when a tick is due is polling at some readings. -/
theorem exists_onTime_eq_polls (tracing : Bool) (limit n : ℕ) (r : Paced) :
    ∃ readings, onTime tracing limit n r = r.polls tracing limit readings := by
  induction n generalizing r with
  | zero => exact ⟨[], rfl⟩
  | succ n ih =>
    unfold onTime
    split
    · exact ⟨[], rfl⟩
    · obtain ⟨readings, hreadings⟩ := ih (r.poll tracing limit r.ticker.deadline)
      exact ⟨r.ticker.deadline :: readings, hreadings⟩

/-- **As many polls as ticks are left** see the run through. -/
theorem finished_onTime {n : ℕ} (hn : limit ≤ r.progress.ticks + n) :
    (onTime tracing limit n r).finished limit = true := by
  induction n generalizing r with
  | zero => exact finished_iff.mpr (.inr hn)
  | succ n ih =>
    unfold onTime
    split
    · assumption
    · next hgoing =>
      rw [Bool.not_eq_true] at hgoing
      refine ih ?_
      rw [poll_of_due hgoing le_rfl]
      show limit ≤ r.progress.ticks + 1 + n
      omega

end Paced

/-! ## Reports -/

/-- Straight on from the start comes to the end of the run. -/
theorem straight_start (tracing : Bool) (m : Machine) (limit : ℕ) :
    Progress.straight tracing limit (.start m) = ending tracing m limit :=
  Progress.straight_eq rfl

/-- **A paced run that is over has come to the end of the run.** -/
theorem Paced.finish_eq_ending (hm : m.running = false) {now : Instant}
    {readings : List Instant}
    (hover : ((start m now).polls tracing limit readings).finished limit = true) :
    ((start m now).polls tracing limit readings).finish
      = ending tracing m limit := by
  rw [← straight_start]
  exact ((onTrack_start hm now).polls readings).finish_eq hover

/-- Some readings see a paced run through. -/
theorem Paced.exists_finished (tracing : Bool) (m : Machine) (now : Instant)
    (limit : ℕ) :
    ∃ readings, onTime tracing limit limit (start m now)
        = (start m now).polls tracing limit readings
      ∧ ((start m now).polls tracing limit readings).finished limit = true := by
  obtain ⟨readings, hreadings⟩ :=
    exists_onTime_eq_polls tracing limit limit (start m now)
  refine ⟨readings, hreadings, ?_⟩
  rw [← hreadings]
  exact finished_onTime (Nat.le_add_left limit 0)

/-- **A command drives its machine to the end of the run**, paced or not. -/
theorem drive_eq_ending (o : RunOptions) (hm : m.running = false) :
    drive o m = ending o.trace m o.maxTicks.toNat := by
  unfold drive
  dsimp only
  split
  · obtain ⟨readings, hreadings, hover⟩ :=
      Paced.exists_finished o.trace m 0 o.maxTicks.toNat
    rw [hreadings]
    exact Paced.finish_eq_ending hm hover
  · exact straight_start _ _ _

/-- **The report of a run** is made from its end. The trace stands between the
announcement and the result, and the result does not depend on it. -/
theorem report_run {files : Files} {o : RunOptions} {announced : String}
    (hm : m.running = false) (h : prepare files o = .ok (announced, m))
    (tracing realtime : Bool) :
    Command.report files (.run { o with trace := tracing, realtime })
      = ⟨if (m.run o.maxTicks.toNat).1.status.isError then 1 else 0,
        announced ++ (if tracing then
            String.join ((traceLines m o.maxTicks.toNat).map (· ++ "\n"))
          else "")
          ++ if o.json then (m.run o.maxTicks.toNat).2.toJson.pretty ++ "\n"
            else resultText o.maxTicks (ending false m o.maxTicks.toNat), ""⟩ := by
  have hprepare : prepare files { o with trace := tracing, realtime }
      = .ok (announced, m) := h
  unfold Command.report
  dsimp only
  rw [hprepare]
  dsimp only
  rw [drive_eq_ending _ hm]
  cases tracing <;> rfl

/-! ## Lines of a trace -/

/-- **A line of the trace is one line.** -/
theorem isNarrow_traceLine (counter : ℕ) (m : Machine) :
    Text.IsNarrow (traceLine counter m) := by
  have hinstruction : Text.IsNarrow
      (((m.program.get? counter).map Instruction.text).getD "") := by
    cases m.program.get? counter with
    | none => exact Text.isNarrow_of_all (by decide)
    | some i => exact i.isNarrow_text
  have hcolon : Text.IsNarrow ": " := Text.isNarrow_of_all (by decide)
  have hlabel : Text.IsNarrow " ACC=" := Text.isNarrow_of_all (by decide)
  have hacc : Text.IsNarrow (toString m.acc) :=
    Text.isNarrow_toString_int m.acc.toInt
  exact ((((Text.isNarrow_index counter).append hcolon).append
    (Text.isNarrow_padRight hinstruction 16)).append hlabel).append hacc

theorem newline_notMem_of_mem_traceLines {line : String}
    (h : line ∈ traceLines m limit) : '\n' ∉ line.toList := by
  obtain ⟨e, -, rfl⟩ := List.mem_map.mp h
  exact (isNarrow_traceLine e.1.counter e.2.2).newline_notMem

/-- A run of no ticks has gone on. -/
theorem status_of_ticks_eq_zero (m : Machine) (limit : ℕ)
    (h : (m.run limit).1.ticks = 0) : (m.run limit).1.status = .continued := by
  obtain ⟨status, n, houtcome, -, hzero⟩ := m.exists_statuses_trace 0 limit
  unfold Machine.run at h ⊢
  rw [houtcome, Nat.zero_add] at h
  rw [houtcome]
  exact hzero h

/-- **However a machine is driven, it comes to the same end**, for every
program, all settings and every limit. A machine with a new program that is
stepped straight on is, at the end, in all of its fields the machine that ran
up to the limit by itself, with the same outcome after the same number of
ticks; and so is one that was started, polled at whatever clock readings until
its run was over, and stopped. One that is ticked without a pause ends with
the same outcome, registers, counter, cycles and last status.

So the report of a run is the same whether it is paced or not. Asking for a
trace puts a line for every tick that went on between the announcement and
the result and changes nothing else, and the exit code is one exactly if the
last outcome is a fault. -/
theorem driving_comes_to_one_end (settings : Settings) (p : Program)
    (maxTicks : UInt64) :
    let m := (Machine.new settings).load p
    let limit := maxTicks.toNat
    let run := m.run limit
    (run.1.ticks = 0 → run.1.status = .continued)
      ∧ (∀ tracing, Progress.straight tracing limit (.start m)
          = ⟨run.2, run.1.status, run.1.ticks,
            (if tracing then traceLines m limit else []).toArray⟩)
      ∧ (∀ tracing now readings,
          ((Paced.start m now).polls tracing limit readings).finished limit = true →
            ((Paced.start m now).polls tracing limit readings).finish
              = Progress.straight tracing limit (.start m))
      ∧ (∀ tracing now, ∃ readings,
          ((Paced.start m now).polls tracing limit readings).finished limit = true)
      ∧ (∀ delay, ∃ m', Machine.ticksFrom .continued 0 limit (m.start delay)
            = (run.1, m')
          ∧ m'.registers = run.2.registers ∧ m'.counter = run.2.counter
          ∧ m'.cycles = run.2.cycles ∧ m'.lastStatus = run.2.lastStatus)
      ∧ (∀ line ∈ traceLines m limit, '\n' ∉ line.toList)
      ∧ ∀ files o announced, o.maxTicks = maxTicks →
          prepare files o = .ok (announced, m) →
            ∃ result, ∀ tracing realtime,
              Command.report files (.run { o with trace := tracing, realtime })
                = ⟨if run.1.status = .noInstruction
                      ∨ run.1.status = .invalidOperand then 1 else 0,
                  announced ++ (if tracing then
                      String.join ((traceLines m limit).map (· ++ "\n"))
                    else "") ++ result, ""⟩ := by
  intro m limit run
  have hm : m.running = false := rfl
  refine ⟨status_of_ticks_eq_zero m limit, fun tracing => straight_start tracing m limit,
    fun tracing now readings hover => ?_, fun tracing now => ?_, fun delay => ?_,
    fun line => newline_notMem_of_mem_traceLines, fun files o announced hmax hprepare => ?_⟩
  · rw [straight_start]
    exact Paced.finish_eq_ending hm hover
  · obtain ⟨readings, -, hover⟩ := Paced.exists_finished tracing m now limit
    exact ⟨readings, hover⟩
  · exact ⟨_, Machine.ticksFrom_with m _ 0 limit, rfl, rfl, rfl, rfl⟩
  · obtain rfl := hmax
    have hexit : (if run.1.status.isError then (1 : UInt32) else 0)
        = if run.1.status = .noInstruction ∨ run.1.status = .invalidOperand then 1
          else 0 := by
      cases run.1.status <;> rfl
    refine ⟨if o.json then run.2.toJson.pretty ++ "\n"
      else resultText o.maxTicks (ending false m limit), fun tracing realtime => ?_⟩
    rw [← hexit]
    exact report_run hm hprepare tracing realtime

/-- A paced run with polls that come too early, too late and after its end: a
literal is loaded and the machine holds, in two ticks. -/
theorem driving_early_and_late :
    let m := (Machine.new ⟨100, 1, 0⟩).load
      (.ofList [.ofInt .loadi 5, ⟨.hold, none⟩])
    let r := (Paced.start m 0).polls true 9
      [50, 99999999, 100000001, 300000000, 700000000, 700000000]
    let o : RunOptions := ⟨"five", 9, false, false, false, ⟨some "config", none⟩⟩
    let files : Files := fun path =>
      if path = "five" then .ok "loadi 5\nhold"
      else .ok "[100, 1, 0]"
    r.finished 9 = true
      ∧ r.finish.status = .halted ∧ r.finish.ticks = 2
      ∧ r.finish.machine = (m.run 9).2
      ∧ r.finish.trace = #["000: loadi 5          ACC=5"]
      ∧ ∃ announced, prepare files o = .ok (announced, m)
        ∧ ∃ result, ∀ realtime,
          Command.report files (.run { o with trace := true, realtime })
            = ⟨0, announced ++ "000: loadi 5          ACC=5\n" ++ result, ""⟩ := by
  intro m r o files
  have hover : r.finished 9 = true := by decide +kernel
  have hlines : traceLines m 9 = ["000: loadi 5          ACC=5"] := by
    decide +kernel
  have hrun : (m.run 9).1 = ⟨.halted, 2⟩ := by decide +kernel
  obtain ⟨-, hstraight, hpaced, -, -, -, hreport⟩ := driving_comes_to_one_end
    ⟨100, 1, 0⟩ (.ofList [.ofInt .loadi 5, ⟨.hold, none⟩]) 9
  have hfinish : r.finish = ⟨(m.run 9).2, .halted, 2,
      #["000: loadi 5          ACC=5"]⟩ := by
    refine (hpaced true 0 _ hover).trans ((hstraight true).trans ?_)
    show Progress.mk (m.run 9).2 (m.run 9).1.status (m.run 9).1.ticks
      (traceLines m 9).toArray = _
    rw [hrun, hlines]
  refine ⟨hover, ?_, ?_, ?_, ?_, ?_⟩
  · rw [hfinish]
  · rw [hfinish]
  · rw [hfinish]
  · rw [hfinish]
  · have hprepare : prepare files o
        = .ok ("🔧 Running: five (2 instructions)\n", m) := by decide +kernel
    obtain ⟨result, hresult⟩ := hreport files o _ rfl hprepare
    refine ⟨_, hprepare, result, fun realtime => (hresult true realtime).trans ?_⟩
    show Report.mk (if (m.run 9).1.status = .noInstruction
        ∨ (m.run 9).1.status = .invalidOperand then 1 else 0)
      (_ ++ String.join ((traceLines m 9).map (· ++ "\n")) ++ result) "" = _
    rw [hrun, hlines]
    rfl

end CommandLine

end RegisterMachine
