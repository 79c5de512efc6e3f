import Mathlib.Data.Int.Order.Basic
import Mathlib.Tactic.Linarith
import RegisterMachine.Proofs.Machine.History
import RegisterMachine.Session

/-!
# The schedule of a session

A session keeps one clock reading. It is that of the latest call that *set the
schedule* (`Session.scheduled`): a run was begun, or a tick of one was
executed. Nothing else touches it, and without such a call no run is under way
(`Session.Keeps`); so whether a pump executes a tick is decided by the run
flag, the delay, the history of calls and the first of the pump's own two
readings. The second takes the place of the reading that was kept.

Pumps that execute a tick are the delay apart as long as the clock does not go
back. If it does, and the schedule is set by it, they need not be
(`Session.pumps_apart_fails`).

The delay of a session is a word of thirty-two bits, for it is the standard
one or one that a run was begun with. So nothing is rounded as long as the
clock stays below `2 ^ 53`.
-/

namespace RegisterMachine

namespace Machine

theorem settings_loadSource (m : Machine) (source : String) :
    (m.loadSource source).2.settings = m.settings := by
  unfold loadSource
  split <;> rfl

theorem running_loadSource (m : Machine) (source : String) :
    (m.loadSource source).2.running = m.running := by
  unfold loadSource
  split <;> rfl

end Machine

namespace Session

variable {s : Session} {asked now : ℤ} {c : Call} {readings : List ℤ}

/-- **A call that sets the schedule**, going by what it reports: a run was
begun, or a tick of one was executed. -/
def Call.schedules (c : Call) (r : Report) : Bool :=
  match c with
  | .start .. => true
  | .tick _ | .pump .. => r != .code 2
  | _ => false

/-- The clock reading that a call keeps, if it keeps one. -/
def Call.kept : Call → List ℤ
  | .start _ now | .tick now | .pump _ now => [now]
  | _ => []

/-- The clock reading that a call keeps, if it sets the schedule. -/
def sets (s : Session) (c : Call) : List ℤ :=
  if c.schedules (s.perform c).1 then c.kept else []

/-- **The clock readings that set the schedule**, in the order of the calls. -/
def scheduled (s : Session) : List Call → List ℤ
  | [] => []
  | c :: cs => s.sets c ++ (s.perform c).2.scheduled cs

theorem scheduled_append (s : Session) (cs cs' : List Call) :
    s.scheduled (cs ++ cs') = s.scheduled cs ++ (s.performAll cs).scheduled cs' := by
  induction cs generalizing s with
  | nil => rfl
  | cons c cs ih =>
    show s.sets c ++ (s.perform c).2.scheduled (cs ++ cs') = _
    rw [ih, ← List.append_assoc]
    rfl

theorem performAll_append (s : Session) (cs cs' : List Call) :
    s.performAll (cs ++ cs') = (s.performAll cs).performAll cs' :=
  List.foldl_append

/-- A clock that nothing is rounded for. -/
def IsReading (now : ℤ) : Prop := now.natAbs < 2 ^ 53

instance : DecidablePred IsReading := fun _ => inferInstanceAs (Decidable (_ < _))

/-- Calls at whose clock readings nothing is rounded. -/
def IsRead (calls : List Call) : Prop :=
  ∀ c ∈ calls, ∀ t ∈ c.readings, IsReading t

instance : DecidablePred IsRead := fun calls =>
  inferInstanceAs (Decidable (∀ c ∈ calls, ∀ t ∈ c.readings, IsReading t))

/-! ## One call -/

/-- The session after a tick at a clock reading. -/
def ticked (s : Session) (now : ℤ) : Session := ⟨s.machine.tick.2, now⟩

theorem code_status_ne_two (status : Status) : status.code ≠ 2 := by
  cases status <;> decide

/-- **A tick is executed exactly during a run**, and reports the status that
it leaves. -/
theorem perform_tick_of_running (hnow : IsReading now) (h : s.machine.running = true) :
    s.perform (.tick now)
      = (.code (s.ticked now).machine.lastStatus.code, s.ticked now) := by
  obtain ⟨hfst, hlast⟩ := Machine.tick_of_running h
  have htick : s.tick now = (some s.machine.advance.1, s.ticked now) := by
    unfold tick
    rw [show s.machine.tick = (some s.machine.advance.1, s.machine.tick.2)
      from Prod.ext hfst rfl]
    dsimp only
    rw [Binary64.nearestInt_of_natAbs_lt hnow]
    rfl
  rw [show (s.ticked now).machine.lastStatus = s.machine.advance.1 from hlast]
  unfold perform
  dsimp only
  rw [htick]
  rfl

theorem perform_loadSource (s : Session) (source : String) :
    (s.perform (.loadSource source)).2
      = { s with machine := (s.machine.loadSource source).2 } := by
  unfold perform loadSource
  dsimp only
  generalize s.machine.loadSource source = loaded
  obtain ⟨reply, machine⟩ := loaded
  cases reply <;> rfl

theorem perform_tick_of_not_running (h : s.machine.running = false) :
    s.perform (.tick now) = (.code 2, s) := by
  unfold perform tick
  rw [Machine.tick_of_not_running h]
  rfl

theorem perform_pump_of_due (hrun : s.machine.running = true)
    (hdue : s.isDue asked = true) :
    s.perform (.pump asked now) = s.perform (.tick now) := by
  unfold perform pump
  dsimp only
  rw [hrun, hdue]
  rfl

theorem perform_pump_of_not_due
    (h : s.machine.running = false ∨ s.isDue asked = false) :
    s.perform (.pump asked now) = (.code 2, s) := by
  have hboth : (s.machine.running && s.isDue asked) = false :=
    Bool.and_eq_false_iff.mpr h
  unfold perform pump
  dsimp only
  rw [hboth]
  rfl

/-- **A session whose schedule was set at given readings**, the last of which
it keeps; its delay is a word of thirty-two bits. -/
structure Keeps (readings : List ℤ) (s : Session) : Prop where
  delay_lt : s.machine.delay.toNat < 2 ^ 32
  lastTick_eq : ∀ t ∈ readings.getLast?, s.lastTick = t
  exists_reading : s.machine.running = true → ∃ t, readings.getLast? = some t

namespace Keeps

theorem new : Keeps [] Session.new where
  delay_lt := by decide
  lastTick_eq t h := by cases h
  exists_reading h := by cases h

/-- A call that sets the schedule. -/
theorem of_set {s' : Session} (hlast : s'.lastTick = now)
    (hdelay : s'.machine.delay.toNat < 2 ^ 32) : Keeps (readings ++ [now]) s' where
  delay_lt := hdelay
  lastTick_eq t ht := by
    rw [List.getLast?_concat] at ht
    exact hlast.trans (Option.some.inj ht)
  exists_reading _ := ⟨now, List.getLast?_concat⟩

/-- **A tick is due when the delay has passed** since the reading that set the
schedule last. -/
theorem isDue_iff (h : Keeps readings s) (hasked : IsReading asked) {t : ℤ}
    (ht : readings.getLast? = some t) :
    s.isDue asked = true ↔ (s.machine.delay.toNat : ℤ) ≤ asked - t := by
  have hdelay : s.machine.delay.toNat < 2 ^ 53 :=
    h.delay_lt.trans_le (Nat.pow_le_pow_right (by decide) (by decide))
  rw [Session.isDue_iff s hasked hdelay, h.lastTick_eq t ht]

/-- The delay that a page is told is the delay of the machine. -/
theorem toNat_delay (h : Keeps readings s) :
    s.delay.toNat = s.machine.delay.toNat := by
  have hlt := h.delay_lt
  unfold delay
  rw [UInt32.toNat_ofNat']
  omega

/-- A tick sets the schedule. -/
theorem ticked (h : Keeps readings s) (now : ℤ) :
    Keeps (readings ++ [now]) (s.ticked now) := by
  refine of_set rfl ?_
  show s.machine.tick.2.settings.delay.toNat < _
  rw [Machine.settings_tick]
  exact h.delay_lt

/-- A call that does not set the schedule leaves reading and settings alone and
begins no run. -/
theorem of_sets_eq_nil (h : Keeps readings s) {c : Call} (hsets : s.sets c = [])
    {s' : Session} (hlast : s'.lastTick = s.lastTick)
    (hsettings : s'.machine.settings = s.machine.settings)
    (hrun : s'.machine.running = true → s.machine.running = true) :
    Keeps (readings ++ s.sets c) s' := by
  rw [hsets, List.append_nil]
  refine ⟨?_, fun t ht => hlast.trans (h.lastTick_eq t ht),
    fun hrunning => h.exists_reading (hrun hrunning)⟩
  unfold Machine.delay
  rw [hsettings]
  exact h.delay_lt

/-- **A tick or a pump** executes a tick and sets the schedule, or it does
nothing. -/
theorem of_driven (h : Keeps readings s) {c : Call}
    (hc : c = .tick now ∨ ∃ asked, c = .pump asked now)
    (hperform : s.perform c
        = (.code (s.ticked now).machine.lastStatus.code, s.ticked now)
      ∨ s.perform c = (.code 2, s)) :
    Keeps (readings ++ s.sets c) (s.perform c).2 := by
  rcases hperform with hperform | hperform
  · have hsets : s.sets c = [now] := by
      have hne : Report.code (s.ticked now).machine.lastStatus.code ≠ .code 2 :=
        fun heq => code_status_ne_two _ (Report.code.inj heq)
      unfold sets
      rw [hperform]
      rcases hc with rfl | ⟨asked, rfl⟩ <;> exact if_pos (bne_iff_ne.mpr hne)
    rw [hsets, hperform]
    exact h.ticked now
  · have hsets : s.sets c = [] := by
      unfold sets
      rw [hperform]
      rcases hc with rfl | ⟨asked, rfl⟩ <;> rfl
    rw [hperform]
    exact h.of_sets_eq_nil hsets rfl rfl id

/-- **Every call keeps the schedule as its history says.** -/
theorem perform (h : Keeps readings s) (c : Call)
    (hreadings : ∀ t ∈ c.readings, IsReading t) :
    Keeps (readings ++ s.sets c) (s.perform c).2 := by
  cases c with
  | loadSource source =>
    rw [perform_loadSource]
    exact h.of_sets_eq_nil rfl rfl (s.machine.settings_loadSource source)
      fun hrun => s.machine.running_loadSource source ▸ hrun
  | step =>
    exact h.of_sets_eq_nil rfl rfl s.machine.settings_step
      fun hrun => s.machine.running_step ▸ hrun
  | start delay now =>
    have hnow := hreadings now (List.mem_singleton_self now)
    refine of_set (Binary64.nearestInt_of_natAbs_lt hnow) ?_
    show delay.toUInt64.toNat < _
    rw [UInt32.toNat_toUInt64]
    exact delay.toNat_lt
  | tick now =>
    have hnow := hreadings now (List.mem_singleton_self now)
    refine h.of_driven (.inl rfl) ?_
    cases hrun : s.machine.running with
    | true => exact .inl (perform_tick_of_running hnow hrun)
    | false => exact .inr (perform_tick_of_not_running hrun)
  | pump asked now =>
    have hnow := hreadings now (.tail _ (List.mem_singleton_self now))
    refine h.of_driven (.inr ⟨asked, rfl⟩) ?_
    by_cases hdue : s.machine.running = true ∧ s.isDue asked = true
    · rw [perform_pump_of_due hdue.1 hdue.2]
      exact .inl (perform_tick_of_running hnow hdue.1)
    · refine .inr (perform_pump_of_not_due ?_)
      rwa [not_and_or, Bool.not_eq_true, Bool.not_eq_true] at hdue
  | stop | reset => exact h.of_sets_eq_nil rfl rfl rfl fun hrun => by cases hrun

/-- **So does every list of calls.** -/
theorem performAll {calls : List Call} (h : Keeps readings s)
    (hcalls : IsRead calls) :
    Keeps (readings ++ s.scheduled calls) (s.performAll calls) := by
  induction calls generalizing s readings with
  | nil =>
    rw [show s.scheduled [] = [] from rfl, List.append_nil]
    exact h
  | cons c calls ih =>
    obtain ⟨hc, hcalls⟩ := List.forall_mem_cons.mp hcalls
    have hrest := ih (h.perform c hc) hcalls
    rwa [List.append_assoc] at hrest

end Keeps

/-! ## Pumps -/

/-- **A pump is due** in a session with a history of calls: a run is under way
and the delay has passed since the schedule was set last. -/
def PumpDue (calls : List Call) (asked : ℤ) : Prop :=
  let s := new.performAll calls
  s.machine.running = true
    ∧ ∃ t, (new.scheduled calls).getLast? = some t
      ∧ (s.delay.toNat : ℤ) ≤ asked - t

theorem keeps_performAll_new {calls : List Call} (hcalls : IsRead calls) :
    Keeps (new.scheduled calls) (new.performAll calls) :=
  Keeps.new.performAll hcalls

theorem pumpDue_iff {calls : List Call} (hcalls : IsRead calls)
    (hasked : IsReading asked) :
    PumpDue calls asked
      ↔ (new.performAll calls).machine.running = true
        ∧ (new.performAll calls).isDue asked = true := by
  have hkeeps := keeps_performAll_new hcalls
  refine and_congr_right fun hrun => ?_
  obtain ⟨t, ht⟩ := hkeeps.exists_reading hrun
  rw [hkeeps.isDue_iff hasked ht, hkeeps.toNat_delay]
  constructor
  · rintro ⟨t', ht', hdue⟩
    obtain rfl := Option.some.inj (ht.symm.trans ht')
    exact hdue
  · exact fun hdue => ⟨t, ht, hdue⟩

/-- **A pump that is due is a tick, and any other does nothing.** -/
theorem perform_pump {calls : List Call} (hcalls : IsRead calls)
    (hasked : IsReading asked) (hnow : IsReading now) :
    let s := new.performAll calls
    (PumpDue calls asked → s.perform (.pump asked now)
        = (.code (s.ticked now).machine.lastStatus.code, s.ticked now))
      ∧ (¬PumpDue calls asked → s.perform (.pump asked now) = (.code 2, s)) := by
  intro s
  rw [pumpDue_iff hcalls hasked]
  refine ⟨fun hdue => ?_, fun hdue => ?_⟩
  · rw [perform_pump_of_due hdue.1 hdue.2]
    exact perform_tick_of_running hnow hdue.1
  · refine perform_pump_of_not_due ?_
    rwa [not_and_or, Bool.not_eq_true, Bool.not_eq_true] at hdue

/-- A step after the calls changes nothing about when a pump is due. -/
theorem pumpDue_step (calls : List Call) (asked : ℤ) :
    PumpDue (calls ++ [.step]) asked ↔ PumpDue calls asked := by
  have hmachine : (new.performAll (calls ++ [.step])).machine
      = (new.performAll calls).machine.step.2 := by
    rw [performAll_append]
    rfl
  have hdelay : (new.performAll (calls ++ [.step])).delay
      = (new.performAll calls).delay := by
    unfold delay Machine.delay
    rw [hmachine, Machine.settings_step]
  have hscheduled : new.scheduled (calls ++ [.step]) = new.scheduled calls := by
    rw [scheduled_append]
    exact List.append_nil _
  unfold PumpDue
  dsimp only
  rw [hmachine, Machine.running_step, hdelay, hscheduled]

/-- **A pump waits for the delay after the pump before it**, unless the
schedule was set in between by a clock that had gone back. -/
theorem delay_le_of_pumps {before between : List Call} {asked' time : ℤ}
    (hset : (new.performAll before).sets (.pump asked' time) = [time])
    (hbetween : ∀ t ∈ ((new.performAll before).perform
      (.pump asked' time)).2.scheduled between, time ≤ t)
    (hdue : PumpDue (before ++ .pump asked' time :: between) asked) :
    ((new.performAll (before ++ .pump asked' time :: between)).delay.toNat : ℤ)
      ≤ asked - time := by
  obtain ⟨-, t, ht, hdelay⟩ := hdue
  refine hdelay.trans (Int.sub_le_sub_left ?_ asked)
  have hsplit : new.scheduled (before ++ .pump asked' time :: between)
      = new.scheduled before ++ time :: ((new.performAll before).perform
        (.pump asked' time)).2.scheduled between := by
    rw [scheduled_append]
    show _ ++ ((new.performAll before).sets (.pump asked' time) ++ _) = _
    rw [hset]
    rfl
  rw [hsplit, List.getLast?_append_cons] at ht
  rcases List.mem_cons.mp (List.mem_of_getLast? ht) with rfl | hmem
  · exact le_rfl
  · exact hbetween t hmem

/-- **Pumps keep to the schedule.** Let a session have any history of calls,
with clock readings below `2 ^ 53` in any order. A pump is a tick exactly if a
run is under way and, at the first of its readings, the delay has passed since
the latest reading that was kept when a run was begun or a tick executed; a step
in between does not matter. A tick is executed exactly during a run. A call that
executes a tick keeps its reading and reports the code of the status that is
left, which is never two, and one that does not reports two and leaves the
session as it was. From the reading that one pump kept to the reading at which
another was due it is at least the delay, unless the schedule was set between
them at an earlier reading than the one kept. And the delay that is told is the
delay of the machine. -/
theorem pumps_on_schedule {calls : List Call} (hcalls : IsRead calls)
    (hasked : IsReading asked) (hnow : IsReading now) :
    let s := new.performAll calls
    (PumpDue calls asked → s.perform (.pump asked now)
        = (.code (s.ticked now).machine.lastStatus.code, s.ticked now))
      ∧ (¬PumpDue calls asked → s.perform (.pump asked now) = (.code 2, s))
      ∧ (s.machine.running = true → s.perform (.tick now)
        = (.code (s.ticked now).machine.lastStatus.code, s.ticked now))
      ∧ (s.machine.running = false → s.perform (.tick now) = (.code 2, s))
      ∧ (s.ticked now).machine.lastStatus.code ≠ 2
      ∧ (PumpDue (calls ++ [.step]) asked ↔ PumpDue calls asked)
      ∧ (∀ before asked' time between,
        calls = before ++ .pump asked' time :: between →
        ((new.performAll before).perform (.pump asked' time)).1 ≠ .code 2 →
        (∀ t ∈ ((new.performAll before).perform
          (.pump asked' time)).2.scheduled between, time ≤ t) →
        (s.perform (.pump asked now)).1 ≠ .code 2 →
          (s.delay.toNat : ℤ) ≤ asked - time)
      ∧ s.delay.toNat = s.machine.delay.toNat := by
  intro s
  obtain ⟨hpump, hidle⟩ := perform_pump hcalls hasked hnow
  refine ⟨hpump, hidle, perform_tick_of_running hnow, perform_tick_of_not_running,
    code_status_ne_two _, pumpDue_step calls asked,
    fun before asked' time between hsplit hreport hbetween hexecuted => ?_,
    (keeps_performAll_new hcalls).toNat_delay⟩
  have hdue : PumpDue calls asked := by
    by_contra hnot
    exact hexecuted (congrArg Prod.fst (hidle hnot))
  have hset : (new.performAll before).sets (.pump asked' time) = [time] :=
    if_pos (bne_iff_ne.mpr hreport)
  obtain rfl := hsplit
  exact delay_le_of_pumps hset hbetween hdue

/-- A run with a delay of thirty milliseconds and a clock that jumps back: the
pump that finds it at one hundred executes a tick, the one before it does not.
It keeps the reading after the tick, and the next pump waits from there. -/
theorem pumps_when_clock_jumps_back :
    let calls : List Call :=
      [.loadSource "jmp 1\njmp 1", .start 30 70, .pump 99 99, .pump 100 101,
       .step, .tick 102]
    IsRead calls
      ∧ new.scheduled calls = [70, 101, 102]
      ∧ ((new.performAll calls).perform (.pump 131 (-3))).1 = .code 2
      ∧ ((new.performAll calls).perform (.pump 132 (-3))).1 = .code 1
      ∧ (30 : ℤ) ≤ 132 - 101 := by
  intro calls
  have hcalls : IsRead calls := by decide
  have hscheduled : new.scheduled calls = [70, 101, 102] := by decide +kernel
  have hdelay : (new.performAll calls).delay.toNat = 30 := by decide +kernel
  have hcode : ((new.performAll calls).perform (.pump 132 (-3))).1 = .code 1 := by
    decide +kernel
  have hearly : ¬PumpDue calls 131 := by
    rintro ⟨-, t, ht, hdue⟩
    rw [hscheduled] at ht
    obtain rfl := Option.some.inj ht
    rw [hdelay] at hdue
    exact absurd hdue (by decide)
  have hbefore : IsReading 131 := by decide
  have hafter : IsReading 132 := by decide
  have hback : IsReading (-3) := by decide
  obtain ⟨-, hidle, -⟩ := pumps_on_schedule hcalls hbefore hback
  obtain ⟨-, -, -, -, -, -, hapart, -⟩ := pumps_on_schedule hcalls hafter hback
  refine ⟨hcalls, hscheduled, congrArg Prod.fst (hidle hearly), hcode, ?_⟩
  have hlast := hapart
    [.loadSource "jmp 1\njmp 1", .start 30 70, .pump 99 99] 100 101
    [.step, .tick 102] rfl (by decide +kernel) (by decide +kernel)
    (by rw [hcode]; decide)
  rwa [hdelay] at hlast

/-- **Pumps need not be the delay apart.** A run with a delay of thirty
milliseconds is begun at one hundred and pumped at one hundred and thirty; then
the clock goes back, a run is begun at ninety-five, and a pump at one hundred and
twenty-five executes a tick, at a reading before that of the first. -/
theorem pumps_apart_fails :
    let before : List Call := [.loadSource "jmp 1\njmp 1", .start 30 100]
    let after : List Call := before ++ [.pump 130 130, .start 30 95]
    IsRead (after ++ [.pump 125 125])
      ∧ ((new.performAll before).perform (.pump 130 130)).1 = .code 1
      ∧ ((new.performAll after).perform (.pump 125 125)).1 = .code 1
      ∧ ¬((new.performAll after).delay.toNat : ℤ) ≤ 125 - 130 := by
  refine ⟨by decide, by decide +kernel, by decide +kernel, ?_⟩
  decide +kernel

end Session

end RegisterMachine
