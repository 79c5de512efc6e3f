import RegisterMachine.Debugger.Basic
import RegisterMachine.Proofs.Machine.Tick
import RegisterMachine.Proofs.Ticker.Pace

/-!
# The pace of a debugger

A debugger keeps its delay twice, in the machine and in the ticker, and no
command sets the one without the other (`Debugger.InStep`). So the pace of a
run is the pace of the ticker: between two commands that set the ticker, the
ticks that are executed are ticks of the ticker, polled at some of the times
at which the debugger was asked (`Debugger.exists_executions_eq_firings`).

A tick that is not executed leaves the debugger as it is, and one that is
executed is a tick of the machine.
-/

namespace RegisterMachine.Debugger

variable {d : Debugger} {c : Command} {now t₀ : Instant}

/-- **When a command sets the ticker**: a run begins, or the delay changes. -/
def Command.paces : Command → Option Instant
  | .run now => some now
  | .scaleDelay _ now => some now
  | _ => none

def Command.isScaleDelay : Command → Bool
  | .scaleDelay .. => true
  | _ => false

/-- **Whether a tick is executed**: a run is under way, and one is due. -/
def executes (d : Debugger) (now : Instant) : Bool :=
  d.machine.running && (d.ticker.poll now).1

/-- **When ticks were executed** along a list of commands. -/
def executions (d : Debugger) : List Command → List Instant
  | [] => []
  | .tick now :: cs =>
    if d.executes now then now :: (d.tick now).executions cs
    else (d.tick now).executions cs
  | c :: cs => (d.perform c).executions cs

/-! ## Ticks -/

/-- **A tick that is not executed changes nothing.** -/
theorem tick_of_not_executes (h : d.executes now = false) : d.tick now = d := by
  unfold tick
  split
  · next hrun =>
    have hdue : now < d.ticker.deadline := by
      rw [executes, hrun, Bool.true_and, Bool.eq_false_iff, Ne, Ticker.poll_fst] at h
      exact not_le.mp h
    rw [Ticker.poll_of_lt hdue]
    rfl
  · rfl

/-- **A tick that is executed is a tick of the machine**, and the notice tells
of it. -/
theorem tick_of_executes (h : d.executes now = true) :
    d.machine.tick.1 = some d.machine.advance.1
      ∧ d.tick now = { d with
        machine := d.machine.tick.2
        ticker := (d.ticker.poll now).2
        notice := report d.machine.tick.2 d.machine.counter d.machine.advance.1 } := by
  obtain ⟨hrun, hdue⟩ := (Bool.and_eq_true _ _).mp h
  have htick := (Machine.tick_of_running hrun).1
  refine ⟨htick, ?_⟩
  unfold tick
  rw [if_pos hrun]
  dsimp only
  rw [hdue, if_pos rfl, show d.machine.tick = (some d.machine.advance.1, d.machine.tick.2)
    from Prod.ext htick rfl]

theorem delay_tick (d : Debugger) (now : Instant) :
    (d.tick now).machine.delay = d.machine.delay := by
  cases h : d.executes now with
  | false => rw [tick_of_not_executes h]
  | true =>
    rw [(tick_of_executes h).2]
    exact congrArg Settings.delay d.machine.settings_tick

theorem ticker_tick_of_not_running (h : d.machine.running = false) :
    (d.tick now).ticker = d.ticker := by
  rw [tick_of_not_running h]

theorem ticker_tick_of_running (h : d.machine.running = true) :
    (d.tick now).ticker = (d.ticker.poll now).2 := by
  cases hexec : d.executes now with
  | true => rw [(tick_of_executes hexec).2]
  | false =>
    have hdue : now < d.ticker.deadline := by
      rw [executes, h, Bool.true_and, Bool.eq_false_iff, Ne, Ticker.poll_fst] at hexec
      exact not_le.mp hexec
    rw [tick_of_not_executes hexec, Ticker.poll_of_lt hdue]

/-- **While no run is under way nothing happens**, however often a tick is
asked for. -/
theorem performAll_ticks_of_not_running (h : d.machine.running = false)
    (times : List Instant) : d.performAll (times.map .tick) = d := by
  induction times with
  | nil => rfl
  | cons now times ih =>
    show (d.tick now).performAll (times.map .tick) = d
    rw [tick_of_not_running h]
    exact ih

/-! ## The delay -/

/-- **Machine and ticker are at the same delay.** -/
def InStep (d : Debugger) : Prop :=
  d.ticker.interval = .ofMillis d.machine.delay.toNat

/-- Only a change of the delay changes it. -/
theorem delay_perform (hc : c.isScaleDelay = false) :
    (d.perform c).machine.delay = d.machine.delay := by
  cases c with
  | step => exact congrArg Settings.delay d.machine.settings_step
  | run | pause | reset => rfl
  | scaleDelay => cases hc
  | tick now => exact d.delay_tick now

/-- **Every command keeps machine and ticker at the same delay.** -/
theorem InStep.perform (h : d.InStep) (c : Command) : (d.perform c).InStep := by
  cases c with
  | step =>
    have hdelay : (d.perform .step).machine.delay = d.machine.delay := delay_perform rfl
    unfold InStep
    rw [hdelay]
    exact h
  | run | pause | reset => exact h
  | scaleDelay => rfl
  | tick now =>
    unfold InStep
    rw [show d.perform (.tick now) = d.tick now from rfl, delay_tick]
    cases hrun : d.machine.running with
    | false => rwa [ticker_tick_of_not_running hrun]
    | true =>
      rw [ticker_tick_of_running hrun, Ticker.interval_poll]
      exact h

theorem performAll_cons (d : Debugger) (c : Command) (cs : List Command) :
    d.performAll (c :: cs) = (d.perform c).performAll cs := rfl

theorem performAll_append (d : Debugger) (cs cs' : List Command) :
    d.performAll (cs ++ cs') = (d.performAll cs).performAll cs' :=
  List.foldl_append

theorem InStep.performAll (h : d.InStep) (cs : List Command) :
    (d.performAll cs).InStep := by
  induction cs generalizing d with
  | nil => exact h
  | cons c cs ih => exact ih (h.perform c)

/-- The bounds that the delay is held to. -/
def IsBounded (delay : UInt64) : Prop := 10 ≤ delay ∧ delay ≤ 5000

/-- Changing the delay leaves it within the bounds. -/
theorem isBounded_scaled (faster : Bool) (delay : UInt64) :
    IsBounded (scaled faster delay) := bounded_mem _

theorem IsBounded.performAll (h : IsBounded d.machine.delay) (cs : List Command) :
    IsBounded (d.performAll cs).machine.delay := by
  induction cs generalizing d with
  | nil => exact h
  | cons c cs ih =>
    refine ih ?_
    cases hc : c.isScaleDelay with
    | false => rwa [delay_perform hc]
    | true =>
      cases c with
      | scaleDelay faster now => exact isBounded_scaled faster d.machine.delay
      | step | run | pause | reset | tick => cases hc

/-- **Once the delay was changed it stays within the bounds.** -/
theorem isBounded_of_mem {cs : List Command} (d : Debugger)
    (h : ∃ c ∈ cs, c.isScaleDelay = true) :
    IsBounded (d.performAll cs).machine.delay := by
  obtain ⟨c, hc, hscale⟩ := h
  obtain ⟨before, after, rfl⟩ := List.append_of_mem hc
  rw [performAll_append, performAll_cons]
  refine IsBounded.performAll ?_ after
  cases c with
  | scaleDelay faster now => exact isBounded_scaled faster _
  | step | run | pause | reset | tick => cases hscale

/-- **Within the bounds, faster is not slower and slower is not faster.** -/
theorem IsBounded.scaled_le {delay : UInt64} (h : IsBounded delay) :
    scaled true delay ≤ delay ∧ delay ≤ scaled false delay := by
  obtain ⟨hlo, hhi⟩ := h
  rw [UInt64.le_iff_toNat_le] at hlo hhi
  change 10 ≤ delay.toNat at hlo
  change delay.toNat ≤ 5000 at hhi
  have hdoubled : (doubled delay).toNat = 2 * delay.toNat := by
    rw [doubled, UInt64.toNat_ofNat']
    omega
  have hhalf : (delay / 2).toNat = delay.toNat / 2 := UInt64.toNat_div _ _
  have hleast : leastDelay.toNat = 10 := rfl
  have hgreatest : greatestDelay.toNat = 5000 := rfl
  constructor
  · show bounded (delay / 2) ≤ delay
    unfold bounded
    simp only [UInt64.lt_iff_toNat_lt, UInt64.le_iff_toNat_le, hleast, hgreatest, hhalf]
    split_ifs <;> omega
  · show delay ≤ bounded (doubled delay)
    unfold bounded
    simp only [UInt64.lt_iff_toNat_lt, UInt64.le_iff_toNat_le, hleast, hgreatest,
      hdoubled]
    split_ifs <;> omega

/-! ## The rate -/

/-- **Between two commands that set it, the ticker decides**: the ticks that
are executed are those that it finds due, at the times at which it is polled. -/
theorem exists_executions_eq_firings {cs : List Command} (d : Debugger)
    (h : ∀ c ∈ cs, c.paces = none) :
    ∃ times, d.executions cs = d.ticker.firings times := by
  induction cs generalizing d with
  | nil => exact ⟨[], rfl⟩
  | cons c cs ih =>
    obtain ⟨hc, hcs⟩ := List.forall_mem_cons.mp h
    cases c with
    | run | scaleDelay => cases hc
    | step | pause | reset => exact ih _ hcs
    | tick now =>
      obtain ⟨times, htimes⟩ := ih (d.tick now) hcs
      cases hrun : d.machine.running with
      | false =>
        refine ⟨times, ?_⟩
        rw [ticker_tick_of_not_running hrun] at htimes
        unfold executions executes
        rw [hrun, htimes]
        rfl
      | true =>
        refine ⟨now :: times, ?_⟩
        rw [ticker_tick_of_running hrun] at htimes
        unfold executions executes
        rw [hrun, htimes, Ticker.firings_cons, Bool.true_and]

/-- A command that sets the ticker has it begin then. -/
theorem begun_of_paces (h : d.InStep) (hc : c.paces = some t₀) :
    Ticker.Begun (.ofMillis (d.perform c).machine.delay.toNat) t₀
      (d.perform c).ticker := by
  cases c with
  | run now =>
    obtain rfl := Option.some.inj hc
    exact .restart h
  | scaleDelay faster now =>
    obtain rfl := Option.some.inj hc
    exact .setInterval d.ticker
  | step | pause | reset | tick => cases hc

theorem delay_performAll_of_paces {cs : List Command} (d : Debugger)
    (h : ∀ c ∈ cs, c.paces = none) :
    (d.performAll cs).machine.delay = d.machine.delay := by
  induction cs generalizing d with
  | nil => rfl
  | cons c cs ih =>
    obtain ⟨hc, hcs⟩ := List.forall_mem_cons.mp h
    have hscale : c.isScaleDelay = false := by
      cases c with
      | scaleDelay => cases hc
      | step | run | pause | reset | tick => rfl
    rw [performAll_cons, ih _ hcs, delay_perform hscale]

/-- **The pace of a debugger**, for every machine, every program and every
list of commands. The ticker is at the delay of the machine. Once the delay
was changed it is between ten and five thousand milliseconds, and then a
change to a faster run never makes it greater, nor one to a slower run less.
While no run is under way ticks change nothing. A tick that is executed is a
tick of the machine and any other changes nothing; and the `k`-th tick that is
executed since the ticker was set last, at `t₀`, comes `k` delays after `t₀`
or later. -/
theorem paced_by_delay (machine : Machine) (program : Program) (now₀ : Instant)
    (commands : List Command) :
    let d₀ := new machine program now₀
    let d := d₀.performAll commands
    d.ticker.interval = .ofMillis d.machine.delay.toNat
      ∧ ((∃ c ∈ commands, c.isScaleDelay = true) →
        10 ≤ d.machine.delay ∧ d.machine.delay ≤ 5000
          ∧ (∀ now, (d.scaleDelay true now).machine.delay ≤ d.machine.delay)
          ∧ ∀ now, d.machine.delay ≤ (d.scaleDelay false now).machine.delay)
      ∧ (d.machine.running = false →
        ∀ times : List Instant, d.performAll (times.map .tick) = d)
      ∧ (∀ now, if d.executes now then
          d.machine.tick.1 = some d.machine.advance.1
            ∧ (d.tick now).machine = d.machine.tick.2
        else d.tick now = d)
      ∧ ∀ before c after t₀, commands = before ++ c :: after →
        c.paces = some t₀ → (∀ c' ∈ after, c'.paces = none) →
          ∀ (k : ℕ) (now : Instant),
            (((d₀.performAll before).perform c).executions after)[k]? = some now →
              t₀ + (k + 1) * Duration.ofMillis d.machine.delay.toNat ≤ now := by
  intro d₀ d
  have hstart : d₀.InStep := rfl
  refine ⟨hstart.performAll commands, fun hscale => ?_,
    performAll_ticks_of_not_running, fun now => ?_,
    fun before c after t₀ hcommands hc hafter k now hnow => ?_⟩
  · have hbounded := isBounded_of_mem d₀ hscale
    obtain ⟨hfaster, hslower⟩ := hbounded.scaled_le
    exact ⟨hbounded.1, hbounded.2, fun _ => hfaster, fun _ => hslower⟩
  · split
    · next hexec =>
      obtain ⟨hstatus, htick⟩ := tick_of_executes hexec
      exact ⟨hstatus, by rw [htick]⟩
    · next hexec => exact tick_of_not_executes (Bool.eq_false_iff.mpr hexec)
  · have hbegun := begun_of_paces (hstart.performAll before) hc
    have hdelay : d.machine.delay
        = ((d₀.performAll before).perform c).machine.delay := by
      show (d₀.performAll commands).machine.delay = _
      rw [hcommands, performAll_append, performAll_cons,
        delay_performAll_of_paces _ hafter]
    obtain ⟨times, htimes⟩ := exists_executions_eq_firings
      ((d₀.performAll before).perform c) hafter
    rw [htimes] at hnow
    have hdue := Ticker.deadline_le_firings hnow
    rw [hbegun.eq_new, ← hdelay] at hdue
    change t₀ + Duration.ofMillis _ + k * Duration.ofMillis _ ≤ now at hdue
    linarith

/-- Commands for a run at half the standard delay: a tick is asked for too
early, then in the middle of the third interval, and then one interval after
that. -/
def unhurried : List Command :=
  [.tick 49999999, .tick 120000000, .step, .tick 160000000, .tick 170000000]

theorem paced_at_fifty_milliseconds :
    let d₀ := new (.new .standard) (.ofList [.ofInt .jmp 1, .ofInt .jmp 1]) 3
    let d₁ := d₀.performAll [.tick 4, .scaleDelay true 5]
    (d₁.performAll (.run 0 :: unhurried)).machine.delay = 50
      ∧ (d₁.perform (.run 0)).executions unhurried = [120000000, 170000000]
      ∧ (0 : Instant) + ((1 : ℕ) + 1) * Duration.ofMillis 50 ≤ 170000000 := by
  intro d₀ d₁
  have hdelay : (d₁.performAll (.run 0 :: unhurried)).machine.delay = 50 := by
    decide +kernel
  have hexecuted : (d₁.perform (.run 0)).executions unhurried
      = [120000000, 170000000] := by decide +kernel
  have hfifty : (50 : UInt64).toNat = 50 := rfl
  obtain ⟨-, -, -, -, hrate⟩ := paced_by_delay (.new .standard)
    (.ofList [.ofInt .jmp 1, .ofInt .jmp 1]) 3
    ([.tick 4, .scaleDelay true 5] ++ .run 0 :: unhurried)
  have hlast := hrate _ _ _ 0 rfl rfl (by decide) 1 170000000
    (congrArg (fun times => times[1]?) hexecuted)
  rw [performAll_append, hdelay, hfifty] at hlast
  exact ⟨hdelay, hexecuted, hlast⟩

end RegisterMachine.Debugger
