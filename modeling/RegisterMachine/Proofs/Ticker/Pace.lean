import Mathlib.Algebra.Order.Group.Unbundled.Int
import Mathlib.Data.List.Chain
import Mathlib.Tactic.Linarith
import Mathlib.Tactic.Ring
import RegisterMachine.Ticker

/-!
# The pace of a ticker

A poll that finds a tick due moves the deadline on by one interval at least,
and puts it between now and one interval from now (`Ticker.deadline_poll`).
Everything else about the pace of a ticker comes from these two facts.

The first says that ticks are never ahead of the grid of intervals: the `k`-th
is not due before `k` intervals have passed, however the clock jumps about.
The second says that a deadline is never left far behind: of three ticks in a
row the last is due an interval after the first, however long the host was
away before them.

A host that never stays away for a whole interval keeps to the grid exactly
(`Ticker.OnGrid`): it finds as many ticks due as intervals have passed.
-/

namespace RegisterMachine.Ticker

variable {t : Ticker} {t₀ now prev : Instant} {interval : Duration} {n : ℕ}

/-- **When ticks were due**: the times of the polls that found one. -/
def firings (t : Ticker) (times : List Instant) : List Instant :=
  ((times.zip (t.polls times).1).filter Prod.snd).map Prod.fst

/-- **A ticker that begins at a point in time**: it is new, or it was restarted
or given its interval then. -/
inductive Begun (interval : Duration) (t₀ : Instant) : Ticker → Prop where
  | new : Begun interval t₀ (new interval t₀)
  | restart {t : Ticker} (h : t.interval = interval) :
      Begun interval t₀ (t.restart t₀)
  | setInterval (t : Ticker) : Begun interval t₀ (t.setInterval interval t₀)

/-- All three put the deadline one interval ahead. -/
theorem Begun.eq_new (h : Begun interval t₀ t) : t = Ticker.new interval t₀ := by
  cases h with
  | new => rfl
  | restart h => rw [← h]; rfl
  | setInterval t => rfl

/-! ## One poll -/

theorem poll_of_lt (h : now < t.deadline) : t.poll now = (false, t) := if_pos h

/-- **A poll that finds a tick due moves the deadline on**: by one interval at
least, to now or later, and to one interval from now at most. -/
theorem deadline_poll (h : t.deadline ≤ now) :
    (t.poll now).1 = true
      ∧ t.deadline + t.interval ≤ (t.poll now).2.deadline
      ∧ now ≤ (t.poll now).2.deadline
      ∧ (t.poll now).2.deadline ≤ now + t.interval := by
  have hpoll : t.poll now = (true, { t with deadline :=
      if t.deadline + t.interval < now then now + t.interval
      else t.deadline + t.interval }) := if_neg (not_lt.mpr h)
  rw [hpoll]
  dsimp only
  split
  · next hlate => exact ⟨rfl, by linarith, by linarith, le_rfl⟩
  · next hgrid => exact ⟨rfl, le_rfl, not_lt.mp hgrid, by linarith⟩

/-- A host that is less than an interval late keeps the ticker on its grid. -/
theorem deadline_poll_of_lt (h : t.deadline ≤ now)
    (hlate : now < t.deadline + t.interval) :
    (t.poll now).2.deadline = t.deadline + t.interval := by
  unfold poll
  rw [if_neg (not_lt.mpr h)]
  exact if_neg (not_lt.mpr hlate.le)

/-- **No time is left exactly when a tick is due.** -/
theorem remaining_eq_zero_iff (t : Ticker) (now : Instant) :
    t.remaining now = 0 ↔ (t.poll now).1 = true := by
  rw [poll_fst, remaining, Int.toNat_eq_zero, sub_nonpos]

/-! ## Polls in a row -/

theorem polls_cons (t : Ticker) (now : Instant) (times : List Instant) :
    t.polls (now :: times)
      = ((t.poll now).1 :: ((t.poll now).2.polls times).1,
        ((t.poll now).2.polls times).2) := rfl

theorem firings_cons (t : Ticker) (now : Instant) (times : List Instant) :
    t.firings (now :: times)
      = if (t.poll now).1 then now :: (t.poll now).2.firings times
        else (t.poll now).2.firings times := by
  unfold firings
  rw [polls_cons, List.zip_cons_cons, List.filter_cons]
  cases (t.poll now).1 <;> rfl

theorem interval_polls (t : Ticker) (times : List Instant) :
    (t.polls times).2.interval = t.interval := by
  induction times generalizing t with
  | nil => rfl
  | cons now times ih => exact (ih (t.poll now).2).trans (interval_poll t now)

/-- **No tick comes before its time**: so many intervals behind the deadline
that there was at first. -/
theorem deadline_le_firings {times : List Instant} {k : ℕ}
    (h : (t.firings times)[k]? = some now) :
    t.deadline + k * t.interval ≤ now := by
  induction times generalizing t k with
  | nil => cases h
  | cons time times ih =>
    rw [firings_cons] at h
    by_cases hdue : t.deadline ≤ time
    · obtain ⟨hfst, hgrid, -, -⟩ := deadline_poll hdue
      rw [hfst, if_pos rfl] at h
      cases k with
      | zero =>
        obtain rfl := Option.some.inj h
        simpa using hdue
      | succ k =>
        have hnext := ih h
        rw [interval_poll] at hnext
        push_cast
        linarith
    · rw [poll_of_lt (not_le.mp hdue)] at h
      exact ih h

/-- **Of three ticks in a row the last comes an interval after the first.** -/
theorem firings_add_le {times : List Instant} {k : ℕ} {first third : Instant}
    (hfirst : (t.firings times)[k]? = some first)
    (hthird : (t.firings times)[k + 2]? = some third) :
    first + t.interval ≤ third := by
  induction times generalizing t k with
  | nil => cases hfirst
  | cons time times ih =>
    rw [firings_cons] at hfirst hthird
    by_cases hdue : t.deadline ≤ time
    · obtain ⟨hfst, -, hnow, -⟩ := deadline_poll hdue
      rw [hfst, if_pos rfl] at hfirst hthird
      cases k with
      | zero =>
        -- the second tick is due no earlier than the first came
        obtain rfl := Option.some.inj hfirst
        have hlast := deadline_le_firings (k := 1) hthird
        rw [interval_poll, Nat.cast_one, one_mul] at hlast
        linarith
      | succ k =>
        have hlater := ih hfirst hthird
        rwa [interval_poll] at hlater
    · rw [poll_of_lt (not_le.mp hdue)] at hfirst hthird
      exact ih hfirst hthird

theorem mem_of_mem_firings {times : List Instant} (h : now ∈ t.firings times) :
    now ∈ times := by
  obtain ⟨e, he, rfl⟩ := List.mem_map.mp h
  exact (List.of_mem_zip (List.mem_filter.mp he).1).1

/-- So many ticks take so many intervals. -/
theorem length_firings_mul_le {times : List Instant} {latest : Instant}
    (hstart : t.deadline ≤ latest + t.interval)
    (htimes : ∀ time ∈ times, time ≤ latest) :
    t.deadline + (t.firings times).length * t.interval
      ≤ latest + t.interval := by
  rcases List.eq_nil_or_concat' (t.firings times) with hnil | ⟨front, last, hlast⟩
  · rw [hnil]
    simpa using hstart
  · have hget : (t.firings times)[front.length]? = some last := by
      rw [hlast]
      exact List.getElem?_concat_length
    have hle := htimes last (mem_of_mem_firings (List.mem_of_getElem? hget))
    have hdue := deadline_le_firings hget
    rw [hlast, List.length_append, List.length_singleton]
    push_cast
    linarith

/-- **At most one tick an interval, and no burst.** Let a ticker begin at `t₀`
and be polled at any times, in whatever order. The `k`-th tick comes `k`
intervals after `t₀` or later, so there are no more ticks than intervals have
passed; whenever a tick was due, the next is due between then and one interval
later; of three ticks in a row the last comes an interval after the first; and
no time is left exactly when a tick is due. -/
theorem fires_once_an_interval (ht : Begun interval t₀ t)
    (times : List Instant) (now : Instant) :
    let fired := t.firings times
    let s := (t.polls times).2
    (∀ (k : ℕ) (time : Instant), fired[k]? = some time →
        t₀ + (k + 1) * interval ≤ time)
      ∧ (∀ latest, t₀ ≤ latest → (∀ time ∈ times, time ≤ latest) →
        fired.length * interval ≤ latest - t₀)
      ∧ ((s.poll now).1 = true →
        now ≤ (s.poll now).2.deadline ∧ (s.poll now).2.deadline ≤ now + interval)
      ∧ (∀ (k : ℕ) (first third : Instant), fired[k]? = some first →
        fired[k + 2]? = some third → first + interval ≤ third)
      ∧ (s.remaining now = 0 ↔ (s.poll now).1 = true) := by
  intro fired s
  obtain rfl := ht.eq_new
  have hinterval : s.interval = interval := interval_polls _ times
  refine ⟨fun k time htime => ?_, fun latest hlatest htimes => ?_, fun hdue => ?_,
    fun k first third => firings_add_le, remaining_eq_zero_iff s now⟩
  · have hle := deadline_le_firings htime
    change t₀ + interval + k * interval ≤ time at hle
    linarith
  · have hle := length_firings_mul_le (t := new interval t₀)
      (add_le_add_left hlatest (interval : ℤ)) htimes
    change t₀ + interval + fired.length * interval ≤ latest + interval at hle
    linarith
  · rw [poll_fst] at hdue
    obtain ⟨-, -, hlower, hupper⟩ := deadline_poll hdue
    exact ⟨hlower, hinterval ▸ hupper⟩

/-- A poll exactly one interval late leaves a second tick due at once; the
third waits, and a long stall makes up for nothing. -/
theorem fires_after_stall :
    let t := (new 3 7).setInterval 10 0
    Begun 10 0 t ∧ t.firings [20, 5, 20, 20, 1000, 1000, 1009, 1010]
        = [20, 20, 1000, 1010]
      ∧ (20 : Instant) + 10 ≤ 1000 ∧ (20 : Instant) + 10 ≤ 1010 := by
  intro t
  have ht : Begun 10 0 t := .setInterval _
  have hfired : t.firings [20, 5, 20, 20, 1000, 1000, 1009, 1010]
      = [20, 20, 1000, 1010] := by decide
  obtain ⟨-, -, -, hapart, -⟩ := fires_once_an_interval ht
    [20, 5, 20, 20, 1000, 1000, 1009, 1010] 0
  refine ⟨ht, hfired, hapart 0 20 1000 ?_ ?_, hapart 1 20 1010 ?_ ?_⟩ <;>
    rw [hfired] <;> rfl

/-! ## A host that keeps up -/

/-- **A host that comes back in time**: to a time that is not earlier, and less
than an interval later. -/
def InTime (interval : Duration) (prev now : Instant) : Prop :=
  prev ≤ now ∧ now < prev + interval

instance : DecidableRel (InTime interval) := fun _ _ =>
  inferInstanceAs (Decidable (_ ∧ _))

/-- **A ticker on its grid**, after `n` ticks and a last poll: the last poll
lies within the `n`-th interval, and the deadline at its end. -/
structure OnGrid (t₀ : Instant) (n : ℕ) (prev : Instant) (t : Ticker) : Prop where
  le_prev : t₀ + n * t.interval ≤ prev
  deadline_eq : t.deadline = t₀ + (n + 1) * t.interval
  prev_lt : prev < t.deadline

/-- A poll less than an interval after the last keeps the ticker on its
grid. -/
theorem OnGrid.poll (h : OnGrid t₀ n prev t) (hnow : InTime t.interval prev now) :
    OnGrid t₀ (n + [(t.poll now).1].count true) now (t.poll now).2 := by
  obtain ⟨hle, hlt⟩ := hnow
  by_cases hdue : t.deadline ≤ now
  · obtain ⟨hfst, -, -, -⟩ := deadline_poll hdue
    have hlate : now < t.deadline + t.interval := by linarith [h.prev_lt]
    have hnext := deadline_poll_of_lt hdue hlate
    rw [hfst]
    change OnGrid t₀ (n + 1) now (t.poll now).2
    refine ⟨?_, ?_, ?_⟩
    · rw [interval_poll]
      push_cast
      exact h.deadline_eq ▸ hdue
    · rw [hnext, h.deadline_eq, interval_poll]
      push_cast
      ring
    · rwa [hnext]
  · rw [poll_of_lt (not_le.mp hdue)]
    exact ⟨h.le_prev.trans hle, h.deadline_eq, not_le.mp hdue⟩

/-- **A host that keeps up keeps the ticker on its grid.** -/
theorem OnGrid.polls {times : List Instant} (h : OnGrid t₀ n prev t)
    (hchain : List.IsChain (InTime t.interval) (prev :: times)) :
    OnGrid t₀ (n + (t.polls times).1.count true) ((prev :: times).getLast
      (List.cons_ne_nil prev times)) (t.polls times).2 := by
  induction times generalizing t n prev with
  | nil => exact h
  | cons now times ih =>
    obtain ⟨hnow, hchain⟩ := List.isChain_cons_cons.mp hchain
    rw [← interval_poll t now] at hchain
    have hlater := ih (h.poll hnow) hchain
    rw [Nat.add_assoc, ← List.count_append] at hlater
    exact hlater

/-- **A host that keeps up loses no tick.** Let a ticker begin at `t₀` and let
every poll come less than an interval after the one before it. Then at each
poll the number of ticks so far is the number of whole intervals since `t₀`,
and the next is due when the next interval is over. -/
theorem fires_on_grid (ht : Begun interval t₀ t) (hinterval : 0 < interval)
    {times : List Instant}
    (hchain : List.IsChain (InTime interval) (t₀ :: times))
    {before after : List Instant} (htimes : times = before ++ now :: after) :
    let polled := t.polls (before ++ [now])
    (polled.1.count true : ℤ) = (now - t₀) / interval
      ∧ polled.2.deadline = t₀ + (polled.1.count true + 1) * interval := by
  intro polled
  obtain rfl := ht.eq_new
  have hpos : (0 : ℤ) < interval := by exact_mod_cast hinterval
  have hstart : OnGrid t₀ 0 t₀ (new interval t₀) := by
    refine ⟨?_, ?_, ?_⟩
    · simp
    · simp [new]
    · simpa [new] using hinterval
  have hprefix : List.IsChain (InTime interval) (t₀ :: (before ++ [now])) := by
    rw [htimes, show t₀ :: (before ++ now :: after)
      = t₀ :: (before ++ [now]) ++ after by simp] at hchain
    exact hchain.left_of_append
  have hgrid := hstart.polls hprefix
  have hlast : (t₀ :: (before ++ [now])).getLast (List.cons_ne_nil _ _) = now := by
    simp
  have hsame : polled.2.interval = interval := interval_polls _ _
  rw [hlast, Nat.zero_add] at hgrid
  obtain ⟨hle, hdeadline, hlt⟩ := hgrid
  rw [hdeadline] at hlt
  change t₀ + polled.1.count true * polled.2.interval ≤ now at hle
  change now < t₀ + (polled.1.count true + 1) * polled.2.interval at hlt
  change polled.2.deadline = t₀ + (polled.1.count true + 1) * polled.2.interval
    at hdeadline
  rw [hsame] at hle hdeadline hlt
  refine ⟨le_antisymm ?_ (Int.lt_add_one_iff.mp ?_), hdeadline⟩
  · exact Int.le_ediv_of_mul_le hpos (by linarith)
  · exact Int.ediv_lt_of_lt_mul hpos (by linarith)

/-- Polls at odd moments, some with a tick due and some without, one of them
exactly on the grid. -/
theorem fires_on_grid_of_tens :
    let polled := (new 10 (-5)).polls [1, 5, 5, 14, 23, 24]
    polled.1 = [false, true, false, false, true, false]
      ∧ (polled.1.count true : ℤ) = (24 - -5) / 10
      ∧ polled.2.deadline = -5 + (polled.1.count true + 1) * 10 := by
  intro polled
  have hdue : polled.1 = [false, true, false, false, true, false] := by decide
  have hchain : List.IsChain (InTime 10) [-5, 1, 5, 5, 14, 23, 24] := by decide
  have htimes : [1, 5, 5, 14, 23, 24] = [1, 5, 5, 14, 23] ++ (24 : Instant) :: [] := rfl
  exact ⟨hdue, fires_on_grid .new (by decide) hchain htimes⟩

end RegisterMachine.Ticker
