import Mathlib.Logic.Function.Iterate
import RegisterMachine.Proofs.Machine.Tick

/-!
# A run may be cut into pieces

A run up to a limit ends at its limit or at the first tick that does not go
on, which it counts. The ticks themselves know nothing of a limit: they are
the steps of the machine, one after the other (`Machine.stepped`). So a run is
a number of ticks that all go on (`Machine.GoesOn`), and then either the limit
or a tick that stops (`Machine.goesOn_or_stops`).

Ticks that go on can be put in front of any run (`GoesOn.run_add`), and behind
a tick that stops nothing is executed, whatever the limit
(`GoesOn.run_of_stops`). The laws of cutting a run, `Machine.run_in_pieces`,
are these two.
-/

namespace RegisterMachine

/-- An outcome with so many ticks in front of it. -/
def Outcome.after (ticks : ℕ) (o : Outcome) : Outcome :=
  { o with ticks := ticks + o.ticks }

@[simp] theorem Outcome.after_zero (o : Outcome) : o.after 0 = o := by
  unfold after
  rw [Nat.zero_add]

theorem Outcome.after_after (a b : ℕ) (o : Outcome) :
    (o.after b).after a = o.after (a + b) := by
  unfold after
  rw [Nat.add_assoc]

namespace Machine

variable {m m' m'' : Machine} {a b n : ℕ}

/-- **The machine after so many steps**, whatever comes of them. -/
def stepped (m : Machine) (n : ℕ) : Machine := (fun m => m.step.2)^[n] m

theorem stepped_succ (m : Machine) (n : ℕ) :
    m.stepped (n + 1) = m.step.2.stepped n := rfl

theorem stepped_add (m : Machine) (a b : ℕ) :
    m.stepped (a + b) = (m.stepped a).stepped b := by
  unfold stepped
  rw [Nat.add_comm, Function.iterate_add_apply]

/-! ## One tick of a run -/

/-- The ticks that have been made already are counted and no more. -/
theorem runFrom_eq (m : Machine) (ticks limit : ℕ) :
    runFrom ticks limit m = ((m.run limit).1.after ticks, (m.run limit).2) := by
  induction limit generalizing m ticks with
  | zero => rfl
  | succ limit ih =>
    unfold run runFrom
    dsimp only
    split
    · rw [ih m.step.2 (ticks + 1), ih m.step.2 (0 + 1)]
      exact congrArg (·, _) (Outcome.after_after ticks 1 _).symm
    · rfl

theorem run_succ_with_lastStatus (m : Machine) (lastStatus : Status) (n : ℕ) :
    { m with lastStatus }.run (n + 1) = m.run (n + 1) := by
  unfold run runFrom
  rw [step_with_lastStatus]

/-- A run goes on behind a tick that goes on. -/
theorem run_succ_of_continued (h : m.step.1 = .continued) (n : ℕ) :
    m.run (n + 1) = ((m.step.2.run n).1.after 1, (m.step.2.run n).2) := by
  rw [← runFrom_eq]
  unfold run
  rw [runFrom]
  dsimp only
  rw [h]
  rfl

/-- A run ends with a tick that does not, and counts it. -/
theorem run_succ_of_stops (h : m.step.1 ≠ .continued) (n : ℕ) :
    m.run (n + 1) = (⟨m.step.1, 1⟩, m.step.2) := by
  have hstops : m.step.1.isContinue = false := beq_false_of_ne h
  unfold run
  rw [runFrom]
  dsimp only
  rw [hstops]
  rfl

/-! ## Ticks that go on -/

/-- **So many ticks in a row go on**, and take the one machine to the
other. -/
inductive GoesOn : Machine → ℕ → Machine → Prop where
  | zero (m : Machine) : GoesOn m 0 m
  | succ {m m' : Machine} {n : ℕ} (hstatus : m.step.1 = .continued)
      (h : GoesOn m.step.2 n m') : GoesOn m (n + 1) m'

namespace GoesOn

theorem one (h : m.step.1 = .continued) : GoesOn m 1 m.step.2 :=
  .succ h (.zero _)

theorem congr (h : GoesOn m a m') (ha : a = b) (hm : m' = m'') :
    GoesOn m b m'' := ha ▸ hm ▸ h

theorem trans (h : GoesOn m a m') (h' : GoesOn m' b m'') :
    GoesOn m (a + b) m'' := by
  induction h with
  | zero m => rwa [Nat.zero_add]
  | succ hstatus _ ih =>
    rw [Nat.add_right_comm]
    exact .succ hstatus (ih h')

/-- **Ticks that go on may be put in front of a run.** -/
theorem run_add (h : GoesOn m a m') (b : ℕ) :
    m.run (a + b) = ((m'.run b).1.after a, (m'.run b).2) := by
  induction h with
  | zero m => rw [Nat.zero_add, Outcome.after_zero]
  | @succ m m' a hstatus _ ih =>
    rw [Nat.add_right_comm, run_succ_of_continued hstatus, ih,
      Outcome.after_after, Nat.add_comm 1 a]

/-- A limit at which every tick has gone on. -/
theorem run_eq (h : GoesOn m n m') : m.run n = (⟨.continued, n⟩, m') :=
  h.run_add 0

/-- **Behind a tick that stops nothing is executed.** -/
theorem run_of_stops (h : GoesOn m a m') (hstops : m'.step.1 ≠ .continued)
    (hn : a < n) : m.run n = (⟨m'.step.1, a + 1⟩, m'.step.2) := by
  obtain ⟨b, rfl⟩ := Nat.exists_eq_add_of_lt hn
  rw [Nat.add_assoc, h.run_add, run_succ_of_stops hstops]
  rfl

/-- The ticks of `GoesOn` are the steps of the machine. -/
theorem stepped_eq (h : GoesOn m n m') : m.stepped n = m' := by
  induction h with
  | zero m => rfl
  | succ _ _ ih => rwa [stepped_succ]

theorem step_stepped (h : GoesOn m n m') {k : ℕ} (hk : k < n) :
    (m.stepped k).step.1 = .continued := by
  induction h generalizing k with
  | zero m => exact absurd hk (Nat.not_lt_zero k)
  | succ hstatus _ ih =>
    cases k with
    | zero => exact hstatus
    | succ k => exact ih (Nat.lt_of_succ_lt_succ hk)

end GoesOn

/-- **All ticks up to a limit go on, or there is a first that stops.** -/
theorem goesOn_or_stops (m : Machine) (n : ℕ) :
    GoesOn m n (m.stepped n)
      ∨ ∃ k < n, GoesOn m k (m.stepped k)
          ∧ (m.stepped k).step.1 ≠ .continued := by
  induction n with
  | zero => exact .inl (.zero m)
  | succ n ih =>
    rcases ih with hgoes | ⟨k, hk, hgoes, hstops⟩
    · by_cases hstatus : (m.stepped n).step.1 = .continued
      · have hnext := hgoes.trans (.one hstatus)
        have hstepped := hnext.stepped_eq
        rw [← hstepped] at hnext
        exact .inl hnext
      · exact .inr ⟨n, Nat.lt_succ_self n, hgoes, hstatus⟩
    · exact .inr ⟨k, Nat.lt_succ_of_lt hk, hgoes, hstops⟩

/-- Steps that all go on are so many ticks in a row. -/
theorem goesOn_stepped (h : ∀ k < n, (m.stepped k).step.1 = .continued) :
    GoesOn m n (m.stepped n) :=
  (m.goesOn_or_stops n).resolve_right fun ⟨k, hk, _, hstops⟩ =>
    hstops (h k hk)

/-! ## Runs -/

/-- **A run may be cut anywhere.** If the first piece ends before its limit,
or at it with a tick that stops, the whole run is that piece; otherwise the
first piece has as many ticks as its limit says, and the whole run is the
second piece behind them. A run goes on to its limit exactly if all its ticks
go on; otherwise it has the outcome of the first that does not, and as many
ticks as that one's position. In both cases the machine is the one after that
many steps. -/
theorem run_in_pieces (m : Machine) (a b : ℕ) :
    ((m.run a).1.status ≠ .continued → m.run (a + b) = m.run a)
      ∧ ((m.run a).1.status = .continued →
          (m.run a).1.ticks = a
            ∧ m.run (a + b) = (⟨((m.run a).2.run b).1.status,
                a + ((m.run a).2.run b).1.ticks⟩, ((m.run a).2.run b).2))
      ∧ ((m.run a).1.status = .continued
          ↔ ∀ k < a, (m.stepped k).step.1 = .continued)
      ∧ ((m.run a).1.status ≠ .continued →
          ∃ k < a, (m.run a).1 = ⟨(m.stepped k).step.1, k + 1⟩
            ∧ ∀ j < k, (m.stepped j).step.1 = .continued)
      ∧ (m.run a).2 = m.stepped (m.run a).1.ticks := by
  rcases m.goesOn_or_stops a with hgoes | ⟨k, hk, hgoes, hstops⟩
  · have hall : ∀ k < a, (m.stepped k).step.1 = .continued := fun k hk =>
      hgoes.step_stepped hk
    rw [hgoes.run_eq]
    exact ⟨fun h => absurd rfl h, fun _ => ⟨rfl, hgoes.run_add b⟩,
      iff_of_true rfl hall, fun h => absurd rfl h, rfl⟩
  · have hnext : m.stepped (k + 1) = (m.stepped k).step.2 :=
      Function.iterate_succ_apply' _ k m
    rw [hgoes.run_of_stops hstops hk,
      hgoes.run_of_stops hstops (Nat.lt_add_right b hk)]
    exact ⟨fun _ => rfl, fun h => absurd h hstops,
      iff_of_false hstops fun hall => hstops (hall k hk),
      fun _ => ⟨k, hk, rfl, fun j hj => hgoes.step_stepped hj⟩, hnext.symm⟩

/-- A machine that puts one value into its accumulator and holds. -/
def holdingSeven : Machine :=
  (new .standard).load (.ofList [.ofInt .loadi 7, ⟨.hold, none⟩])

/-- **A run that holds exactly at its limit**, cut in front of the `hold` and
behind it. -/
theorem holdingSeven_in_pieces :
    (holdingSeven.run 1).1.status = .continued
      ∧ holdingSeven.run (1 + 1)
        = (⟨((holdingSeven.run 1).2.run 1).1.status,
            1 + ((holdingSeven.run 1).2.run 1).1.ticks⟩,
          ((holdingSeven.run 1).2.run 1).2)
      ∧ (holdingSeven.run 2).1 = ⟨.halted, 2⟩
      ∧ holdingSeven.run (2 + 3) = holdingSeven.run 2 := by
  have hgoes : (holdingSeven.run 1).1.status = .continued := by decide +kernel
  have hhalts : (holdingSeven.run 2).1 = ⟨.halted, 2⟩ := by decide +kernel
  have hstops : (holdingSeven.run 2).1.status ≠ .continued := by
    rw [hhalts]
    decide
  exact ⟨hgoes, ((run_in_pieces holdingSeven 1 1).2.1 hgoes).2, hhalts,
    (run_in_pieces holdingSeven 2 3).1 hstops⟩

end Machine

end RegisterMachine
