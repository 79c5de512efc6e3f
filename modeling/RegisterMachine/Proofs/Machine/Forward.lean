import RegisterMachine.Proofs.Machine.Counter
import RegisterMachine.Proofs.Machine.Pieces

/-!
# Only a jump back keeps a machine running

An instruction that is executed takes the counter to the next index or to the
target of a jump. As long as no jump goes back, the counter grows with every
tick, and as it has to stand at an instruction for the machine to go on, there
are no more such ticks than instructions. `Machine.exists_jumpsBack` says so
of any stretch of ticks that is longer than the program: one of them jumps to
its own index or to an earlier one (`Machine.JumpsBack`).

So a program whose jumps all go forward comes to an end from every state, and
a machine that runs forever jumps back over and over
(`Machine.runs_on_by_jumping_back`).
-/

namespace RegisterMachine

/-- **The jumps of a program all go forward**: those that have a target, an
integer of at least one, name an index behind their own. -/
def Program.JumpsForward (p : Program) : Prop :=
  ∀ k i, p.get? k = some i → i.opcode.isJump = true →
    ∀ t : ℤ, i.HasOperand t → 1 ≤ t → k < t

/-- It is enough to look at the indices of the program, and at the words that
its operands are. -/
theorem Program.jumpsForward_iff (p : Program) :
    p.JumpsForward ↔ ∀ k < p.size, ∀ i ∈ p.get? k, i.opcode.isJump = true →
      ∀ x ∈ i.integerOperand?, 1 ≤ x.toInt → k < x.toInt := by
  constructor
  · intro h k _ i hi hjump x hx
    exact h k i hi hjump x.toInt ((i.integerOperand?_eq_some_iff x).mp hx)
  · intro h k i hi hjump t ht
    obtain ⟨x, rfl, hx⟩ := ht.exists_word
    have hk : k < p.size := by
      rw [← not_le, ← get?_eq_none_iff, hi]
      exact Option.some_ne_none i
    exact h k hk i hi hjump x hx

instance (p : Program) : Decidable p.JumpsForward :=
  -- the words are finitely many, but only the one of the operand is looked at
  haveI (k : ℕ) (i : Instruction) :
      Decidable (∀ x ∈ i.integerOperand?, 1 ≤ x.toInt → k < x.toInt) :=
    Option.decidableForallMem _
  decidable_of_iff' _ p.jumpsForward_iff

namespace Machine

variable {m m' : Machine} {n : ℕ}

/-- **The counter addresses a jump back**: one that is taken, to its own index
or to an earlier one. -/
def JumpsBack (m : Machine) : Prop :=
  ∃ i t, m.program.get? m.counter = some i ∧ i.opcode.isJump = true
    ∧ i.opcode.Takes (m.registers.valueAt 0)
    ∧ i.HasOperand t ∧ 1 ≤ t ∧ t ≤ m.counter

theorem not_jumpsBack (h : m.program.JumpsForward) : ¬m.JumpsBack := by
  rintro ⟨i, t, hi, hjump, -, ht, hone, hback⟩
  exact absurd (h m.counter i hi hjump t ht hone) (not_lt.mpr hback)

/-! ## The counter grows -/

/-- A machine that goes on stands at an instruction. -/
theorem counter_lt_size (h : m.step.1 = .continued) :
    m.counter < m.program.size := by
  rw [← not_le, ← Program.get?_eq_none_iff]
  intro hnone
  have hadvance : m.advance = (.noInstruction, m) := by
    unfold advance current?
    rw [hnone]
  rw [fst_step, hadvance] at h
  cases h

/-- **A tick that goes on takes the counter further**, unless it jumps
back. -/
theorem counter_lt_step (h : m.step.1 = .continued) (hback : ¬m.JumpsBack) :
    m.counter < m.step.2.counter := by
  show m.counter < m.advance.2.counter
  rw [fst_step] at h
  have htick := m.isTick_advance
  generalize m.advance = tick at htick h
  cases htick with
  | noInstruction | halted | invalidOperand => cases h
  | @continued i x _ d hi _ hx hexec =>
    have hexecuted := Registers.executed_of_execute? hexec
    show m.counter < d
    by_contra hle
    rcases hexecuted.next_or_target with hnext | ⟨hjump, hone, htarget⟩
    · omega
    · -- the jump is taken, for otherwise the next instruction would follow
      have htakes : i.opcode.Takes m.registers.acc.toInt := by
        by_contra hnot
        have hnext := hexecuted.counter_eq.2 hnot
        omega
      exact hback ⟨i, x.toInt, hi, hjump, htakes,
        (i.integerOperand?_eq_some_iff x).mp hx, hone, by omega⟩

namespace GoesOn

theorem program_eq (h : GoesOn m n m') : m'.program = m.program := by
  induction h with
  | zero => rfl
  | @succ m _ _ _ _ ih => exact ih.trans m.program_advance

/-- **Without a jump back the counter grows by one a tick** at least. -/
theorem add_le_counter (h : GoesOn m n m')
    (hback : ∀ k < n, ¬(m.stepped k).JumpsBack) :
    m.counter + n ≤ m'.counter := by
  induction h with
  | zero => exact le_rfl
  | @succ m m' n hstatus _ ih =>
    have hfirst : m.counter < m.step.2.counter :=
      counter_lt_step hstatus (hback 0 (Nat.succ_pos n))
    have hrest := ih fun k hk => hback (k + 1) (Nat.succ_lt_succ hk)
    omega

end GoesOn

/-- **Among more ticks than there are instructions one jumps back**, if they
all go on. -/
theorem exists_jumpsBack
    (h : ∀ k ≤ m.program.size, (m.stepped k).step.1 = .continued) :
    ∃ k ≤ m.program.size, (m.stepped k).JumpsBack := by
  by_contra hnone
  push Not at hnone
  have hgoes := goesOn_stepped fun k hk => h k (Nat.le_of_lt hk)
  -- the counter is past the end by then, and the next tick cannot go on
  have hcounter := hgoes.add_le_counter fun k hk => hnone k (Nat.le_of_lt hk)
  have hsize := counter_lt_size (h m.program.size le_rfl)
  rw [hgoes.program_eq] at hsize
  omega

/-! ## Runs -/

/-- **A program runs on by jumping back, or not at all.** If all jumps of a
program go forward, every run of it comes to an end by itself, with one tick
more than it has instructions at most; and if a machine runs on whatever the
limit, it jumps to its own index or to an earlier one again and again: among
any ticks in a row, one more than there are instructions, there is such a
jump. -/
theorem runs_on_by_jumping_back (m : Machine) :
    (m.program.JumpsForward → ∀ limit, m.program.size + 1 ≤ limit →
        (m.run limit).1.status ≠ .continued
          ∧ (m.run limit).1.ticks ≤ m.program.size + 1)
      ∧ ((∀ limit, (m.run limit).1.status = .continued) →
          ∀ n, ∃ k, n ≤ k ∧ k ≤ n + m.program.size
            ∧ (m.stepped k).JumpsBack) := by
  constructor
  · intro hforward limit hlimit
    rcases m.goesOn_or_stops (m.program.size + 1) with
      hgoes | ⟨k, hk, hgoes, hstops⟩
    · obtain ⟨k, hk, hback⟩ := exists_jumpsBack fun k hk =>
        hgoes.step_stepped (Nat.lt_succ_of_le hk)
      have hprogram : (m.stepped k).program = m.program :=
        (goesOn_stepped fun j hj => hgoes.step_stepped (by omega)).program_eq
      rw [← hprogram] at hforward
      exact absurd hback (not_jumpsBack hforward)
    · rw [hgoes.run_of_stops hstops (Nat.lt_of_lt_of_le hk hlimit)]
      exact ⟨hstops, hk⟩
  · intro hforever n
    have hall : ∀ k, (m.stepped k).step.1 = .continued := by
      intro k
      rcases m.goesOn_or_stops (k + 1) with hgoes | ⟨j, hj, hgoes, hstops⟩
      · exact hgoes.step_stepped (Nat.lt_succ_self k)
      · have hstatus := hforever (k + 1)
        rw [hgoes.run_of_stops hstops hj] at hstatus
        exact absurd hstatus hstops
    have hprogram : (m.stepped n).program = m.program :=
      (goesOn_stepped fun k _ => hall k).program_eq
    obtain ⟨k, hk, hback⟩ := exists_jumpsBack (m := m.stepped n) fun k _ => by
      rw [← stepped_add]
      exact hall (n + k)
    rw [← stepped_add] at hback
    rw [hprogram] at hk
    exact ⟨n + k, Nat.le_add_right n k, Nat.add_le_add_left hk n, hback⟩

/-- A machine about to jump over an instruction, and then past its end. -/
def leaping : Machine :=
  (new .standard).load
    (.ofList [.ofInt .jeq 2, .ofInt .loadi 3, .ofInt .jmp 100])

/-- A machine that jumps to where it is, after so many cycles. -/
def spinning (cycles : UInt64) : Machine :=
  { (new .standard).load (.ofList [⟨.hold, none⟩, .ofInt .jmp 1]) with
    counter := 1, lastStatus := .continued, cycles }

theorem step_spinning (cycles : UInt64) :
    (spinning cycles).step = (.continued, spinning (cycles + 1)) :=
  step_of_execute? (i := .ofInt .jmp 1) (x := 1) rfl (by decide)
    (by decide +kernel) rfl

theorem goesOn_spinning (n : ℕ) (cycles : UInt64) :
    ∃ m', GoesOn (spinning cycles) n m' := by
  induction n generalizing cycles with
  | zero => exact ⟨_, .zero _⟩
  | succ n ih =>
    obtain ⟨m', hgoes⟩ := ih (cycles + 1)
    have hstep := step_spinning cycles
    refine ⟨m', .succ (congrArg Prod.fst hstep) ?_⟩
    rwa [hstep]

/-- **One machine that comes to an end and one that does not.** -/
theorem leaping_ends_spinning_jumps_back :
    leaping.program.JumpsForward
      ∧ (leaping.run 5).1.status ≠ .continued ∧ (leaping.run 5).1.ticks ≤ 4
      ∧ (∀ limit, ((spinning 0).run limit).1.status = .continued)
      ∧ ∃ k, 7 ≤ k ∧ k ≤ 7 + 2 ∧ ((spinning 0).stepped k).JumpsBack := by
  have hforward : leaping.program.JumpsForward := by decide +kernel
  have hforever : ∀ limit, ((spinning 0).run limit).1.status = .continued := by
    intro limit
    obtain ⟨m', hgoes⟩ := goesOn_spinning limit 0
    rw [hgoes.run_eq]
  obtain ⟨hstatus, hticks⟩ :=
    (runs_on_by_jumping_back leaping).1 hforward 5 (by decide)
  exact ⟨hforward, hstatus, hticks, hforever,
    (runs_on_by_jumping_back (spinning 0)).2 hforever 7⟩

end Machine

end RegisterMachine
