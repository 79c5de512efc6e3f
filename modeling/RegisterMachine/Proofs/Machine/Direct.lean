import RegisterMachine.Proofs.Machine.Rules

/-!
# A program without indirection uses the registers it names

A program that never addresses a register through another one names every
register it can touch: they are the operands of its data and arithmetic
instructions (`Program.Names`), and the accumulator comes on top. So two
machines with that program that agree there, and on the counter, cannot be
told apart by running them (`Machine.LooksLike`): they take the same jumps,
fail at the same ticks and still agree afterwards. And what the program does
not name it leaves as it was.

Two register files are compared through `Registers.AgreeOn`. An instruction
without indirection keeps the agreement, or fails on both files
(`Registers.AgreeOn.execute?`); that is the only place where its opcodes are
gone through, and `Machine.run_uses_named_registers` is the same over a run.
-/

namespace RegisterMachine

/-- **The opcodes that use the register of their operand**, and no other but
the accumulator. -/
def Opcode.direct : List Opcode := [.load, .store, .add, .sub, .mul, .div]

namespace Program

variable {p : Program}

/-- **A program without indirection.** -/
def IsDirect (p : Program) : Prop :=
  ∀ i ∈ p.toList, i.opcode ≠ .loadind ∧ i.opcode ≠ .storeind

/-- **The registers that a program names**, by the integer operands of its
data and arithmetic instructions. -/
def Names (p : Program) (j : ℕ) : Prop :=
  ∃ i ∈ p.toList, i.opcode ∈ Opcode.direct
    ∧ i.integerOperand?.map Int64.toInt = some (j : ℤ)

instance (p : Program) : Decidable p.IsDirect :=
  inferInstanceAs (Decidable (∀ i ∈ p.toList, _))

instance (p : Program) (j : ℕ) : Decidable (p.Names j) :=
  inferInstanceAs (Decidable (∃ i ∈ p.toList, _))

/-- A register that an instruction uses is named by its program. -/
theorem names_of_operand {i : Instruction} {x : Int64} (hi : i ∈ p.toList)
    (hop : i.opcode ∈ Opcode.direct) (hx : i.integerOperand? = some x)
    (hone : ¬x < 1) : p.Names x.toNatClampNeg := by
  refine ⟨i, hi, hop, ?_⟩
  rw [hx, Option.map_some, Registers.natCast_toNatClampNeg
    (Registers.toInt_nonneg_of_not_lt_one hone)]

end Program

namespace Registers

variable {N : ℕ → Prop} {r s : Registers} {c d : ℕ} {op : Opcode} {x : Int64}

/-- **Two files of one size that agree on some registers.** -/
structure AgreeOn (N : ℕ → Prop) (r s : Registers) : Prop where
  size_eq : r.size = s.size
  read_eq : ∀ j, N j → r.read j = s.read j

theorem AgreeOn.setAcc (h : AgreeOn N r s) (v : Int64) :
    AgreeOn N (r.setAcc v) (s.setAcc v) where
  size_eq := by rw [size_setAcc, size_setAcc, h.size_eq]
  read_eq j hj := by
    rw [read_setAcc, read_setAcc, h.size_eq, h.read_eq j hj]

/-- A write is refused on both files or on neither. -/
theorem AgreeOn.write? (h : AgreeOn N r s) (i : ℕ) (v : Int64) :
    Option.Rel (AgreeOn N) (r.write? i v) (s.write? i v) := by
  cases hr : r.write? i v with
  | none =>
    rw [write?_eq_none_iff, h.size_eq, ← write?_eq_none_iff s i v] at hr
    rw [hr]
    exact .none
  | some r' =>
    cases hs : s.write? i v with
    | none =>
      rw [write?_eq_none_iff, ← h.size_eq, ← write?_eq_none_iff r i v] at hs
      rw [hs] at hr
      cases hr
    | some s' =>
      refine .some ⟨?_, fun j hj => ?_⟩
      · rw [size_of_write? hr, size_of_write? hs, h.size_eq]
      · rw [read_of_write? hr, read_of_write? hs, h.read_eq j hj]

/-- **An instruction without indirection does the same to files that agree on
what it uses**: it fails on both, or goes on to the same counter and leaves
them in agreement. -/
theorem AgreeOn.execute? (h : AgreeOn N r s) (hzero : N 0)
    (hdirect : op ≠ .loadind ∧ op ≠ .storeind)
    (hx : op ∈ Opcode.direct → ¬x < 1 → N x.toNatClampNeg) :
    Option.Rel (fun a b => AgreeOn N a.1 b.1 ∧ a.2 = b.2)
      (r.execute? c op x) (s.execute? c op x) := by
  have hacc : r.acc = s.acc := h.read_eq 0 hzero
  unfold Registers.execute?
  by_cases hguard : op ≠ .loadi ∧ x < 1
  · rw [if_pos hguard, if_pos hguard]
    exact .none
  · rw [if_neg hguard, if_neg hguard]
    -- the opcodes that use a register find the same value in it
    have hread : op ∈ Opcode.direct →
        r.read x.toNatClampNeg = s.read x.toNatClampNeg := by
      intro hop
      have hne : op ≠ .loadi := by
        rintro rfl
        exact absurd hop (by decide)
      exact h.read_eq _ (hx hop fun hlt => hguard ⟨hne, hlt⟩)
    cases op <;> dsimp only
    case loadind => exact absurd rfl hdirect.1
    case storeind => exact absurd rfl hdirect.2
    case hold => exact .none
    case loadi => exact .some ⟨h.setAcc x, rfl⟩
    case load =>
      rw [hread (by decide)]
      exact .some ⟨h.setAcc _, rfl⟩
    case add | sub | mul =>
      rw [hacc, hread (by decide)]
      exact .some ⟨h.setAcc _, rfl⟩
    case div =>
      rw [hacc, hread (by decide)]
      cases quotient? s.acc (s.read x.toNatClampNeg) with
      | none => exact .none
      | some q => exact .some ⟨h.setAcc q, rfl⟩
    case store =>
      rw [hacc]
      have hwrite := h.write? x.toNatClampNeg s.acc
      generalize r.write? x.toNatClampNeg s.acc = r',
        s.write? x.toNatClampNeg s.acc = s' at hwrite
      cases hwrite with
      | none => exact .none
      | some hagree => exact .some ⟨hagree, rfl⟩
    case jmp | jeq | jge | jle | jgt | jlt =>
      rw [hacc]
      exact .some ⟨h, rfl⟩

/-- **An instruction without indirection writes nothing else** than the
accumulator and the register of its operand. -/
theorem Executed.read_eq_of_direct (h : r.Executed c x op (s, d))
    (hdirect : op ≠ .loadind ∧ op ≠ .storeind) {j : ℕ} (hj : j ≠ 0)
    (hx : op ∈ Opcode.direct → ¬x < 1 → j ≠ x.toNatClampNeg) :
    s.read j = r.read j := by
  cases h with
  | loadi | load | add | sub | mul | div =>
    rw [read_setAcc, if_neg fun hzero => hj hzero.1]
  | store hone hw => rw [read_of_write? hw, if_neg (hx (by decide) hone)]
  | loadind => exact absurd rfl hdirect.1
  | storeind => exact absurd rfl hdirect.2
  | jump => rfl

end Registers

namespace Machine

variable {p : Program} {m m' : Machine}

/-- **Two machines that look alike to their program**: they stand at the same
instruction, have equally many registers, and agree on the accumulator and on
the registers that the program names. -/
structure LooksLike (p : Program) (m m' : Machine) : Prop where
  program_eq : m.program = p
  program_eq' : m'.program = p
  counter_eq : m.counter = m'.counter
  size_eq : m.registers.size = m'.registers.size
  acc_eq : m.acc = m'.acc
  read_eq : ∀ j, p.Names j → m.registers.read j = m'.registers.read j

namespace LooksLike

/-- The accumulator is one more register to agree on. -/
theorem agreeOn (h : LooksLike p m m') :
    Registers.AgreeOn (fun j => j = 0 ∨ p.Names j) m.registers
      m'.registers where
  size_eq := h.size_eq
  read_eq := by
    rintro j (rfl | hj)
    · exact h.acc_eq
    · exact h.read_eq j hj

theorem of_agreeOn (hp : m.program = p) (hp' : m'.program = p)
    (hc : m.counter = m'.counter)
    (h : Registers.AgreeOn (fun j => j = 0 ∨ p.Names j) m.registers
      m'.registers) : LooksLike p m m' :=
  ⟨hp, hp', hc, h.size_eq, h.read_eq 0 (.inl rfl),
    fun j hj => h.read_eq j (.inr hj)⟩

/-- **A tick of machines that look alike** has the same outcome on both, and
they look alike after it. -/
theorem advance (h : LooksLike p m m') (hp : p.IsDirect) :
    m.advance.1 = m'.advance.1 ∧ LooksLike p m.advance.2 m'.advance.2 := by
  have hcurrent : m'.current? = m.current? := by
    unfold current?
    rw [h.program_eq, h.program_eq', h.counter_eq]
  unfold Machine.advance
  rw [hcurrent]
  cases hi : m.current? with
  | none => exact ⟨rfl, h⟩
  | some i =>
    dsimp only
    split
    · exact ⟨rfl, h⟩
    · cases hx : i.integerOperand? with
      | none => exact ⟨rfl, h⟩
      | some x =>
        have hmem : i ∈ p.toList := by
          rw [← h.program_eq]
          exact Program.mem_toList_of_get? hi
        have hrel := h.agreeOn.execute? (c := m'.counter) (.inl rfl) (hp i hmem)
          fun hop hone => .inr (Program.names_of_operand hmem hop hx hone)
        rw [Option.bind_some, Option.bind_some, h.counter_eq]
        generalize m.registers.execute? m'.counter i.opcode x = after,
          m'.registers.execute? m'.counter i.opcode x = after' at hrel
        cases hrel with
        | none => exact ⟨rfl, h⟩
        | some hagree =>
          exact ⟨rfl, of_agreeOn h.program_eq h.program_eq' hagree.2 hagree.1⟩

theorem step (h : LooksLike p m m') (hp : p.IsDirect) :
    m.step.1 = m'.step.1 ∧ LooksLike p m.step.2 m'.step.2 := by
  obtain ⟨hstatus, hafter⟩ := h.advance hp
  exact ⟨hstatus, of_agreeOn hafter.program_eq hafter.program_eq'
    hafter.counter_eq hafter.agreeOn⟩

theorem runFrom (h : LooksLike p m m') (hp : p.IsDirect) (ticks limit : ℕ) :
    (runFrom ticks limit m).1 = (runFrom ticks limit m').1
      ∧ LooksLike p (runFrom ticks limit m).2 (runFrom ticks limit m').2 := by
  induction limit generalizing m m' ticks with
  | zero => exact ⟨rfl, h⟩
  | succ limit ih =>
    obtain ⟨hstatus, hafter⟩ := h.step hp
    unfold Machine.runFrom
    dsimp only
    rw [← hstatus]
    split
    · exact ih hafter (ticks + 1)
    · exact ⟨rfl, hafter⟩

end LooksLike

/-! ## What is left alone -/

section Frame

variable {j : ℕ} (hp : p.IsDirect) (hj : j ≠ 0) (hname : ¬p.Names j)
include hp hj hname

/-- **A tick leaves alone what the program does not name.** -/
theorem read_advance_of_not_names (hprogram : m.program = p) :
    m.advance.2.registers.read j = m.registers.read j := by
  have htick := m.isTick_advance
  generalize m.advance = tick at htick
  cases htick with
  | noInstruction | halted | invalidOperand => rfl
  | @continued i x _ _ hi _ hx hexec =>
    have hmem : i ∈ p.toList := by
      rw [← hprogram]
      exact Program.mem_toList_of_get? hi
    have hexecuted := Registers.executed_of_execute? hexec
    refine hexecuted.read_eq_of_direct (hp i hmem) hj fun hop hone hjx => ?_
    exact hname (hjx ▸ Program.names_of_operand hmem hop hx hone)

theorem read_runFrom_of_not_names (hprogram : m.program = p)
    (ticks limit : ℕ) :
    (runFrom ticks limit m).2.registers.read j = m.registers.read j := by
  induction limit generalizing m ticks with
  | zero => rfl
  | succ limit ih =>
    have hstep : m.step.2.registers.read j = m.registers.read j :=
      read_advance_of_not_names hp hj hname hprogram
    have hafter : m.step.2.program = p := m.program_advance.trans hprogram
    unfold runFrom
    dsimp only
    split
    · rw [ih hafter (ticks + 1), hstep]
    · exact hstep

end Frame

/-- **A program without indirection uses the registers it names.** Let two
machines look alike to it. Up to any limit their runs have the same outcome,
the machines look alike after it, and in each of them every register that the
program does not name keeps its value, the accumulator apart. -/
theorem run_uses_named_registers (hp : p.IsDirect) (h : LooksLike p m m')
    (limit : ℕ) :
    (m.run limit).1 = (m'.run limit).1
      ∧ LooksLike p (m.run limit).2 (m'.run limit).2
      ∧ ∀ j, j ≠ 0 → ¬p.Names j →
          (m.run limit).2.registers.read j = m.registers.read j
            ∧ (m'.run limit).2.registers.read j = m'.registers.read j := by
  obtain ⟨houtcome, hafter⟩ := h.runFrom hp 0 limit
  refine ⟨houtcome, hafter, fun j hj hname => ⟨?_, ?_⟩⟩
  · exact read_runFrom_of_not_names hp hj hname h.program_eq 0 limit
  · exact read_runFrom_of_not_names hp hj hname h.program_eq' 0 limit

/-- Counts down from three in register one, by what register two holds. -/
def countdown : Program :=
  .ofList [.ofInt .loadi 3, .ofInt .store 1, .ofInt .load 1, .ofInt .sub 2,
    .ofInt .store 1, .ofInt .jgt 2, ⟨.hold, none⟩]

/-- A machine that is to count down, with a register to spare. -/
def counting (spare : Int64) : Machine :=
  { (new ⟨100, 4, 0⟩).load countdown with registers := ⟨#[0, 0, 1, spare]⟩ }

/-- Whatever the spare register holds. -/
theorem counting_looksLike (a b : Int64) :
    LooksLike countdown (counting a) (counting b) := by
  refine ⟨rfl, rfl, rfl, rfl, rfl, fun j hj => ?_⟩
  have hspare : ¬countdown.Names 3 := by decide +kernel
  match j with
  | 0 | 1 | 2 => rfl
  | 3 => exact absurd hj hspare
  | j + 4 => rfl

/-- **A countdown does not see the spare register**, and leaves it alone. -/
theorem countdown_ignores_spare :
    countdown.IsDirect ∧ LooksLike countdown (counting 7) (counting (-7))
      ∧ ((counting 7).run 50).1 = ⟨.halted, 15⟩
      ∧ ((counting 7).run 50).1 = ((counting (-7)).run 50).1
      ∧ ((counting (-7)).run 50).2.registers.read 3 = -7 := by
  have hp : countdown.IsDirect := by decide
  have h := counting_looksLike 7 (-7)
  have houtcome : ((counting 7).run 50).1 = ⟨.halted, 15⟩ := by decide +kernel
  have hname : ¬countdown.Names 3 := by decide +kernel
  have hrun := run_uses_named_registers hp h 50
  exact ⟨hp, h, houtcome, hrun.1, (hrun.2.2 3 (by decide) hname).2⟩

end Machine

end RegisterMachine
