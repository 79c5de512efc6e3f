import RegisterMachine.Proofs.Binary64.Word
import RegisterMachine.Proofs.Machine.Pieces

/-!
# Instructions in a row

Instructions that neither jump nor hold are executed in the order in which
they stand. What they do to the registers can be worked out without a machine
(`Registers.executeAll?`), and a machine that comes upon them has done it after
as many ticks, all of which go on, and stands behind them
(`Machine.goesOn_block`).

An operand is a double and is used as a word. Words up to `2 ^ 53` are doubles
(`Instruction.integerOperand?_ofInt`), so a program that is written with such
operands has them as they stand.
-/

namespace RegisterMachine

/-- **Up to `2 ^ 53` an operand is used as it is written.** -/
theorem Instruction.integerOperand?_ofInt (op : Opcode) {x : Int64}
    (hx : x.toInt.natAbs ≤ 2 ^ 53) : (ofInt op x).integerOperand? = some x :=
  Binary64.toInt64?_ofInt_of_natAbs_le x hx

namespace Program

variable {p : Program} {c : ℕ} {i : Instruction} {is : List Instruction}

/-- **A program has instructions from an index on**, and maybe more behind
them. -/
def HasAt (p : Program) (c : ℕ) (is : List Instruction) : Prop :=
  is <+: p.toList.drop c

theorem HasAt.get?_eq (h : p.HasAt c (i :: is)) : p.get? c = some i := by
  obtain ⟨rest, hrest⟩ := h
  rw [get?_eq_toList, ← List.head?_drop, ← hrest]
  rfl

theorem HasAt.tail (h : p.HasAt c (i :: is)) : p.HasAt (c + 1) is := by
  obtain ⟨rest, hrest⟩ := h
  refine ⟨rest, ?_⟩
  rw [← List.tail_drop, ← hrest]
  rfl

end Program

/-- **Instructions in a row**: none of them jumps or holds, and their words are
used as they are written. -/
def IsRow (block : List (Opcode × Int64)) : Prop :=
  ∀ e ∈ block, e.1 ≠ .hold ∧ e.1.isJump = false ∧ e.2.toInt.natAbs ≤ 2 ^ 53

instance (block : List (Opcode × Int64)) : Decidable (IsRow block) :=
  inferInstanceAs (Decidable (∀ e ∈ block, _))

namespace Registers

/-- **Executes instructions in a row**, by their opcodes and words; nothing if
one of them cannot use its operand. -/
def executeAll? (r : Registers) : List (Opcode × Int64) → Option Registers
  | [] => some r
  | e :: block =>
    (r.execute? 0 e.1 e.2).bind fun after => after.1.executeAll? block

theorem executeAll?_cons {r r' : Registers} {op : Opcode} {x : Int64} {k : ℕ}
    (h : r.execute? 0 op x = some (r', k)) (block : List (Opcode × Int64)) :
    r.executeAll? ((op, x) :: block) = r'.executeAll? block := by
  rw [executeAll?, h]
  rfl

/-- **Without a jump the counter goes to the next index**, and takes no part
otherwise. -/
theorem execute?_of_not_isJump {op : Opcode} (hop : op.isJump = false)
    (r : Registers) (c : ℕ) (x : Int64) :
    r.execute? c op x = (r.execute? 0 op x).map fun after =>
      (after.1, c + 1) := by
  unfold execute?
  split
  · rfl
  · cases op <;> dsimp only
    case loadi | load | add | sub | mul | hold => rfl
    case store => rw [Option.map_map]; rfl
    case div => rw [Option.map_map]; rfl
    case loadind => split <;> rfl
    case storeind =>
      split
      · rfl
      · rw [Option.map_map]; rfl
    case jmp | jeq | jge | jle | jgt | jlt => cases hop

end Registers

namespace Machine

variable {m m' : Machine} {p : Program} {c d : ℕ} {r r' : Registers}

/-- **A machine about to execute the instruction at an index**, after so many
cycles; settings and run flag are those of the given machine. -/
def poised (m : Machine) (p : Program) (c : ℕ) (r : Registers) (cycles : ℕ) :
    Machine :=
  { m with
    registers := r
    program := p
    counter := c
    lastStatus := .continued
    cycles := .ofNat cycles }

/-- **One instruction** that can be executed. -/
theorem step_poised {i : Instruction} {x : Int64} (hi : p.get? c = some i)
    (hop : i.opcode ≠ .hold) (hx : i.integerOperand? = some x)
    (hexec : r.execute? c i.opcode x = some (r', d)) (cycles : ℕ) :
    (m.poised p c r cycles).step
      = (.continued, m.poised p d r' (cycles + 1)) := by
  rw [step_of_execute? (m := m.poised p c r cycles) hi hop hx hexec]
  unfold poised
  rw [UInt64.ofNat_add]
  rfl

theorem goesOn_instruction {i : Instruction} {x : Int64}
    (hi : p.get? c = some i) (hop : i.opcode ≠ .hold)
    (hx : i.integerOperand? = some x)
    (hexec : r.execute? c i.opcode x = some (r', d)) (cycles : ℕ) :
    GoesOn (m.poised p c r cycles) 1 (m.poised p d r' (cycles + 1)) := by
  have hstep := step_poised (m := m) hi hop hx hexec cycles
  have hgoes := GoesOn.one (congrArg Prod.fst hstep)
  rwa [hstep] at hgoes

/-- **Instructions in a row are executed in as many ticks**, and the machine
stands behind them. -/
theorem goesOn_block {block : List (Opcode × Int64)}
    (hp : p.HasAt c (block.map fun e => .ofInt e.1 e.2)) (hrow : IsRow block)
    (hr : r.executeAll? block = some r') (cycles : ℕ) :
    GoesOn (m.poised p c r cycles) block.length
      (m.poised p (c + block.length) r' (cycles + block.length)) := by
  induction block generalizing r c cycles with
  | nil =>
    cases hr
    exact .zero _
  | cons e block ih =>
    obtain ⟨⟨hhold, hjump, hword⟩, hrow⟩ := List.forall_mem_cons.mp hrow
    obtain ⟨after, hexec, hrest⟩ := Option.bind_eq_some_iff.mp hr
    have hnext : r.execute? c e.1 e.2 = some (after.1, c + 1) := by
      rw [Registers.execute?_of_not_isJump hjump, hexec, Option.map_some]
    have hfirst := goesOn_instruction (m := m) (i := .ofInt e.1 e.2) hp.get?_eq
      hhold (Instruction.integerOperand?_ofInt e.1 hword) hnext cycles
    have hwhole := hfirst.trans (ih hp.tail hrow hrest (cycles + 1))
    rw [Nat.add_assoc c, Nat.add_assoc cycles, Nat.add_comm 1] at hwhole
    exact hwhole

end Machine

end RegisterMachine
