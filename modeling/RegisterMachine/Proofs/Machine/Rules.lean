import RegisterMachine.Proofs.Binary64.Value
import RegisterMachine.Proofs.Machine.Tick

/-!
# The rules of a tick

The machine computes with words of sixty-four bits, cuts an index out of a
word, and finds out on the way whether an operand can be used. The rules say
the same over the integers and all at once: which number an operand is
(`Instruction.HasOperand`), what an opcode refuses (`Opcode.Refuses`), which
jump is taken (`Opcode.Takes`), and which register is written with what
(`Opcode.written`). `Machine.advance_obeys_rules` is the agreement of the two:
the rules decide the outcome of a tick in every state with an accumulator, and
say what the machine looks like after it.

A register is read at an integer here, and only ever at one that is not
negative; past the end it reads as zero.
-/

namespace RegisterMachine

/-- **The value of a register** as an integer. -/
def Registers.valueAt (r : Registers) (i : ℤ) : ℤ := (r.read i.toNat).toInt

/-- **The integer that an operand is**: its exact value, if that is a whole
number in the range of a word. -/
def Instruction.HasOperand (i : Instruction) (x : ℤ) : Prop :=
  ∃ b, i.operand = some b ∧ b.isFinite = true ∧ b.toRat = x
    ∧ -2 ^ 63 ≤ x ∧ x < 2 ^ 63

namespace Opcode

/-- **The jumps that are taken**, by the value of the accumulator. -/
def Takes (op : Opcode) (acc : ℤ) : Prop :=
  op = .jmp ∨ (op = .jeq ∧ acc = 0) ∨ (op = .jge ∧ 0 ≤ acc)
    ∨ (op = .jle ∧ acc ≤ 0) ∨ (op = .jgt ∧ 0 < acc) ∨ (op = .jlt ∧ acc < 0)

/-- **The operands that an opcode refuses.** All but a literal are at least
one; a register that is written has to be there; a register that points
elsewhere must not be negative; and a quotient has to exist as a word. -/
def Refuses (op : Opcode) (x : ℤ) (r : Registers) : Prop :=
  (op ≠ .loadi ∧ x < 1)
    ∨ (op = .store ∧ r.size ≤ x)
    ∨ (op = .loadind ∧ r.valueAt x < 0)
    ∨ (op = .storeind ∧ (r.valueAt x < 0 ∨ r.size ≤ r.valueAt x))
    ∨ (op = .div ∧ (r.valueAt x = 0
        ∨ (r.valueAt 0 = -2 ^ 63 ∧ r.valueAt x = -1)))

/-- **The register that is written, and what with.** Sums, differences and
products wrap around to the word congruent to them; a quotient is cut off
toward zero. -/
def written (op : Opcode) (x : ℤ) (r : Registers) : Option (ℤ × ℤ) :=
  match op with
  | .loadi => some (0, x)
  | .load => some (0, r.valueAt x)
  | .loadind => some (0, r.valueAt (r.valueAt x))
  | .store => some (x, r.valueAt 0)
  | .storeind => some (r.valueAt x, r.valueAt 0)
  | .add => some (0, (r.valueAt 0 + r.valueAt x).bmod (2 ^ 64))
  | .sub => some (0, (r.valueAt 0 - r.valueAt x).bmod (2 ^ 64))
  | .mul => some (0, (r.valueAt 0 * r.valueAt x).bmod (2 ^ 64))
  | .div => some (0, (r.valueAt 0).tdiv (r.valueAt x))
  | .jmp | .jeq | .jge | .jle | .jgt | .jlt | .hold => none

end Opcode

/-- The value of a register after one write, or none. -/
def Registers.valueAfter (r : Registers) (write : Option (ℤ × ℤ)) (j : ℤ) :
    ℤ :=
  match write with
  | some (i, v) => if j = i then v else r.valueAt j
  | none => r.valueAt j

/-! ## Words and integers -/

namespace Registers

variable {r s : Registers}

@[simp] theorem valueAt_natCast (r : Registers) (i : ℕ) :
    r.valueAt i = (r.read i).toInt := rfl

@[simp] theorem valueAt_toInt (r : Registers) (x : Int64) :
    r.valueAt x.toInt = (r.read x.toNatClampNeg).toInt := rfl

@[simp] theorem valueAt_zero (r : Registers) : r.valueAt 0 = r.acc.toInt := rfl

/-- A write over words is a write over integers. -/
theorem Wrote.valueAt_eq {i : ℕ} {v : Int64} (h : r.Wrote i v s) (j : ℕ) :
    s.valueAt j = r.valueAfter (some (↑i, v.toInt)) j := by
  rw [valueAt_natCast, h.read_eq, valueAfter, valueAt_natCast]
  split
  · next hj => rw [if_pos (by exact_mod_cast hj)]
  · next hj => rw [if_neg (by exact_mod_cast hj)]

end Registers

/-- **A quotient is refused exactly if it does not exist as a word.** -/
theorem quotient?_eq_none_iff (a b : Int64) :
    quotient? a b = none
      ↔ b.toInt = 0 ∨ (a.toInt = -2 ^ 63 ∧ b.toInt = -1) := by
  have hzero : b = 0 ↔ b.toInt = 0 := Int64.toInt_inj.symm
  have hmin : a = Int64.minValue ↔ a.toInt = -2 ^ 63 := Int64.toInt_inj.symm
  have hone : b = -1 ↔ b.toInt = -1 := Int64.toInt_inj.symm
  rw [quotient?, ← hzero, ← hmin, ← hone]
  split
  · next h => exact iff_of_true rfl h
  · next h => exact iff_of_false (Option.some_ne_none _) h

/-- A quotient that exists is the integer one. -/
theorem toInt_of_quotient? {a b q : Int64} (h : quotient? a b = some q) :
    q.toInt = a.toInt.tdiv b.toInt := by
  unfold quotient? at h
  split at h
  · cases h
  · next hq =>
    cases h
    push Not at hq
    by_cases ha : a = Int64.minValue
    · exact Int64.toInt_div_of_ne_right a b (hq.2 ha)
    · exact Int64.toInt_div_of_ne_left a b ha

/-- **An operand is read as a word exactly if it is that integer.** -/
theorem Instruction.integerOperand?_eq_some_iff (i : Instruction)
    (x : Int64) : i.integerOperand? = some x ↔ i.HasOperand x.toInt := by
  rw [integerOperand?, Option.bind_eq_some_iff]
  refine exists_congr fun b => and_congr_right fun _ => ?_
  rw [Binary64.toInt64?_eq_some_iff]
  have hlo := x.minValue_le_toInt
  have hhi := x.toInt_lt
  exact ⟨fun h => ⟨h.1, h.2, hlo, hhi⟩, fun h => ⟨h.1, h.2.1⟩⟩

/-- An operand is an integer in one way only, and that integer a word. -/
theorem Instruction.HasOperand.exists_word {i : Instruction} {x : ℤ}
    (h : i.HasOperand x) :
    ∃ w : Int64, w.toInt = x ∧ i.integerOperand? = some w := by
  obtain ⟨b, -, -, -, hlo, hhi⟩ := id h
  have hw : (Int64.ofInt x).toInt = x := Int64.toInt_ofInt_of_le hlo hhi
  exact ⟨Int64.ofInt x, hw,
    (i.integerOperand?_eq_some_iff _).mpr (by rwa [hw])⟩

/-! ## One instruction -/

namespace Registers

variable {r s : Registers} {c d : ℕ} {op : Opcode} {x : Int64}

/-- The index cut out of a word that is not negative is the word. -/
theorem natCast_toNatClampNeg {y : Int64} (h : 0 ≤ y.toInt) :
    (y.toNatClampNeg : ℤ) = y.toInt :=
  Int.toNat_of_nonneg h

theorem toInt_nonneg_of_not_lt_one (hx : ¬x < 1) : 0 ≤ x.toInt := by
  rw [Int64.lt_iff_toInt_lt] at hx
  exact le_trans (by decide) (not_lt.mp hx)

/-- **An instruction refuses what the rules say.** -/
theorem execute?_eq_none_iff (hop : op ≠ .hold) :
    r.execute? c op x = none ↔ op.Refuses x.toInt r := by
  have hneg : ∀ y : Int64, y < 0 ↔ y.toInt < 0 := fun _ =>
    Int64.lt_iff_toInt_lt
  have hone : x < 1 ↔ x.toInt < 1 := Int64.lt_iff_toInt_lt
  -- a write is refused past the end, counted in integers
  have hwrite : ∀ (y : Int64) (n : ℕ), 0 ≤ y.toInt →
      ((r.write? y.toNatClampNeg r.acc).map (·, n) = none
        ↔ (r.size : ℤ) ≤ y.toInt) := by
    intro y n hy
    rw [Option.map_eq_none_iff, write?_eq_none_iff,
      ← natCast_toNatClampNeg hy, Int.ofNat_le]
  unfold execute? Opcode.Refuses
  by_cases hx : op ≠ .loadi ∧ x < 1
  · rw [if_pos hx]
    exact iff_of_true rfl (.inl ⟨hx.1, hone.mp hx.2⟩)
  · have hx' : op ≠ .loadi → 0 ≤ x.toInt := fun hne =>
      toInt_nonneg_of_not_lt_one fun hlt => hx ⟨hne, hlt⟩
    rw [if_neg hx, or_iff_right (by rwa [← hone])]
    cases op
    case hold => exact absurd rfl hop
    case store => simpa using hwrite x (c + 1) (hx' (by decide))
    case loadind => simp [hneg]
    case storeind =>
      by_cases hp : r.read x.toNatClampNeg < 0
      · simp [hp, (hneg _).mp hp]
      · have hp0 : 0 ≤ (r.read x.toNatClampNeg).toInt := by
          rw [hneg] at hp
          omega
        simpa [hp, hp0.not_gt] using hwrite _ (c + 1) hp0
    case div => simp [quotient?_eq_none_iff]
    all_goals simp

/-- **A jump is taken if the rules say so.** -/
theorem jumps_iff_takes (op : Opcode) (a : Int64) :
    op.jumps a = true ↔ op.Takes a.toInt := by
  have hzero : a = 0 ↔ a.toInt = 0 := Int64.toInt_inj.symm
  have hge : 0 ≤ a ↔ 0 ≤ a.toInt := Int64.le_iff_toInt_le
  have hle : a ≤ 0 ↔ a.toInt ≤ 0 := Int64.le_iff_toInt_le
  have hgt : 0 < a ↔ 0 < a.toInt := Int64.lt_iff_toInt_lt
  have hlt : a < 0 ↔ a.toInt < 0 := Int64.lt_iff_toInt_lt
  cases op <;> simp [Opcode.jumps, Opcode.Takes, hzero, hge, hle, hgt, hlt]

/-- **An instruction writes what the rules say.** -/
theorem Executed.valueAt_eq (hr : 0 < r.size)
    (h : r.Executed c x op (s, d)) (j : ℕ) :
    s.valueAt j = r.valueAfter (op.written x.toInt r) j := by
  cases h with
  | loadi | load | loadind =>
    exact (wrote_setAcc hr _).valueAt_eq j
  | store hx hw =>
    rw [(wrote_of_write? hw).valueAt_eq j,
      natCast_toNatClampNeg (toInt_nonneg_of_not_lt_one hx)]
    rfl
  | storeind hx hp hw =>
    have hp0 : 0 ≤ (r.read x.toNatClampNeg).toInt := by
      rw [Int64.lt_iff_toInt_lt] at hp
      exact not_lt.mp hp
    rw [(wrote_of_write? hw).valueAt_eq j, natCast_toNatClampNeg hp0]
    rfl
  | add =>
    rw [(wrote_setAcc hr _).valueAt_eq j, Int64.toInt_add]
    rfl
  | sub =>
    rw [(wrote_setAcc hr _).valueAt_eq j, Int64.toInt_sub]
    rfl
  | mul =>
    rw [(wrote_setAcc hr _).valueAt_eq j, Int64.toInt_mul]
    rfl
  | div _ hq =>
    rw [(wrote_setAcc hr _).valueAt_eq j, toInt_of_quotient? hq]
    rfl
  | jump hx hop =>
    cases op <;> first | rfl | cases hop

/-- **The counter moves as the rules say.** -/
theorem Executed.counter_eq (h : r.Executed c x op (s, d)) :
    (op.Takes r.acc.toInt → (d : ℤ) = x.toInt)
      ∧ (¬op.Takes r.acc.toInt → d = c + 1) := by
  rw [← jumps_iff_takes]
  cases h with
  | jump hx hop =>
    refine ⟨fun ht => ?_, fun ht => ?_⟩
    · rw [if_pos ht, natCast_toNatClampNeg (toInt_nonneg_of_not_lt_one hx)]
    · rw [if_neg ht]
  | _ => exact ⟨fun ht => (by cases ht), fun _ => rfl⟩

end Registers

/-! ## One tick -/

namespace Machine

/-- **The counter addresses a `hold`**, with an operand or without. -/
def AtHold (m : Machine) : Prop :=
  ∃ i, m.program.get? m.counter = some i ∧ i.opcode = .hold

/-- **The counter addresses an instruction that cannot be executed**: its
operand is missing or no integer of the range, or its opcode refuses it. -/
def AtFault (m : Machine) : Prop :=
  ∃ i, m.program.get? m.counter = some i ∧ i.opcode ≠ .hold
    ∧ ((∀ x, ¬i.HasOperand x)
      ∨ ∃ x, i.HasOperand x ∧ i.opcode.Refuses x m.registers)

/-- **The machine after an instruction.** -/
structure After (m : Machine) (op : Opcode) (x : ℤ) (m' : Machine) :
    Prop where
  /-- One more cycle. -/
  cycles_eq : m'.cycles = m.cycles + 1
  /-- A jump that is taken goes where it says. -/
  counter_of_takes : op.Takes (m.registers.valueAt 0) → (m'.counter : ℤ) = x
  /-- Everything else goes on with the next instruction. -/
  counter_of_not_takes : ¬op.Takes (m.registers.valueAt 0) →
    m'.counter = m.counter + 1
  /-- There are as many registers as before. -/
  size_eq : m'.registers.size = m.registers.size
  /-- At most one register is written. -/
  valueAt_eq : ∀ j : ℕ, m'.registers.valueAt j
    = m.registers.valueAfter (op.written x m.registers) j
  /-- The rest is as it was. -/
  rest_eq : m' = { m with
    registers := m'.registers, counter := m'.counter, cycles := m'.cycles }

/-- **The operand cannot be executed exactly if it is a fault.** -/
theorem atFault_iff {m : Machine} {i : Instruction}
    (hi : m.current? = some i) (hop : i.opcode ≠ .hold) :
    m.AtFault ↔ ∀ x, i.integerOperand? = some x →
      m.registers.execute? m.counter i.opcode x = none := by
  constructor
  · rintro ⟨j, hj, -, hfault⟩ x hx
    obtain rfl : i = j := Option.some.inj (hi.symm.trans hj)
    rw [Registers.execute?_eq_none_iff hop]
    rcases hfault with hnone | ⟨y, hy, hrefuses⟩
    · exact absurd ((i.integerOperand?_eq_some_iff x).mp hx) (hnone _)
    · obtain ⟨w, rfl, hw⟩ := hy.exists_word
      obtain rfl : x = w := Option.some.inj (hx.symm.trans hw)
      exact hrefuses
  · intro h
    refine ⟨i, hi, hop, ?_⟩
    by_cases hnone : ∀ x, ¬i.HasOperand x
    · exact .inl hnone
    · push Not at hnone
      obtain ⟨x, hx⟩ := hnone
      obtain ⟨w, rfl, hw⟩ := hx.exists_word
      exact .inr ⟨w.toInt, hx,
        (Registers.execute?_eq_none_iff hop).mp (h w hw)⟩

/-- A tick that goes on leaves the machine that the rules give. -/
theorem after_of_execute? {m : Machine} {op : Opcode} {x : Int64}
    {registers : Registers} {counter : ℕ} (hr : 0 < m.registers.size)
    (h : m.registers.execute? m.counter op x = some (registers, counter)) :
    m.After op x.toInt
      { m with registers, counter, cycles := m.cycles + 1 } := by
  have hexec := Registers.executed_of_execute? h
  exact
    { cycles_eq := rfl
      counter_of_takes := hexec.counter_eq.1
      counter_of_not_takes := hexec.counter_eq.2
      size_eq := hexec.size_eq
      valueAt_eq := hexec.valueAt_eq hr
      rest_eq := rfl }

/-- **A tick obeys the rules**, in every state with an accumulator. The
outcome is decided by where the counter stands and what stands there; nothing
changes unless the machine goes on; and if it does, the machine is the one
after the instruction. -/
theorem advance_obeys_rules (m : Machine) (hr : 0 < m.registers.size) :
    (m.advance.1 = .noInstruction ↔ m.program.size ≤ m.counter)
      ∧ (m.advance.1 = .halted ↔ m.AtHold)
      ∧ (m.advance.1 = .invalidOperand ↔ m.AtFault)
      ∧ (m.advance.1 = .continued
          ↔ m.counter < m.program.size ∧ ¬m.AtHold ∧ ¬m.AtFault)
      ∧ (m.advance.1 ≠ .continued → m.advance.2 = m)
      ∧ (m.advance.1 = .continued →
          ∃ i x, m.program.get? m.counter = some i ∧ i.HasOperand x
            ∧ m.After i.opcode x m.advance.2) := by
  have htick := m.isTick_advance
  have hend : m.program.size ≤ m.counter ↔ m.current? = none :=
    (m.program.get?_eq_none_iff m.counter).symm
  have hhold : m.AtHold ↔ ∃ i, m.current? = some i ∧ i.opcode = .hold := .rfl
  rw [← not_le, hend, hhold]
  generalize m.advance = tick at htick
  cases htick with
  | noInstruction hnone =>
    have hfault : ¬m.AtFault := by
      rintro ⟨i, hi, -⟩
      exact absurd (hnone.symm.trans hi) (Option.some_ne_none i).symm
    simp [hnone, hfault]
  | halted hi hop =>
    have hfault : ¬m.AtFault := by
      rintro ⟨j, hj, hne, -⟩
      obtain rfl := Option.some.inj (hi.symm.trans hj)
      exact hne hop
    simp [hi, hop, hfault]
  | invalidOperand hi hop hx =>
    have hfault : m.AtFault := (atFault_iff hi hop).mpr hx
    simp [hi, hop, hfault]
  | @continued i x _ _ hi hop hx hexec =>
    have hfault : ¬m.AtFault := by
      rw [atFault_iff hi hop]
      intro h
      exact absurd ((h x hx).symm.trans hexec) (Option.some_ne_none _).symm
    have hafter : ∃ i x, m.program.get? m.counter = some i ∧ i.HasOperand x
        ∧ m.After i.opcode x _ :=
      ⟨i, x.toInt, hi, (i.integerOperand?_eq_some_iff x).mp hx,
        after_of_execute? hr hexec⟩
    simpa [hi, hop, hfault] using hafter

/-- A machine about to divide the least word by minus one. -/
def dividing : Machine :=
  { new ⟨100, 2, 0⟩ with
    registers := ⟨#[Int64.minValue, -1]⟩
    program := .ofList [.ofInt .div 1] }

/-- The one quotient that is no word is a fault, and the accumulator keeps
its value. -/
theorem dividing_atFault :
    0 < dividing.registers.size ∧ dividing.AtFault
      ∧ dividing.advance.2 = dividing := by
  have hr : 0 < dividing.registers.size := by decide
  have hstatus : dividing.advance.1 = .invalidOperand := by decide +kernel
  have hrules := advance_obeys_rules dividing hr
  exact ⟨hr, hrules.2.2.1.mp hstatus,
    hrules.2.2.2.2.1 (by rw [hstatus]; decide)⟩

end Machine

end RegisterMachine
