import Mathlib.Data.List.Range
import RegisterMachine.Proofs.Latest
import RegisterMachine.Registers.Basic

/-!
# A register file is a store

What a register file holds is a matter of what was done to it. Three things can
be done: a register is written, the accumulator is, or all registers below an
index are cleared (`Registers.Edit`). Edits *leave* a value at an index if it was
written there and nothing behind that writes there or clears so far
(`Registers.Edit.Leave`); then it is what is read, and otherwise zero is. A write
past the end is refused and leaves the file as it was, so the number of registers
never changes.

The registers that are not zero are a file's contents in full: their list shows
each with its value, by increasing index, and two files of one size are equal as
soon as these lists are (`Registers.eq_iff_nonZero_eq`).
-/

namespace RegisterMachine.Registers

/-- **What is done to a register file.** -/
inductive Edit where
  /-- A register is written. -/
  | write (i : ℕ) (v : Int64)
  /-- The accumulator is written. -/
  | setAcc (v : Int64)
  /-- The registers below an index are cleared. -/
  | clear (span : ℕ)
  deriving DecidableEq, Repr

namespace Edit

variable {edits : List Edit} {i : ℕ} {v : Int64}

/-- The value that is written at an index, if one is. -/
def written? (i : ℕ) : Edit → Option Int64
  | .write j v => if i = j then some v else none
  | .setAcc v => if i = 0 then some v else none
  | .clear _ => none

/-- Whether an index is cleared. -/
def clears (i : ℕ) : Edit → Bool
  | .clear span => decide (i < span)
  | _ => false

/-- **Edits leave a value at an index**: it was written there, and nothing
behind that writes there again or clears as far as there. -/
def Leave (edits : List Edit) (i : ℕ) (v : Int64) : Prop :=
  ∃ before e after, edits = before ++ e :: after ∧ e.written? i = some v
    ∧ ∀ e' ∈ after, e'.written? i = none ∧ e'.clears i = false

theorem not_leave_nil : ¬Leave [] i v := by
  rintro ⟨before, e, after, hedits, -⟩
  exact List.append_ne_nil_of_right_ne_nil _ (List.cons_ne_nil e after)
    hedits.symm

/-- **One more edit** leaves its own value, or what the others left. -/
theorem leave_concat (edits : List Edit) (e : Edit) :
    Leave (edits ++ [e]) i v
      ↔ e.written? i = some v
        ∨ (Leave edits i v ∧ e.written? i = none ∧ e.clears i = false) :=
  exists_latest_concat_iff edits e

end Edit

/-- **The file after an edit.** A write that is refused leaves it as it was. -/
def edit (r : Registers) : Edit → Registers
  | .write i v => (r.write? i v).getD r
  | .setAcc v => r.setAcc v
  | .clear span => r.clear span

/-- The file after some edits, in order. -/
def editAll (r : Registers) (edits : List Edit) : Registers :=
  edits.foldl edit r

variable {r s : Registers} {count i : ℕ} {v : Int64}

/-! ## What an edit does -/

theorem edit_write (r : Registers) (i : ℕ) (v : Int64) :
    r.edit (.write i v) = (r.write? i v).getD r := rfl

@[simp] theorem size_edit (r : Registers) (e : Edit) :
    (r.edit e).size = r.size := by
  cases e with
  | write i v =>
    rw [edit_write]
    cases h : r.write? i v with
    | none => rfl
    | some r' => exact size_of_write? h
  | setAcc v => exact size_setAcc r v
  | clear span => exact size_clear r span

/-- **A refused write changes nothing.** -/
theorem edit_write_of_size_le (h : r.size ≤ i) (v : Int64) :
    r.edit (.write i v) = r := by
  rw [edit_write, (write?_eq_none_iff r i v).mpr h, Option.getD_none]

/-- **What is read after an edit**: what it wrote there, zero if it cleared so
far, and otherwise what was read before. -/
theorem read_edit (hi : i < r.size) (e : Edit) :
    (r.edit e).read i
      = (e.written? i).getD (if e.clears i then 0 else r.read i) := by
  cases e with
  | write j v =>
    rw [edit_write]
    cases h : r.write? j v with
    | none =>
      have hj : r.size ≤ j := (write?_eq_none_iff r j v).mp h
      have hne : i ≠ j := by omega
      rw [Option.getD_none]
      simp [Edit.written?, Edit.clears, hne]
    | some r' =>
      rw [Option.getD_some, read_of_write? h]
      by_cases hij : i = j <;> simp [Edit.written?, Edit.clears, hij]
  | setAcc v =>
    show (r.setAcc v).read i = _
    rw [read_setAcc]
    by_cases h0 : i = 0
    · simp [Edit.written?, h0, show 0 < r.size by omega]
    · simp [Edit.written?, Edit.clears, h0]
  | clear span =>
    show (r.clear span).read i = _
    rw [read_clear]
    simp [Edit.written?, Edit.clears]

/-! ## What edits leave -/

@[simp] theorem editAll_concat (r : Registers) (edits : List Edit) (e : Edit) :
    r.editAll (edits ++ [e]) = (r.editAll edits).edit e :=
  List.foldl_concat ..

@[simp] theorem size_editAll (r : Registers) (edits : List Edit) :
    (r.editAll edits).size = r.size := by
  induction edits using List.reverseRecOn with
  | nil => rfl
  | append_singleton edits e ih => rw [editAll_concat, size_edit, ih]

/-- **What is read is what was left**, and zero where nothing was. -/
theorem read_editAll_zero (hi : i < count) (edits : List Edit) :
    (∀ v, Edit.Leave edits i v → ((zero count).editAll edits).read i = v)
      ∧ ((∀ v, ¬Edit.Leave edits i v)
        → ((zero count).editAll edits).read i = 0) := by
  induction edits using List.reverseRecOn with
  | nil => exact ⟨fun v h => absurd h Edit.not_leave_nil, fun _ => read_zero _ _⟩
  | append_singleton edits e ih =>
    obtain ⟨hleft, hnone⟩ := ih
    have hsize : i < ((zero count).editAll edits).size := by
      rwa [size_editAll, size_zero]
    simp only [editAll_concat, read_edit hsize, Edit.leave_concat]
    cases e.written? i with
    | some w => exact ⟨by simp, fun h => absurd rfl (not_or.mp (h w)).1⟩
    | none =>
      cases e.clears i with
      | true => exact ⟨by simp, fun _ => rfl⟩
      | false => exact ⟨by simpa using hleft, by simpa using hnone⟩

/-! ## The registers that are not zero -/

theorem mem_entries_iff :
    (i, v) ∈ r.entries ↔ r.cells[i]? = some v := by
  unfold entries
  simp [List.mem_zipIdx_iff_getElem?]

/-- **The registers that are not zero** are listed with what is read there. -/
theorem mem_nonZero_iff : (i, v) ∈ r.nonZero ↔ r.read i = v ∧ v ≠ 0 := by
  unfold nonZero read
  rw [List.mem_filter, mem_entries_iff, bne_iff_ne]
  refine and_congr_left fun hv => ?_
  cases r.cells[i]? with
  | none => exact iff_of_false (Option.some_ne_none v).symm hv.symm
  | some w => exact Option.some_inj

/-- They are listed by increasing index. -/
theorem pairwise_nonZero (r : Registers) :
    r.nonZero.Pairwise fun e e' => e.1 < e'.1 := by
  have hentries : r.entries.Pairwise fun e e' => e.1 < e'.1 := by
    have hindex : r.entries.map Prod.fst = List.range' 0 r.size := by
      unfold entries
      rw [List.map_map]
      exact List.zipIdx_map_snd 0 r.cells.toList
    rw [← List.pairwise_map (f := Prod.fst) (R := (· < ·)), hindex]
    exact List.pairwise_lt_range'
  exact hentries.filter _

/-- **Files of one size are equal if the same registers are not zero** in them,
with the same values. -/
theorem eq_iff_nonZero_eq (hsize : r.size = s.size) :
    r = s ↔ r.nonZero = s.nonZero := by
  refine ⟨fun h => h ▸ rfl, fun h => ?_⟩
  have hread : ∀ i v, v ≠ 0 → (r.read i = v ↔ s.read i = v) := fun i v hv => by
    rw [← and_iff_left (a := r.read i = v) hv, ← mem_nonZero_iff, h,
      mem_nonZero_iff, and_iff_left hv]
  ext i
  · exact hsize
  · by_cases hzero : r.read i = 0
    · by_contra hne
      exact hne ((hread i _ fun h => hne (hzero.trans h.symm)).mpr rfl)
    · exact ((hread i _ hzero).mp rfl).symm

/-! ## The store -/

/-- **A register file holds what was written last.** After any edits of a file of
so many registers, all zero at first, there are as many; below that number a
register reads as the value that the edits left there, and as zero if they left
none; from that number on every index reads as zero. A write is refused exactly
from that number on, and then the file stays as it was. The registers that are
not zero are listed with their values and by increasing index, each of them and
no other; so files of one size are equal if and only if their lists are. -/
theorem holds_what_was_left (count : ℕ) (edits : List Edit) :
    let r := (zero count).editAll edits
    r.size = count
      ∧ (∀ i < count, (∀ v, Edit.Leave edits i v → r.read i = v)
          ∧ ((∀ v, ¬Edit.Leave edits i v) → r.read i = 0))
      ∧ (∀ i, count ≤ i → r.read i = 0)
      ∧ (∀ i v, (r.write? i v = none ↔ count ≤ i)
          ∧ (count ≤ i → r.edit (.write i v) = r))
      ∧ (∀ i v, (i, v) ∈ r.nonZero ↔ r.read i = v ∧ v ≠ 0)
      ∧ (r.nonZero.Pairwise fun e e' => e.1 < e'.1)
      ∧ ∀ s t : Registers, s.size = t.size →
          (s = t ↔ s.nonZero = t.nonZero) := by
  intro r
  have hsize : r.size = count := (size_editAll _ edits).trans (size_zero count)
  refine ⟨hsize, fun i hi => read_editAll_zero hi edits, fun i hi => ?_,
    fun i v => ⟨?_, fun hi => ?_⟩, fun i v => mem_nonZero_iff,
    pairwise_nonZero r, fun s t => eq_iff_nonZero_eq⟩
  · exact read_of_size_le r (hsize.trans_le hi)
  · rw [write?_eq_none_iff, hsize]
  · exact edit_write_of_size_le (hsize.trans_le hi) v

/-- Six edits of four registers: a clearing between two writes to the first
register behind the accumulator, and a write past the end. -/
def sixEdits : List Edit :=
  [.write 3 9, .setAcc 7, .write 1 5, .clear 2, .write 1 6, .write 4 8]

/-- The write behind the clearing is read, the accumulator stays cleared, and
past the end nothing is written; so two of the edits would have done. -/
theorem holds_of_sixEdits :
    Edit.Leave sixEdits 1 6 ∧ ((zero 4).editAll sixEdits).read 1 = 6
      ∧ (∀ v, ¬Edit.Leave sixEdits 0 v)
      ∧ ((zero 4).editAll sixEdits).read 0 = 0
      ∧ ((zero 4).editAll sixEdits).read 4 = 0
      ∧ ((zero 4).editAll sixEdits).edit (.write 4 8)
        = (zero 4).editAll sixEdits
      ∧ (zero 4).editAll sixEdits
        = (zero 4).editAll [.write 1 6, .write 3 9] := by
  have hleft : Edit.Leave sixEdits 1 6 :=
    ⟨[.write 3 9, .setAcc 7, .write 1 5, .clear 2], .write 1 6, [.write 4 8],
      rfl, rfl, by decide⟩
  have hcleared : ∀ v, ¬Edit.Leave sixEdits 0 v := fun v => by
    show ¬Edit.Leave ([.write 3 9, .setAcc 7, .write 1 5] ++ [.clear 2]
      ++ [.write 1 6] ++ [.write 4 8]) 0 v
    simp only [Edit.leave_concat]
    simp [Edit.written?, Edit.clears]
  have hlisted : ((zero 4).editAll sixEdits).nonZero
      = ((zero 4).editAll [.write 1 6, .write 3 9]).nonZero := by decide
  obtain ⟨-, hread, hpast, hwrite, -, -, hequal⟩ :=
    holds_what_was_left 4 sixEdits
  exact ⟨hleft, (hread 1 (by decide)).1 6 hleft, hcleared,
    (hread 0 (by decide)).2 hcleared, hpast 4 le_rfl, (hwrite 4 8).2 le_rfl,
    (hequal _ _ (by decide)).mpr hlisted⟩

end RegisterMachine.Registers
