import RegisterMachine.Text.Outline

/-!
# The register file

A fixed number of signed words, all zero at first; register zero is the
accumulator. Reading past the end sees zero and writing past the end is
refused, so nothing ever changes the number of cells. `read` is the view of a
file that its laws are stated in: each operation comes with an equation for
what is read after it.
-/

namespace RegisterMachine

/-- **A register file.** -/
structure Registers where
  /-- The cells, in the order of their indices. -/
  cells : Array Int64
  deriving DecidableEq, Repr

namespace Registers

/-- So many registers, all zero. -/
def zero (count : Nat) : Registers := ⟨Array.replicate count 0⟩

/-- The number of registers. -/
def size (r : Registers) : Nat := r.cells.size

/-- **The value of a register**, zero past the end. -/
def read (r : Registers) (i : Nat) : Int64 := r.cells[i]?.getD 0

/-- The accumulator. -/
def acc (r : Registers) : Int64 := r.read 0

/-- **Writes a register**, unless it is past the end. -/
def write? (r : Registers) (i : Nat) (v : Int64) : Option Registers :=
  if i < r.size then some ⟨r.cells.setIfInBounds i v⟩ else none

/-- Writes the accumulator; a file with no register has none and stays as it
is. -/
def setAcc (r : Registers) (v : Int64) : Registers :=
  ⟨r.cells.setIfInBounds 0 v⟩

/-- **Clears the registers below an index.** -/
def clear (r : Registers) (span : Nat) : Registers :=
  ⟨r.cells.mapIdx fun i v => if i < span then 0 else v⟩

/-- The cells with their indices. -/
def entries (r : Registers) : List (Nat × Int64) :=
  r.cells.toList.zipIdx.map fun e => (e.2, e.1)

/-- **The registers that are not zero**, by increasing index. -/
def nonZero (r : Registers) : List (Nat × Int64) :=
  r.entries.filter fun e => e.2 != 0

/-- The file for inspection; registers that hold zero are left out. -/
def outline (r : Registers) : Outline :=
  .record "RegisterFile"
    [("acc", .leaf (toString r.acc)),
     ("non_zero", .list (r.nonZero.map fun e =>
       .tuple [.leaf (toString e.1), .leaf (toString e.2)])),
     ("total", .leaf (toString r.size))]

/-! ## What is read -/

@[simp] theorem size_zero (n : Nat) : (zero n).size = n := by
  simp [zero, size]

@[simp] theorem read_zero (n i : Nat) : (zero n).read i = 0 := by
  simp only [zero, read, Array.getElem?_replicate]
  split <;> rfl

theorem read_of_size_le (r : Registers) {i : Nat} (h : r.size ≤ i) :
    r.read i = 0 := by
  have : r.cells[i]? = none := by simpa [size] using h
  simp [read, this]

@[simp] theorem size_setAcc (r : Registers) (v : Int64) :
    (r.setAcc v).size = r.size := by
  simp [setAcc, size]

/-- Writing the accumulator changes what is read at zero and nowhere
else. -/
theorem read_setAcc (r : Registers) (v : Int64) (i : Nat) :
    (r.setAcc v).read i = if i = 0 ∧ 0 < r.size then v else r.read i := by
  simp only [setAcc, read, size, Array.getElem?_setIfInBounds]
  by_cases h : 0 = i
  · subst h
    by_cases hs : 0 < r.cells.size <;> simp [hs]
  · simp [h, Ne.symm h]

/-- **A write is refused exactly past the end.** -/
theorem write?_eq_none_iff (r : Registers) (i : Nat) (v : Int64) :
    r.write? i v = none ↔ r.size ≤ i := by
  simp [write?]

theorem size_of_write? {r r' : Registers} {i : Nat} {v : Int64}
    (h : r.write? i v = some r') : r'.size = r.size := by
  simp only [write?, Option.ite_none_right_eq_some, Option.some.injEq] at h
  rw [← h.2]
  simp [size]

/-- A write that is not refused changes what is read at its index and nowhere
else. -/
theorem read_of_write? {r r' : Registers} {i : Nat} {v : Int64}
    (h : r.write? i v = some r') (j : Nat) :
    r'.read j = if j = i then v else r.read j := by
  simp only [write?, Option.ite_none_right_eq_some, Option.some.injEq] at h
  obtain ⟨hi, rfl⟩ := h
  simp only [read, Array.getElem?_setIfInBounds]
  by_cases hj : i = j
  · subst hj
    have : i < r.cells.size := hi
    simp [this]
  · simp [hj, Ne.symm hj]

@[simp] theorem size_clear (r : Registers) (span : Nat) :
    (r.clear span).size = r.size := by
  simp [clear, size]

/-- Clearing makes zero what is below the index and keeps the rest. -/
@[simp] theorem read_clear (r : Registers) (span i : Nat) :
    (r.clear span).read i = if i < span then 0 else r.read i := by
  simp only [clear, read, Array.getElem?_mapIdx]
  cases r.cells[i]? with
  | none => simp
  | some v => by_cases h : i < span <;> simp [h]

/-- **A file is determined by its size and what is read.** -/
@[ext] theorem ext {r s : Registers} (hsize : r.size = s.size)
    (hread : ∀ i, r.read i = s.read i) : r = s := by
  cases r with
  | mk a =>
    cases s with
    | mk b =>
      congr 1
      refine Array.ext hsize fun i h₁ h₂ => ?_
      have := hread i
      simpa [read, h₁, h₂] using this

end Registers

end RegisterMachine
