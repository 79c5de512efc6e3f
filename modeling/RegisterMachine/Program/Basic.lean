import RegisterMachine.Instruction
import RegisterMachine.Text.Pad

/-!
# Programs

A program is a sequence of instructions, and the index of an instruction is
what a jump names. It prints in two ways: as source text, which reads back,
and as a listing with every line numbered.
-/

namespace RegisterMachine

/-- **A program.** -/
structure Program where
  /-- The instructions, in the order of their indices. -/
  instructions : Array Instruction
  deriving DecidableEq, Repr

namespace Program

/-- The program with no instruction. -/
def empty : Program := ⟨#[]⟩

instance : Inhabited Program := ⟨empty⟩

/-- How many instructions there are. -/
def size (p : Program) : Nat := p.instructions.size

/-- The instruction at an index, if the index addresses one. -/
def get? (p : Program) (i : Nat) : Option Instruction := p.instructions[i]?

/-- The instructions, in order. -/
def toList (p : Program) : List Instruction := p.instructions.toList

/-- The program of a list of instructions. -/
def ofList (is : List Instruction) : Program := ⟨is.toArray⟩

/-- One program after another. -/
def append (p q : Program) : Program := ⟨p.instructions ++ q.instructions⟩

instance : Append Program := ⟨append⟩

/-- **A line of a listing**: the index in three digits and the
instruction. -/
def listingLine (i : Instruction) (index : Nat) : String :=
  Text.index index ++ ": " ++ i.text

/-- **The numbered listing**, one line an instruction. -/
def listing (p : Program) : String :=
  String.join (p.toList.zipIdx.map fun e => listingLine e.1 e.2 ++ "\n")

/-- **The program as source text**, one line an instruction. -/
def source (p : Program) : String :=
  String.join (p.toList.map fun i => i.text ++ "\n")

/-- Equality of programs with operands compared as numbers. -/
def numEq (p q : Program) : Bool :=
  p.size == q.size
    && (p.toList.zip q.toList).all fun e => e.1.numEq e.2

@[simp] theorem toList_empty : empty.toList = [] := rfl

@[simp] theorem toList_ofList (is : List Instruction) :
    (ofList is).toList = is := rfl

@[simp] theorem toList_append (p q : Program) :
    (p ++ q).toList = p.toList ++ q.toList := by
  show (p.instructions ++ q.instructions).toList = _
  simp [toList]

@[simp] theorem length_toList (p : Program) : p.toList.length = p.size := rfl

theorem get?_eq_toList (p : Program) (i : Nat) : p.get? i = p.toList[i]? := by
  simp [get?, toList]

theorem mem_toList_of_get? {p : Program} {n : Nat} {i : Instruction}
    (h : p.get? n = some i) : i ∈ p.toList := by
  rw [get?_eq_toList] at h
  exact List.mem_of_getElem? h

/-- **An index addresses an instruction exactly below the size.** -/
theorem get?_eq_none_iff (p : Program) (i : Nat) :
    p.get? i = none ↔ p.size ≤ i := by
  simp [get?, size]

end Program

end RegisterMachine
