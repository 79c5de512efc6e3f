import RegisterMachine.Proofs.Json.Unambiguous

/-!
# What is asked of a library for JSON

Values are turned into text and text into values by a library, and what is said
here of machines, programs and settings is said of any library that keeps to its
documentation. What it is asked for is little, and each demand is a hypothesis of
its own.

* A writer (`Json.IsWriter`) gives every value one of the texts of that value,
  with `null` in the place of a number that is not finite. How it lays the text
  out is left to it, and so are the digits of a real number, as long as their
  decimal rounds to the number.
* A reader of a type (`Json.IsReader`) takes every text of a value that the type
  can be made from. What it does with any other text is left to it.
* What a reader takes the digits of a real number for is left to it as well, but
  that it reads what the writer wrote for a finite number as some finite number
  with the same sign (`Json.ReadsNumbers`). It need not be the nearest, and so it
  need not be the number that was written.
-/

namespace RegisterMachine.Json

variable {digits : Binary64 → NumberText} {near : NumberText → Option Binary64}
  {write : Json → String}

/-- **The parts that are written for a finite number.** -/
def Written (digits : Binary64 → NumberText) (n : NumberText) (x : Binary64) :
    Prop :=
  x.isFinite = true ∧ n = digits x

/-- **A writer of values.** -/
structure IsWriter (digits : Binary64 → NumberText) (write : Json → String) :
    Prop where
  /-- The digits of a finite number are near enough to be rounded to it. -/
  rounds : ∀ x : Binary64, x.isFinite = true →
    (digits x).decimal.toBinary64 (digits x).negative = x
  /-- What is written is the value, but that `null` stands in for a number that
  is not finite. -/
  writes : ∀ j : Json, IsDocument (Written digits) j.settle (write j).toList

/-- **The number that parts are read as.** -/
def ReadAs (near : NumberText → Option Binary64) (n : NumberText)
    (x : Binary64) : Prop :=
  near n = some x

/-- **A reader of a type** of values: whatever text holds a value that the type
can be made from, it is read as what is made from it. -/
def IsReader {α : Type} (means : NumberText → Binary64 → Prop)
    (fromJson? : Json → Option α) (read : String → Except Problem α) : Prop :=
  ∀ (j : Json) (text : String) (a : α), IsDocument means j text.toList →
    fromJson? j = some a → read text = .ok a

/-- Different numbers are not written with the same parts. -/
theorem IsWriter.written_unique (hwrite : IsWriter digits write) (n : NumberText)
    (x y : Binary64) (hx : Written digits n x) (hy : Written digits n y) :
    x = y := by
  obtain ⟨hfin, rfl⟩ := hx
  obtain ⟨hfin', heq⟩ := hy
  have hround := hwrite.rounds x hfin
  rw [heq, hwrite.rounds y hfin'] at hround
  exact hround.symm

/-- **Values with the same text are the same value**, but for numbers that are
not finite. -/
theorem IsWriter.settle_eq (hwrite : IsWriter digits write) {j j' : Json}
    (h : write j = write j') : j.settle = j'.settle := by
  have htext := hwrite.writes j
  rw [h] at htext
  exact htext.unique hwrite.written_unique (hwrite.writes j')

/-- **What is written is read**, as the value with every finite number as it is
read. -/
theorem IsWriter.read_write {α : Type} {f : Binary64 → Binary64}
    {fromJson? : Json → Option α} {read : String → Except Problem α} {j : Json}
    {a : α} (hwrite : IsWriter digits write)
    (hread : IsReader (ReadAs near) fromJson? read)
    (hf : ∀ x, x.isFinite = true → near (digits x) = some (f x))
    (ha : fromJson? (j.settle.mapReal fun x => .real (f x)) = some a) :
    read (write j) = .ok a := by
  refine hread _ _ _ ((hwrite.writes j).mapReal fun n x hn => ?_) ha
  obtain ⟨hfin, rfl⟩ := hn
  exact hf x hfin

end RegisterMachine.Json
