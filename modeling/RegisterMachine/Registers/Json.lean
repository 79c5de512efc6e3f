import RegisterMachine.Json.Skip
import RegisterMachine.Json.Typed
import RegisterMachine.Json.Value
import RegisterMachine.Registers.Basic

/-!
# Register files as JSON

A register file is an object with the one field `cells`, the array of its
values; other fields are passed over. It may also be the array of its one
field.
-/

namespace RegisterMachine.Registers

/-- **The file as JSON.** -/
def toJson (r : Registers) : Json :=
  .object [("cells", .array (r.cells.toList.map fun v => .int v.toInt))]

/-- The file of its cells in order. -/
def ofCells (cells : List Int64) : Registers := ⟨cells.toArray⟩

/-! ## From a value -/

/-- A field of an object, taken in: the cells, once. -/
def put? (cells : Option (List Int64)) (name : String) (value : Json) :
    Option (Option (List Int64)) :=
  if name = "cells" ∧ cells.isNone then
    (value.toList? Json.toSignedWord?).map some
  else none

/-- **A file from a JSON value.** -/
def fromJson? : Json → Option Registers :=
  Json.toRecord? none put? fun cells => cells.map ofCells

/-! ## From a text -/

/-- The file as the array of its one field, behind the bracket. -/
def inOrder : Json.Reader Registers := fun s => do
  match ← Json.elementStep true s with
  | .close .. => .error .unexpected
  | .item t h =>
    let cells ← Json.elements Json.signedWord t
    let e ← Json.expect ']' cells.rest
    .ok ⟨ofCells cells.value, e.rest,
      Nat.lt_of_lt_of_le (Nat.lt_trans e.shorter cells.shorter) h⟩

/-- A field of a file: its cells, once, or one to pass over. -/
def field (cells : Option (List Int64)) (name : String) :
    Except Json.Problem (Json.Reader (Option (List Int64))) :=
  if name = "cells" then
    match cells with
    | some _ => .error .unexpected
    | none => .ok fun s =>
        (Json.elements Json.signedWord s).map (Json.Read.map some)
  else .ok fun s => (Json.skipValue s).map (Json.Read.map fun _ => cells)

/-- The cells are required. -/
def finish : Option (List Int64) → Except Json.Problem Registers
  | some cells => .ok (ofCells cells)
  | none => .error .unexpected

/-- **Reads a register file.** -/
def reader : Json.Reader Registers := Json.record inOrder none field finish

end RegisterMachine.Registers
