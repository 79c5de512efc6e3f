import RegisterMachine.Json.Skip
import RegisterMachine.Json.Typed
import RegisterMachine.Json.Value
import RegisterMachine.Program.Basic

/-!
# Programs as JSON

A program is the array of its instructions. An instruction is an object with
the fields `opcode` and `operand`, others being passed over, or the array of
the two; a missing operand is `null`. An opcode is its mnemonic, and may also
be an object with the mnemonic as its one key and `null` behind it.

The text of an infinite operand is `null` as well, so it does not read back.
-/

namespace RegisterMachine

namespace Opcode

/-- **The opcode as JSON.** -/
def toJson (op : Opcode) : Json := .text op.mnemonic

/-- **An opcode from a JSON value**, its mnemonic. -/
def fromJson? : Json → Option Opcode
  | .text mnemonic => ofMnemonic? mnemonic
  | _ => none

/-- A mnemonic; a name that is none is unexpected. -/
def nameReader : Json.Reader Opcode := fun s => do
  let r ← Json.name s
  match ofMnemonic? r.value with
  | some op => .ok (r.map fun _ => op)
  | none => .error .unexpected

/-- **Reads an opcode.** Where an opcode is wanted, anything that is neither a
name nor an object is malformed. -/
def reader : Json.Reader Opcode := fun s => do
  let c ← Json.next s
  if c.value = '\x7b' then
    let r ← nameReader c.rest
    let k ← Json.expect ':' r.rest
    let n ← Json.nothing k.rest
    let e ← Json.expect '\x7d' n.rest
    .ok ⟨r.value, e.rest, by
      have := c.shorter
      have := r.shorter
      have := k.shorter
      have := n.shorter
      have := e.shorter
      omega⟩
  else nameReader s

end Opcode

namespace Instruction

/-- **The instruction as JSON.** -/
def toJson (i : Instruction) : Json :=
  .object
    [("opcode", i.opcode.toJson),
     ("operand", (i.operand.map Json.real).getD .null)]

/-! ## From a value -/

/-- **An operand from a JSON value**: any number, or `null`. -/
def operandFromJson? : Json → Option (Option Binary64) :=
  Json.toOptional? Json.toBinary64?

/-- The fields found so far. -/
structure Fields where
  /-- The opcode, if found. -/
  opcode : Option Opcode
  /-- The operand, if found; it may be `null`. -/
  operand : Option (Option Binary64)

/-- A field of an object, taken in: one of the two, once. -/
def put? (f : Fields) (name : String) (value : Json) : Option Fields :=
  if name = "opcode" ∧ f.opcode.isNone then
    (Opcode.fromJson? value).map fun op => { f with opcode := some op }
  else if name = "operand" ∧ f.operand.isNone then
    (operandFromJson? value).map fun x => { f with operand := some x }
  else none

/-- The instruction of its fields; there is none without an opcode. -/
def Fields.instruction? (f : Fields) : Option Instruction :=
  f.opcode.map fun op => ⟨op, f.operand.join⟩

/-- **An instruction from a JSON value.** -/
def fromJson? : Json → Option Instruction :=
  Json.toRecord? ⟨none, none⟩ put? Fields.instruction?

/-! ## From a text -/

/-- An operand: any number, or `null`. -/
def operandReader : Json.Reader (Option Binary64) :=
  Json.optional fun s =>
    (Json.number s).map (Json.Read.map Json.Number.toBinary64)

/-- The instruction as the array of its two fields, behind the bracket. -/
def inOrder : Json.Reader Instruction := fun s => do
  match ← Json.elementStep true s with
  | .close .. => .error .unexpected
  | .item t ht =>
    let op ← Opcode.reader t
    match ← Json.elementStep false op.rest with
    | .close .. => .error .unexpected
    | .item u hu =>
      let x ← operandReader u
      let e ← Json.expect ']' x.rest
      .ok ⟨⟨op.value, x.value⟩, e.rest, by
        have := op.shorter
        have := x.shorter
        have := e.shorter
        omega⟩

/-- **A field of an instruction**, by its name: one of the two, once, or one
to pass over. -/
def field (f : Fields) (name : String) :
    Except Json.Problem (Json.Reader Fields) :=
  if name = "opcode" then
    if f.opcode.isSome then .error .unexpected
    else .ok fun s =>
      (Opcode.reader s).map
        (Json.Read.map fun op => { f with opcode := some op })
  else if name = "operand" then
    if f.operand.isSome then .error .unexpected
    else .ok fun s =>
      (operandReader s).map
        (Json.Read.map fun x => { f with operand := some x })
  else .ok fun s => (Json.skipValue s).map (Json.Read.map fun _ => f)

/-- The opcode is required, the operand is not. -/
def finish (f : Fields) : Except Json.Problem Instruction :=
  match f.instruction? with
  | some i => .ok i
  | none => .error .unexpected

/-- **Reads an instruction.** -/
def reader : Json.Reader Instruction :=
  Json.record inOrder ⟨none, none⟩ field finish

end Instruction

namespace Program

/-- **The program as JSON.** -/
def toJson (p : Program) : Json :=
  .array (p.toList.map Instruction.toJson)

/-- **A program from a JSON value.** -/
def fromJson? (value : Json) : Option Program :=
  (value.toList? Instruction.fromJson?).map ofList

/-- **Reads a program.** -/
def reader : Json.Reader Program := fun s =>
  (Json.elements Instruction.reader s).map (Json.Read.map ofList)

/-- **Reads a program from a whole text.** -/
def ofJson (text : String) : Except Json.Problem Program :=
  Json.decode reader text

end Program

end RegisterMachine
