import RegisterMachine.Json.Typed
import RegisterMachine.Json.Value
import RegisterMachine.Settings.Basic

/-!
# Settings as JSON

Settings are an object of up to three words, `delay_ms`, `register_count` and
`reset_span`; a field left out has its standard value, and a field of another
name is unexpected. They may also be the array of the fields in order, cut
off anywhere.

What settings are made from a value is said by `Settings.fromJson?`, and
`Settings.reader` is a reader of texts. Settings from a text are held to the rules
after they were read, whatever reads them (`Settings.parseWith`).
-/

namespace RegisterMachine.Settings

/-- **The settings as JSON.** -/
def toJson (s : Settings) : Json :=
  .object
    [("delay_ms", .int s.delay.toNat),
     ("register_count", .int s.registerCount.toNat),
     ("reset_span", .int s.resetSpan.toNat)]

/-- **A field of the settings.** -/
inductive Key where
  /-- The delay. -/
  | delay
  /-- The number of registers. -/
  | registerCount
  /-- The reset span. -/
  | resetSpan
  deriving DecidableEq

namespace Key

/-- The fields in order. -/
def all : List Key := [.delay, .registerCount, .resetSpan]

/-- The name of a field. -/
def name : Key → String
  | .delay => "delay_ms"
  | .registerCount => "register_count"
  | .resetSpan => "reset_span"

/-- The field of a name. -/
def ofName? (name : String) : Option Key := all.find? fun k => k.name == name

end Key

/-- The fields found so far. -/
structure Fields where
  /-- The delay, if found. -/
  delay : Option UInt64
  /-- The number of registers, if found. -/
  registerCount : Option UInt64
  /-- The reset span, if found. -/
  resetSpan : Option UInt64

namespace Fields

/-- No field yet. -/
def none : Fields := ⟨.none, .none, .none⟩

/-- The word in a field, if it was found. -/
def get? (f : Fields) : Key → Option UInt64
  | .delay => f.delay
  | .registerCount => f.registerCount
  | .resetSpan => f.resetSpan

/-- The fields with a word put into one. -/
def put (f : Fields) (e : Key × UInt64) : Fields :=
  match e.1 with
  | .delay => { f with delay := some e.2 }
  | .registerCount => { f with registerCount := some e.2 }
  | .resetSpan => { f with resetSpan := some e.2 }

/-- The fields, with the standard values in the place of those not found. -/
def settings (f : Fields) : Settings :=
  ⟨f.delay.getD standard.delay, f.registerCount.getD standard.registerCount,
    f.resetSpan.getD standard.resetSpan⟩

end Fields

/-! ## From a value -/

/-- The field that a name puts a word into: one of the three, once. -/
def vacant? (f : Fields) (name : String) : Option Key :=
  (Key.ofName? name).filter fun k => (f.get? k).isNone

/-- A field of an object, taken in. -/
def put? (f : Fields) (name : String) (value : Json) : Option Fields :=
  (vacant? f name).bind fun k => value.toWord?.map fun n => f.put (k, n)

/-- **Settings from a JSON value.** -/
def fromJson? : Json → Option Settings :=
  Json.toRecord? Fields.none put? fun f => some f.settings

/-! ## From a text -/

/-- **A field of the settings**, by its name. -/
def field (f : Fields) (name : String) :
    Except Json.Problem (Json.Reader Fields) :=
  match vacant? f name with
  | some k => .ok fun s => (Json.word s).map (Json.Read.map fun n => f.put (k, n))
  | none => .error .unexpected

/-- The fields in order behind a bracket: for each of the names left, a word
or the end. -/
def inOrderFrom : (names : List String) → (first : Bool) → (f : Fields) →
    Json.Reader Fields
  | [], _, f, s => (Json.expect ']' s).map (Json.Read.map fun _ => f)
  | name :: names, first, f, s => do
    match ← Json.elementStep first s with
    | .close rest h => .ok ⟨f, rest, h⟩
    | .item t h =>
      let reader ← field f name
      let r ← reader t
      let e ← inOrderFrom names false r.value r.rest
      .ok ⟨e.value, e.rest, by
        have := r.shorter
        have := e.shorter
        omega⟩

/-- The settings as the array of their fields, behind the bracket. -/
def inOrder : Json.Reader Settings := fun s =>
  (inOrderFrom (Key.all.map Key.name) true .none s).map
    (Json.Read.map Fields.settings)

/-- **Reads settings**; they may still be refused. -/
def reader : Json.Reader Settings :=
  Json.record inOrder Fields.none field fun f => .ok f.settings

/-- **Why a text gives no settings.** -/
inductive ReadError where
  /-- The text is not the JSON of settings. -/
  | text (problem : Json.Problem)
  /-- The settings it holds are refused. -/
  | refused (refusal : Refusal)
  deriving DecidableEq, Repr

/-- **Settings from a text, held to the rules**, with the reader that `read`
is. -/
def parseWith (read : String → Except Json.Problem Settings) (text : String) :
    Except ReadError Settings :=
  match read text with
  | .error problem => .error (.text problem)
  | .ok s =>
    match s.refusal? with
    | some refusal => .error (.refused refusal)
    | none => .ok s

/-- **Reads settings and holds them to the rules.** -/
def parse (text : String) : Except ReadError Settings :=
  parseWith (Json.decode reader) text

end RegisterMachine.Settings
