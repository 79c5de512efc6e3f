import RegisterMachine.Decimal.Basic

/-!
# Numerals

The second word of an instruction is a numeral, in one of three forms: a
radix mark (`0x`, `0o` or `0b`, the letter in either case) and digits of that
radix, without a sign and below `2 ^ 64`; the word `Infinity` behind an
optional sign; or an optional sign, decimal digits with a point anywhere
among them, and an optional power of ten. Any other spelling, another
spelling of infinity included, is no numeral.

`Numeral.parse?` recognises the forms and keeps the exact value they spell;
`Numeral.value` rounds it, once. What is read is never "not a number".
-/

namespace RegisterMachine

-- powers are those of the core library, whatever else is in scope
attribute [local instance (high)] instPowNat

/-- **What a numeral spells**, before anything is rounded. -/
inductive Numeral where
  /-- A whole number written in a radix of its own. -/
  | radix (value : Nat)
  /-- Infinity, with its sign. -/
  | infinity (negative : Bool)
  /-- A decimal, with its sign. -/
  | decimal (negative : Bool) (value : Decimal)
  deriving DecidableEq, Repr

namespace Numeral

/-- The radix that a letter behind a leading zero announces. -/
def radixOf? : Char → Option Nat
  | 'x' | 'X' => some 16
  | 'o' | 'O' => some 8
  | 'b' | 'B' => some 2
  | _ => none

/-- **The digits of a radix numeral**: at least one, each of the radix, and
together below `2 ^ 64`. -/
def parseRadix? (radix : Nat) (s : List Char) : Option Numeral :=
  if s ≠ [] ∧ s.all (isDigitOf radix)
      ∧ ofDigits radix s < 2 ^ (64 : Nat) then
    some (.radix (ofDigits radix s))
  else none

/-- Takes a sign off the front: whether it is a minus, and what follows. -/
def takeSign : List Char → Bool × List Char
  | '-' :: s => (true, s)
  | '+' :: s => (false, s)
  | s => (false, s)

/-- **The power of ten at the end of a decimal**: nothing at all, or an `e` in
either case, an optional sign and at least one digit. -/
def parsePower? : List Char → Option Int
  | [] => some 0
  | e :: s =>
    let (negative, digits) := takeSign s
    if (e = 'e' ∨ e = 'E') ∧ digits ≠ [] ∧ digits.all Char.isDigit then
      let n : Int := ofDigits 10 digits
      some (if negative then -n else n)
    else none

/-- Takes the digits of a fraction off the front, if a point stands
there. -/
def takeFraction : List Char → List Char × List Char
  | '.' :: s => (s.takeWhile Char.isDigit, s.dropWhile Char.isDigit)
  | s => ([], s)

/-- **An unsigned decimal**: digits, an optional point among them, and an
optional power of ten. There is at least one digit outside the power. -/
def parseDecimal? (s : List Char) : Option Decimal :=
  let whole := s.takeWhile Char.isDigit
  let (fraction, power) := takeFraction (s.dropWhile Char.isDigit)
  if whole = [] ∧ fraction = [] then none
  else (parsePower? power).map fun e =>
    ⟨ofDigits 10 (whole ++ fraction), e - fraction.length⟩

/-- A signed form: infinity or a decimal. -/
def parseSigned? (s : List Char) : Option Numeral :=
  let (negative, unsigned) := takeSign s
  if unsigned = "Infinity".toList then some (.infinity negative)
  else (parseDecimal? unsigned).map (.decimal negative)

/-- **Reads a numeral.** A leading zero with a radix letter behind it commits
to the radix form. -/
def parse? (s : List Char) : Option Numeral :=
  match s with
  | '0' :: c :: digits =>
    match radixOf? c with
    | some base => parseRadix? base digits
    | none => parseSigned? s
  | _ => parseSigned? s

/-- **The binary64 number nearest what the numeral spells.** -/
def value : Numeral → Binary64
  | .radix n => .ofRatio false n 1
  | .infinity negative => .infinity negative
  | .decimal negative d => d.toBinary64 negative

/-- A point may stand at either end of the digits, but not alone. -/
example : parse? ['.', '5'] = some (.decimal false ⟨5, -1⟩)
    ∧ parse? ['5', '.'] = some (.decimal false ⟨5, 0⟩)
    ∧ parse? ['.'] = none := by decide

/-- A sign belongs to no radix form. -/
example : parse? ['0', 'x', '+', '1'] = none
    ∧ parse? ['-', '0', 'x', '1'] = none
    ∧ parse? ['0', 'X', '1', 'f'] = some (.radix 31) := by decide

end Numeral

end RegisterMachine
