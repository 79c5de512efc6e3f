import RegisterMachine.Decimal.Notation
import RegisterMachine.Decimal.Shortest

/-!
# JSON values and their text

States and programs leave the library as JSON. A value is a tree, and it is
written in one of two layouts: compact, without a single blank, or spread out
with one item a line and two spaces an indent; an empty array or object stays
on its line in both.

An integer is written in decimal. A real number always shows that it is one,
by a fraction or by a power of ten: it has the fewest digits that read back,
a tie going to the even digit, positionally if its leading digit is within
`10 ^ (-5)` and `10 ^ 15` and scientifically otherwise. There is no text for
an infinite number, and `null` stands in for it.
-/

namespace RegisterMachine

/-- **A JSON value.** -/
inductive Json where
  /-- Nothing. -/
  | null
  /-- A truth value. -/
  | bool (value : Bool)
  /-- An integer. -/
  | int (value : Int)
  /-- A real number. -/
  | real (value : Binary64)
  /-- A text. -/
  | text (value : String)
  /-- A sequence of values. -/
  | array (items : List Json)
  /-- Named values, in the order they are written. -/
  | object (fields : List (String × Json))

namespace Json

/-- The hexadecimal digit of a number below sixteen. -/
def hexDigit (n : Nat) : Char := Nat.digitChar n

/-- **A character inside a quoted text.** Quotation mark, backslash and the
control characters are escaped, the common ones by a letter. -/
def escape (c : Char) : List Char :=
  if c = '"' then ['\\', '"']
  else if c = '\\' then ['\\', '\\']
  else if c = '\n' then ['\\', 'n']
  else if c = '\r' then ['\\', 'r']
  else if c = '\t' then ['\\', 't']
  else if c.toNat = 8 then ['\\', 'b']
  else if c.toNat = 12 then ['\\', 'f']
  else if c.toNat < 32 then
    ['\\', 'u', '0', '0', hexDigit (c.toNat / 16), hexDigit (c.toNat % 16)]
  else [c]

/-- A text in quotation marks. -/
def quote (s : String) : List Char :=
  '"' :: s.toList.flatMap escape ++ ['"']

/-- An integer in decimal. -/
def intText (n : Int) : List Char :=
  if n < 0 then '-' :: decimalDigits n.natAbs else decimalDigits n.natAbs

/-- **A real number**, or `null` if it is not finite. -/
def realText (x : Binary64) : List Char :=
  if x.isFinite then
    let d := Decimal.shortest .even x
    let digits :=
      if -4 ≤ d.ceiling ∧ d.ceiling ≤ 16 then d.positionalWithFraction
      else d.scientific
    if x.negative then '-' :: digits else digits
  else "null".toList

/-- The text of a value without parts. -/
def scalarText : Json → List Char
  | .null => "null".toList
  | .bool b => (if b then "true" else "false").toList
  | .int n => intText n
  | .real x => realText x
  | .text s => quote s
  | .array _ => ['[', ']']
  | .object _ => ['\x7b', '\x7d']

mutual

/-- **The compact text of a value.** -/
def render : Json → List Char
  | .array items => '[' :: [','].intercalate (renderItems items) ++ [']']
  | .object fields =>
    '\x7b' :: [','].intercalate (renderFields fields) ++ ['\x7d']
  | j => scalarText j

/-- The compact texts of the items of an array. -/
def renderItems : List Json → List (List Char)
  | [] => []
  | j :: js => render j :: renderItems js

/-- The compact texts of the fields of an object. -/
def renderFields : List (String × Json) → List (List Char)
  | [] => []
  | (k, j) :: fs => (quote k ++ ':' :: render j) :: renderFields fs

end

/-- A line break and so many indents of two spaces. -/
def newline (depth : Nat) : List Char :=
  '\n' :: List.replicate (2 * depth) ' '

/-- Parts between brackets, each on a line of its own. -/
def spread (depth : Nat) (opening closing : Char) (parts : List (List Char)) :
    List Char :=
  match parts with
  | [] => [opening, closing]
  | _ => opening :: newline (depth + 1)
      ++ (',' :: newline (depth + 1)).intercalate parts
      ++ newline depth ++ [closing]

mutual

/-- **The spread-out text of a value** that stands at a depth. -/
def renderSpread (depth : Nat) : Json → List Char
  | .array items => spread depth '[' ']' (spreadItems (depth + 1) items)
  | .object fields =>
    spread depth '\x7b' '\x7d' (spreadFields (depth + 1) fields)
  | j => scalarText j

/-- The spread-out texts of the items of an array. -/
def spreadItems (depth : Nat) : List Json → List (List Char)
  | [] => []
  | j :: js => renderSpread depth j :: spreadItems depth js

/-- The spread-out texts of the fields of an object. -/
def spreadFields (depth : Nat) : List (String × Json) → List (List Char)
  | [] => []
  | (k, j) :: fs =>
    (quote k ++ ':' :: ' ' :: renderSpread depth j) :: spreadFields depth fs

end

/-- The compact text. -/
def compact (j : Json) : String := String.ofList j.render

/-- The text with one item a line. -/
def pretty (j : Json) : String := String.ofList (j.renderSpread 0)

end Json

end RegisterMachine
