import RegisterMachine.Decimal.Basic

/-!
# Decimals as text

A decimal is written positionally, with zeros filled in between its digits
and the point, or with its leading digit in front of the point and a power of
ten behind an `e`. Neither form ever adds a zero that is not needed to reach
the point.
-/

namespace RegisterMachine.Decimal

/-- So many zeros. -/
def zeros (n : Nat) : List Char := List.replicate n '0'

/-- The digits in front of the point; a lone zero if there are none. -/
def wholePart (d : Decimal) : List Char :=
  if 0 < d.ceiling then
    (decimalDigits d.digits).take d.ceiling.toNat ++ zeros d.exponent.toNat
  else ['0']

/-- The digits behind the point. -/
def fractionPart (d : Decimal) : List Char :=
  if 0 ≤ d.exponent then []
  else zeros (-d.ceiling).toNat
    ++ (decimalDigits d.digits).drop d.ceiling.toNat

/-- **Positional notation**, with a point only in front of a fraction. -/
def positional (d : Decimal) : List Char :=
  match d.fractionPart with
  | [] => d.wholePart
  | fraction => d.wholePart ++ '.' :: fraction

/-- **Positional notation with a fraction**, a lone zero if the decimal is
whole. -/
def positionalWithFraction (d : Decimal) : List Char :=
  match d.fractionPart with
  | [] => d.wholePart ++ ['.', '0']
  | fraction => d.wholePart ++ '.' :: fraction

/-- **Scientific notation**: the leading digit, the others behind a point,
and the power of ten with its sign. -/
def scientific (d : Decimal) : List Char :=
  let e := d.ceiling - 1
  let power := (if e < 0 then '-' else '+') :: decimalDigits e.natAbs
  match decimalDigits d.digits with
  | [] => 'e' :: power
  | [c] => c :: 'e' :: power
  | c :: cs => c :: '.' :: cs ++ 'e' :: power

/-- A unit of a tenth puts the point in front of the last digit. -/
example : positional ⟨125, -1⟩ = ['1', '2', '.', '5']
    ∧ positional ⟨125, -4⟩ = ['0', '.', '0', '1', '2', '5']
    ∧ positional ⟨125, 2⟩ = ['1', '2', '5', '0', '0'] := by decide

/-- A whole number in scientific notation has no point. -/
example : scientific ⟨1, 16⟩ = ['1', 'e', '+', '1', '6']
    ∧ scientific ⟨15, -8⟩ = ['1', '.', '5', 'e', '-', '7'] := by decide

end RegisterMachine.Decimal
