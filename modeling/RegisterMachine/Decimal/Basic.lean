import RegisterMachine.Binary64.Round
import RegisterMachine.Text.Digits

/-!
# Decimal numbers

A decimal is a natural number of units of a power of ten. It is what a
numeral spells and what a printed number shows; it has no sign of its own.
Reading one as a binary64 number rounds its exact value once. An exponent can
be as long as the text it came from, so a value that is surely too great or
too small for the format is settled by counting digits, without ever forming
the power of ten.
-/

namespace RegisterMachine

-- powers are those of the core library, whatever else is in scope
attribute [local instance (high)] instPowNat

/-- **A decimal number** `digits · 10 ^ exponent`. -/
structure Decimal where
  /-- The number of units. -/
  digits : Nat
  /-- The power of ten of one unit. -/
  exponent : Int
  deriving DecidableEq, Repr, Inhabited

namespace Decimal

/-- **One past the leading digit**: a non-zero decimal is below ten to this
power and not below ten to the power before it. -/
def ceiling (d : Decimal) : Int := digitCount d.digits + d.exponent

/-- **The decimal with the zeros at its end taken into the exponent.** Zero
is left as it is. -/
def trim (d : Decimal) : Decimal :=
  if d.digits = 0 then d
  else ⟨d.digits / 10 ^ trailingZeros d.digits,
    d.exponent + trailingZeros d.digits⟩

/-- **The binary64 number nearest a decimal**, with a sign. Above `10 ^ 310`
everything is infinite and below `10 ^ (-330)` everything is zero, so between
the two the powers of ten stay small. -/
def toBinary64 (negative : Bool) (d : Decimal) : Binary64 :=
  if d.digits = 0 then .zero negative
  else if 310 < d.ceiling then .infinity negative
  else if d.ceiling < -330 then .zero negative
  else .ofRatio negative (d.digits * 10 ^ d.exponent.toNat)
    (10 ^ (-d.exponent).toNat)

/-- One tenth is the familiar inexact pattern. -/
example : (toBinary64 false ⟨1, -1⟩).bits = 0x3fb999999999999a := by
  decide +kernel

end Decimal

end RegisterMachine
