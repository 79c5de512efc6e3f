import RegisterMachine.Binary64.Basic

/-!
# Rounding to double precision

Every number enters the machine as an exact quotient of natural numbers and
is rounded once, to the nearest binary64 number, a tie going to the even
significand. The quotient is scaled by the power of two that leaves it with
fifty-three bits, or fewer where the format runs out of exponents, rounded to
a whole number, and put back together by the linear formula for magnitudes; a
carry out of the significand lands in the exponent by itself, and everything
past the finite range becomes infinite.
-/

namespace RegisterMachine

-- powers are those of the core library, whatever else is in scope
attribute [local instance (high)] instPowNat

/-- **The whole number nearest a quotient**, a half going to the even
neighbour. -/
def roundDiv (num den : Nat) : Nat :=
  if 2 * (num % den) < den then num / den
  else if den < 2 * (num % den) then num / den + 1
  else num / den + num / den % 2

/-- A whole quotient is left as it is. -/
theorem roundDiv_mul (n : Nat) {den : Nat} (h : 0 < den) :
    roundDiv (n * den) den = n := by
  simp [roundDiv, Nat.mul_div_cancel n h, h]

namespace Binary64

/-- The greatest `e` for which `2 ^ e` does not exceed the quotient of two
positive numbers. -/
def quotientLog (num den : Nat) : Int :=
  let e : Int := (num.log2 : Int) - den.log2
  if den * 2 ^ e.toNat ≤ num * 2 ^ (-e).toNat then e else e - 1

/-- **The exponent a quotient is rounded at**: fifty-two below its leading
bit, and never below that of the subnormal numbers. -/
def quotientExponent (num den : Nat) : Int :=
  max (quotientLog num den - 52) (-1074)

/-- **The number nearest `num / den`**, a tie going to the even significand
and everything beyond the finite range to infinity. -/
def ofRatio (negative : Bool) (num den : Nat) : Binary64 :=
  if num = 0 then zero negative
  else
    let q := quotientExponent num den
    let m := roundDiv (num * 2 ^ (-q).toNat) (den * 2 ^ q.toNat)
    ofMagnitude negative
      (min ((q + 1074).toNat * 2 ^ (52 : Nat) + m) infiniteMagnitude)

/-- The number nearest an integer. -/
def ofInt (n : Int) : Binary64 :=
  ofRatio (decide (n < 0)) n.natAbs 1

/-- **The product of two finite numbers**, rounded once. -/
def mul (x y : Binary64) : Binary64 :=
  let q := x.exponent + y.exponent
  ofRatio (x.negative != y.negative)
    (x.significand * y.significand * 2 ^ q.toNat) (2 ^ (-q).toNat)

/-- **The quotient of two finite numbers**, rounded once. The divisor is not
zero wherever the library divides. -/
def div (x y : Binary64) : Binary64 :=
  let q := x.exponent - y.exponent
  ofRatio (x.negative != y.negative)
    (x.significand * 2 ^ q.toNat) (y.significand * 2 ^ (-q).toNat)

/-- One is written with the exponent field at the bias. -/
example : (ofInt 1).bits = 0x3ff0000000000000 := by decide +kernel

/-- A tie between two neighbours goes to the even one. -/
example : ofInt (2 ^ 53 + 1) = ofInt (2 ^ 53)
    ∧ ofInt (2 ^ 53 + 3) = ofInt (2 ^ 53 + 4) := by decide +kernel

/-- The least magnitude that rounds to infinity lies halfway past the
greatest finite number. -/
example : ofInt (2 ^ 1024 - 2 ^ 970) = infinity false
    ∧ ofInt (2 ^ 1024 - 2 ^ 970 - 1) ≠ infinity false := by decide +kernel

end Binary64

end RegisterMachine
