import RegisterMachine.Decimal.Basic

/-!
# The fewest digits that read back

A finite binary64 number is printed with as few decimal digits as still read
back as that number. For one digit, two, and so on up to seventeen, the
multiples of the matching power of ten next to the exact value are tried: the
first that reads back is taken, the nearer one if both do. When both do and
the value lies exactly halfway, the caller says which way to go.

Reading back is tested by reading, so that a printed number reads back is
built into the search; that seventeen digits always suffice is a theorem
about it, and the exact decimal expansion stands behind the search so that
the definition does not depend on the theorem.
-/

namespace RegisterMachine

-- powers are those of the core library, whatever else is in scope
attribute [local instance (high)] instPowNat

/-- Which of two equally near decimals is printed. -/
inductive Tie where
  /-- The greater one. -/
  | up
  /-- The one whose last digit is even. -/
  | even
  deriving DecidableEq, Repr

namespace Decimal

/-- **The power of ten of the leading digit** of a positive quotient. -/
def leadingExponent (num den : Nat) : Int :=
  if den ≤ num then (digitCount (num / den) : Int) - 1
  else -(digitCount ((den - 1) / num) : Int)

/-- Whether an unsigned decimal reads back as the magnitude of a number. -/
def readsAs (d : Decimal) (x : Binary64) : Bool :=
  d.toBinary64 false == x.abs

/-- The nearer of two neighbouring multiples of a unit, given the remainder
of the value above the lower one. -/
def nearer (tie : Tie) (rem unit : Nat) (lower upper : Decimal) : Decimal :=
  if 2 * rem < unit then lower
  else if unit < 2 * rem then upper
  else match tie with
    | .up => upper
    | .even => if lower.digits % 2 = 0 then lower else upper

/-- **The decimal next to a quotient that reads back**, among the two
multiples of `10 ^ p` around it. -/
def onGrid? (tie : Tie) (x : Binary64) (num den : Nat) (p : Int) :
    Option Decimal :=
  let n := num * 10 ^ (-p).toNat
  let d := den * 10 ^ p.toNat
  let lower : Decimal := ⟨n / d, p⟩
  let upper : Decimal := ⟨n / d + 1, p⟩
  match lower.readsAs x, upper.readsAs x with
  | true, true => some (nearer tie (n % d) d lower upper)
  | true, false => some lower
  | false, true => some upper
  | false, false => none

/-- The exact decimal expansion of `m · 2 ^ q`. -/
def exact (m : Nat) (q : Int) : Decimal :=
  ⟨m * 2 ^ q.toNat * 5 ^ (-q).toNat, min q 0⟩

/-- **The shortest decimal that reads back** as the magnitude of a finite
number, with no zero at its end. -/
def shortest (tie : Tie) (x : Binary64) : Decimal :=
  if x.isZero then ⟨0, 0⟩
  else
    let num := x.significand * 2 ^ x.exponent.toNat
    let den := 2 ^ (-x.exponent).toNat
    let e := leadingExponent num den
    let found := (List.range 17).findSome? fun (k : Nat) =>
      onGrid? tie x num den (e - k)
    (found.getD (exact x.significand x.exponent)).trim

/-- The least positive number needs one digit. -/
example : shortest .up ⟨1⟩ = ⟨5, -324⟩ := by decide +kernel

/-- Halfway between two readings the tie decides. -/
example : shortest .up (.ofRatio false (2 ^ 52 + 1) 4) = ⟨11258999068426243, -1⟩
    ∧ shortest .even (.ofRatio false (2 ^ 52 + 1) 4)
      = ⟨11258999068426242, -1⟩ := by decide +kernel

end Decimal

end RegisterMachine
