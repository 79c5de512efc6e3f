import RegisterMachine.Json.Reader
import RegisterMachine.Numeral

/-!
# Numbers in JSON

A number is first taken apart into its digits, and only then given a value.

A number without fraction and power that fits a word is an integer. Any other
is a real number, and it is *not* the nearest one in general: sixty-four bits
of digits are kept, a digit that no longer fits is dropped and counted as a
power of ten in front of the point and not at all behind it, and what is left
is scaled by powers of ten up to `10 ^ 308`, rounding each time. A number that
becomes infinite on the way is malformed.
-/

namespace RegisterMachine.Json

-- powers are those of the core library, whatever else is in scope
attribute [local instance (high)] instPowNat

/-- **The parts of a number as written.** -/
structure NumberText where
  /-- Whether a minus stands in front. -/
  negative : Bool
  /-- The digits in front of the point. -/
  whole : List Char
  /-- The digits behind the point; none if there is no point. -/
  fraction : List Char
  /-- The power of ten, if one is written. -/
  power : Option Int

/-- **A number read.** -/
inductive Number where
  /-- Not negative, and in a word. -/
  | natural (value : UInt64)
  /-- Negative, and in a word. -/
  | negative (value : Int64)
  /-- Anything else, negative zero included. -/
  | real (value : Binary64)
  deriving DecidableEq, Repr

/-! ## Taking a number apart -/

/-- The digits at the front of a text, and what follows. -/
def takeDigits (s : List Char) : List Char × List Char :=
  (s.takeWhile Char.isDigit, s.dropWhile Char.isDigit)

theorem length_takeDigits_snd_le (s : List Char) :
    (takeDigits s).2.length ≤ s.length :=
  (List.dropWhile_suffix Char.isDigit).length_le

/-- **At least one digit**; `ended` is the problem if the text ends
instead. -/
def someDigits (ended : Problem) (s : List Char) :
    Except Problem (Read (List Char) s) :=
  match s with
  | [] => .error ended
  | c :: t =>
    if c.isDigit then
      .ok ⟨c :: (takeDigits t).1, (takeDigits t).2,
        Nat.lt_succ_of_le (length_takeDigits_snd_le t)⟩
    else .error .malformed

/-- The digits in front of the point: a zero stands there alone. -/
def wholeDigits (ended : Problem) (s : List Char) :
    Except Problem (Read (List Char) s) := do
  let r ← someDigits ended s
  match r.value with
  | '0' :: _ :: _ => .error .malformed
  | _ => .ok r

/-- A sign in front of a power of ten. -/
def takePowerSign (s : List Char) :
    { r : Bool × List Char // r.2.length ≤ s.length } :=
  match s with
  | '-' :: t => ⟨(true, t), Nat.le_succ _⟩
  | '+' :: t => ⟨(false, t), Nat.le_succ _⟩
  | t => ⟨(false, t), Nat.le_refl _⟩

/-- What follows the whole digits: perhaps a fraction. -/
def optionalFraction (ended : Problem) (s : List Char) :
    Except Problem { r : List Char × List Char // r.2.length ≤ s.length } :=
  match s with
  | '.' :: t => (someDigits ended t).map fun r =>
      ⟨(r.value, r.rest), Nat.le_succ_of_le (Nat.le_of_lt r.shorter)⟩
  | t => .ok ⟨([], t), Nat.le_refl _⟩

/-- The digits of a power, behind its sign. -/
def powerDigits (ended : Problem) (t : List Char) :
    Except Problem { r : Int × List Char // r.2.length ≤ t.length } :=
  match takePowerSign t with
  | ⟨(negative, u), h⟩ => (someDigits ended u).map fun r =>
    let n : Int := ofDigits 10 r.value
    ⟨(if negative then -n else n, r.rest),
      Nat.le_trans (Nat.le_of_lt r.shorter) h⟩

/-- What follows the fraction: perhaps a power of ten. -/
def optionalPower (ended : Problem) (s : List Char) :
    Except Problem
      { r : Option Int × List Char // r.2.length ≤ s.length } :=
  match s with
  | [] => .ok ⟨(none, []), Nat.le_refl _⟩
  | c :: t =>
    if c = 'e' ∨ c = 'E' then
      (powerDigits ended t).map fun r =>
        ⟨(some r.1.1, r.1.2), Nat.le_succ_of_le r.2⟩
    else .ok ⟨(none, c :: t), Nat.le_refl _⟩

/-- **A number behind its sign.** -/
def numberText (ended : Problem) (negative : Bool) (s : List Char) :
    Except Problem (Read NumberText s) := do
  let w ← wholeDigits ended s
  let f ← optionalFraction ended w.rest
  let p ← optionalPower ended f.1.2
  .ok ⟨⟨negative, w.value, f.1.1, p.1.1⟩, p.1.2, by
    have := w.shorter
    have := f.2
    have := p.2
    omega⟩

/-! ## The value of a number -/

/-- Digits and a power of ten, on the way to a real number. -/
structure Scaled where
  /-- The digits that fit a word. -/
  significand : Nat
  /-- The power of ten that scales them. -/
  exponent : Int

/-- Whether one more digit still fits a word. -/
def fits (significand : Nat) (c : Char) : Bool :=
  decide (significand * 10 + digitValue c < 2 ^ (64 : Nat))

/-- **Takes in a digit in front of the point.** After the first that does not
fit, every digit is counted and dropped. -/
def Scaled.pushWhole (n : Scaled) (c : Char) : Scaled :=
  if n.exponent = 0 ∧ fits n.significand c then
    ⟨n.significand * 10 + digitValue c, 0⟩
  else ⟨n.significand, n.exponent + 1⟩

/-- **Takes in the digits behind the point**, up to the first that does not
fit. -/
def Scaled.pushFraction (n : Scaled) : List Char → Scaled
  | [] => n
  | c :: cs =>
    if fits n.significand c then
      pushFraction ⟨n.significand * 10 + digitValue c, n.exponent - 1⟩ cs
    else n

/-- The number nearest a power of ten. -/
def powerOfTen (n : Nat) : Binary64 := .ofRatio false (10 ^ n) 1

/-- **Scales by a power of ten**, in one multiplication or in divisions by at
most `10 ^ 308`, each rounded. -/
def scale (x : Binary64) (e : Int) : Except Problem Binary64 :=
  if _h : e.natAbs ≤ 308 then
    if 0 ≤ e then
      let y := x.mul (powerOfTen e.natAbs)
      if y.isInfinite then .error .malformed else .ok y
    else .ok (x.div (powerOfTen e.natAbs))
  else if x.isZero then .ok x
  else if 0 ≤ e then .error .malformed
  else scale (x.div (powerOfTen 308)) (e + 308)
termination_by e.natAbs
decreasing_by omega

namespace NumberText

/-- The digits of a number, scaled. -/
def scaled (t : NumberText) : Scaled :=
  (t.whole.foldl Scaled.pushWhole ⟨0, 0⟩).pushFraction t.fraction

/-- **The real number of a text.** -/
def real (t : NumberText) : Except Problem Number := do
  let x ← scale (.ofInt t.scaled.significand)
    (t.scaled.exponent + t.power.getD 0)
  .ok (.real (if t.negative then x.neg else x))

/-- Whether neither fraction nor power is written and no digit was
dropped. -/
def isInteger (t : NumberText) : Bool :=
  t.fraction.isEmpty && t.power.isNone && t.scaled.exponent == 0

/-- **The value of a number.** Negative zero and a negative number below the
least word are real. -/
def number (t : NumberText) : Except Problem Number :=
  let n := t.scaled.significand
  if t.isInteger then
    if !t.negative then .ok (.natural (UInt64.ofNat n))
    else if 0 < n ∧ n ≤ 2 ^ (63 : Nat) then
      .ok (.negative (Int64.ofInt (-n)))
    else t.real
  else t.real

end NumberText

/-- **A number behind its sign, with its value.** -/
def unsignedNumber (negative : Bool) : Reader Number := fun s => do
  let r ← numberText .truncated negative s
  let n ← r.value.number
  .ok (r.map fun _ => n)

namespace Number

/-- The number as an operand. -/
def toBinary64 : Number → Binary64
  | .natural n => .ofRatio false n.toNat 1
  | .negative n => .ofInt n.toInt
  | .real x => x

/-- The number as an integer, if it was written as one in range. -/
def toInt? : Number → Option Int
  | .natural n => some n.toNat
  | .negative n => some n.toInt
  | .real _ => none

end Number

end RegisterMachine.Json
