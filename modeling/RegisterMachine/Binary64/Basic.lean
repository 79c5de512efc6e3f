/-!
# Double-precision numbers

An operand is a number of the IEEE binary64 format, held as its sixty-four
bits. Below the sign bit the pattern is read as one natural number, the
*magnitude*: magnitudes are ordered as the absolute values they stand for,
the first infinite one closes the finite range, and anything above it is not
a number.

A finite magnitude stands for `significand · 2 ^ exponent`, and the two are
chosen so that one formula covers the subnormal numbers as well: the
exponent never falls below `-1074`, and the magnitude is
`(exponent + 1074) · 2 ^ 52 + significand`
(`Binary64.magnitude_eq_exponent_add_significand`).
-/

namespace RegisterMachine

-- powers are those of the core library, whatever else is in scope
attribute [local instance (high)] instPowNat

/-- **A binary64 number**, as its bit pattern. -/
structure Binary64 where
  /-- Sign, exponent field and fraction, from the top bit down. -/
  bits : UInt64
  deriving DecidableEq, Inhabited, Repr

namespace Binary64

/-- The sign bit. -/
def negative (x : Binary64) : Bool :=
  decide (2 ^ (63 : Nat) ≤ x.bits.toNat)

/-- The bits below the sign, as a number. -/
def magnitude (x : Binary64) : Nat :=
  x.bits.toNat % 2 ^ (63 : Nat)

/-- The magnitude of the two infinities. -/
def infiniteMagnitude : Nat := 2047 * 2 ^ (52 : Nat)

/-- Builds a number from its sign and its magnitude. -/
def ofMagnitude (negative : Bool) (magnitude : Nat) : Binary64 :=
  ⟨UInt64.ofNat (magnitude + if negative then 2 ^ (63 : Nat) else 0)⟩

/-- Zero, of either sign. -/
def zero (negative : Bool) : Binary64 := ofMagnitude negative 0

/-- Infinity, of either sign. -/
def infinity (negative : Bool) : Binary64 :=
  ofMagnitude negative infiniteMagnitude

/-- Whether the number is finite. -/
def isFinite (x : Binary64) : Bool := decide (x.magnitude < infiniteMagnitude)

/-- Whether the number is one of the two infinities. -/
def isInfinite (x : Binary64) : Bool := x.magnitude == infiniteMagnitude

/-- Whether the number is one of the two zeros. -/
def isZero (x : Binary64) : Bool := x.magnitude == 0

/-- **The significand** of a finite number: the fraction, with the implicit
bit in front of it unless the number is subnormal. -/
def significand (x : Binary64) : Nat :=
  if x.magnitude < 2 ^ (52 : Nat) then x.magnitude
  else x.magnitude % 2 ^ (52 : Nat) + 2 ^ (52 : Nat)

/-- **The exponent** of a finite number: the power of two that scales its
significand. -/
def exponent (x : Binary64) : Int :=
  (max (x.magnitude / 2 ^ (52 : Nat)) 1 : Nat) - 1075

/-- The number without its sign. -/
def abs (x : Binary64) : Binary64 := ofMagnitude false x.magnitude

/-- The number with the other sign. -/
def neg (x : Binary64) : Binary64 := ofMagnitude (!x.negative) x.magnitude

/-- **Equality of numbers**: the two zeros are equal, and nothing is equal to
a pattern that is not a number. -/
def numEq (x y : Binary64) : Bool :=
  (x.isZero && y.isZero)
    || (x == y && decide (x.magnitude ≤ infiniteMagnitude))

theorem magnitude_lt (x : Binary64) : x.magnitude < 2 ^ (63 : Nat) :=
  Nat.mod_lt _ (by decide)

@[simp] theorem magnitude_ofMagnitude (s : Bool) {n : Nat}
    (h : n < 2 ^ (63 : Nat)) :
    (ofMagnitude s n).magnitude = n := by
  cases s <;> simp [magnitude, ofMagnitude, UInt64.toNat_ofNat'] <;> omega

@[simp] theorem negative_ofMagnitude (s : Bool) {n : Nat}
    (h : n < 2 ^ (63 : Nat)) :
    (ofMagnitude s n).negative = s := by
  cases s <;> simp [negative, ofMagnitude, UInt64.toNat_ofNat'] <;> omega

/-- **Sign and magnitude are all there is to a number.** -/
@[simp] theorem ofMagnitude_negative_magnitude (x : Binary64) :
    ofMagnitude x.negative x.magnitude = x := by
  have hx := x.bits.toNat_lt
  cases x with
  | mk b =>
    simp only [ofMagnitude, negative, magnitude, mk.injEq] at hx ⊢
    apply UInt64.toNat_inj.mp
    rw [UInt64.toNat_ofNat']
    by_cases h : 2 ^ (63 : Nat) ≤ b.toNat <;> simp only [h, decide_true,
      decide_false, if_true, if_false, Bool.false_eq_true] <;> omega

@[simp] theorem magnitude_abs (x : Binary64) : x.abs.magnitude = x.magnitude :=
  magnitude_ofMagnitude _ x.magnitude_lt

@[simp] theorem negative_abs (x : Binary64) : x.abs.negative = false :=
  negative_ofMagnitude _ x.magnitude_lt

@[simp] theorem isFinite_abs (x : Binary64) : x.abs.isFinite = x.isFinite := by
  unfold isFinite
  rw [magnitude_abs]

/-- **The magnitude is linear in exponent and significand**, with no
exception for the subnormal numbers. -/
theorem magnitude_eq_exponent_add_significand (x : Binary64) :
    (x.magnitude : Int)
      = (x.exponent + 1074) * 2 ^ (52 : Nat) + x.significand := by
  unfold exponent significand
  split <;> omega

theorem significand_lt (x : Binary64) : x.significand < 2 ^ (53 : Nat) := by
  unfold significand
  split <;> omega

theorem neg_1074_le_exponent (x : Binary64) : -1074 ≤ x.exponent := by
  unfold exponent
  omega

end Binary64

end RegisterMachine
