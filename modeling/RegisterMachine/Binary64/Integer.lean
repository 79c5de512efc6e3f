import RegisterMachine.Binary64.Basic
import RegisterMachine.Binary64.Round

/-!
# Whole numbers among the doubles

The machine counts in signed sixty-four bit words. An operand is usable only
if its exact value is one of them, so the test is made on the exact value
`significand · 2 ^ exponent` and nothing is rounded or cut off.

The other way round, a whole number in double precision keeps fifty-three
significant bits. Below `2 ^ 53` that is all of them
(`Binary64.nearestInt_of_natAbs_lt`), and no number crosses a limit below
`2 ^ 53` by being rounded (`Binary64.le_nearestInt_iff`).
-/

namespace RegisterMachine.Binary64

-- powers are those of the core library, whatever else is in scope
attribute [local instance (high)] instPowNat

/-- **The exact value of a finite number that is whole**, without its
sign. -/
def natAbs? (x : Binary64) : Option Nat :=
  if x.isFinite then
    let d := 2 ^ (-x.exponent).toNat
    if x.significand % d = 0 then
      some (x.significand / d * 2 ^ x.exponent.toNat)
    else none
  else none

/-- **The exact value of a finite number that is whole.** Either zero gives
zero. -/
def toInt? (x : Binary64) : Option Int :=
  x.natAbs?.map fun n : Nat => if x.negative then -(n : Int) else n

/-- **The exact value as a machine word**, if it is a whole number in
range. -/
def toInt64? (x : Binary64) : Option Int64 :=
  x.toInt?.bind fun n =>
    if -2 ^ (63 : Nat) ≤ n ∧ n < 2 ^ (63 : Nat) then some (Int64.ofInt n)
    else none

/-- A number that is not finite has no integer value. -/
theorem toInt?_of_not_isFinite {x : Binary64} (h : x.isFinite = false) :
    x.toInt? = none := by
  simp [toInt?, natAbs?, h]

/-! ## Fifty-three significant bits -/

/-- **A natural number in double precision**: the nearest one with at most
fifty-three significant bits, a tie going to the even neighbour. -/
def nearestNat (n : Nat) : Nat :=
  let unit := 2 ^ (n.log2 - 52)
  roundDiv n unit * unit

/-- **An integer in double precision.** The sign takes no part in the
rounding. -/
def nearestInt (n : Int) : Int :=
  if n < 0 then -(nearestNat n.natAbs : Int) else nearestNat n.natAbs

/-- A number of at most fifty-three bits is left as it is. -/
theorem nearestNat_of_lt {n : Nat} (h : n < 2 ^ (53 : Nat)) :
    nearestNat n = n := by
  have hlog : n.log2 - 52 = 0 := by
    by_cases hn : n = 0
    · simp [hn]
    · have := (Nat.log2_lt hn).mpr h
      omega
  have hone := roundDiv_mul n Nat.one_pos
  rw [Nat.mul_one] at hone
  simp [nearestNat, hlog, hone]

/-- A number of more bits does not fall below them. -/
theorem le_nearestNat {n : Nat} (h : 2 ^ (53 : Nat) ≤ n) :
    2 ^ (53 : Nat) ≤ nearestNat n := by
  have hn : n ≠ 0 := by omega
  have hlog : 53 ≤ n.log2 := (Nat.le_log2 hn).mpr h
  have hunit : 2 ^ n.log2 = 2 ^ (52 : Nat) * 2 ^ (n.log2 - 52) := by
    rw [← Nat.pow_add]
    congr 1
    omega
  have hdiv : 2 ^ (52 : Nat) ≤ n / 2 ^ (n.log2 - 52) := by
    rw [Nat.le_div_iff_mul_le (Nat.two_pow_pos _), ← hunit]
    exact Nat.log2_self_le hn
  have hround : n / 2 ^ (n.log2 - 52) ≤ roundDiv n (2 ^ (n.log2 - 52)) := by
    unfold roundDiv
    split
    · exact Nat.le_refl _
    · split <;> omega
  have htwo : 2 ≤ 2 ^ (n.log2 - 52) := by
    calc 2 = 2 ^ (1 : Nat) := rfl
      _ ≤ 2 ^ (n.log2 - 52) := Nat.pow_le_pow_right (by decide) (by omega)
  calc 2 ^ (53 : Nat) = 2 ^ (52 : Nat) * 2 := by decide
    _ ≤ nearestNat n := Nat.mul_le_mul (Nat.le_trans hdiv hround) htwo

/-- **An integer of at most fifty-three bits is left as it is.** -/
theorem nearestInt_of_natAbs_lt {n : Int} (h : n.natAbs < 2 ^ (53 : Nat)) :
    nearestInt n = n := by
  unfold nearestInt
  rw [nearestNat_of_lt h]
  split <;> omega

/-- **Rounding crosses no limit of at most fifty-three bits.** -/
theorem le_nearestInt_iff {d : Nat} (hd : d < 2 ^ (53 : Nat)) (n : Int) :
    (d : Int) ≤ nearestInt n ↔ (d : Int) ≤ n := by
  by_cases h : n.natAbs < 2 ^ (53 : Nat)
  · rw [nearestInt_of_natAbs_lt h]
  · have := le_nearestNat (Nat.le_of_not_lt h)
    unfold nearestInt
    split <;> omega

/-- Halfway between two neighbours the even one is nearest, below zero as
above. -/
example : nearestInt (2 ^ 53 + 1) = 2 ^ 53
    ∧ nearestInt (2 ^ 53 + 3) = 2 ^ 53 + 4
    ∧ nearestInt (-2 ^ 53 - 1) = -2 ^ 53 := by decide +kernel

/-- It is the exact value of the nearest number of the format, also where the
rounding carries into another bit. -/
example : ∀ n ∈ [0, -7, 2 ^ 53 - 1, 2 ^ 53 + 1, -2 ^ 54 + 1, 2 ^ 55 + 6,
      2 ^ 63 - 1, -2 ^ 63, -2 ^ 63 + 512, 2 ^ 64 - 1],
    (ofInt n).toInt? = some (nearestInt n) := by decide +kernel

end RegisterMachine.Binary64
