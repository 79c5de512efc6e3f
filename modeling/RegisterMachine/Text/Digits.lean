/-!
# Digits

Numbers are read and written in positional notation. A digit is an ASCII
character; the letters of the hexadecimal digits count in either case when
they are read.
-/

namespace RegisterMachine

/-- **The value of an ASCII digit**, decimal or hexadecimal in either case;
sixteen for any other character. -/
def digitValue (c : Char) : Nat :=
  if '0' ≤ c ∧ c ≤ '9' then c.toNat - '0'.toNat
  else if 'a' ≤ c ∧ c ≤ 'f' then c.toNat - 'a'.toNat + 10
  else if 'A' ≤ c ∧ c ≤ 'F' then c.toNat - 'A'.toNat + 10
  else 16

/-- Whether a character is a digit of a radix up to sixteen. -/
def isDigitOf (radix : Nat) (c : Char) : Bool :=
  decide (digitValue c < radix)

/-- **The number that a string of digits spells** in a radix. -/
def ofDigits (radix : Nat) (s : List Char) : Nat :=
  s.foldl (fun n c => radix * n + digitValue c) 0

/-- The decimal digits of a number, most significant first; zero has one. -/
def decimalDigits (n : Nat) : List Char := Nat.toDigits 10 n

/-- How many decimal digits a number has; zero has one. -/
def digitCount (n : Nat) : Nat := (decimalDigits n).length

/-- How many zeros stand at the end of a number's decimal digits. -/
def trailingZeros (n : Nat) : Nat :=
  ((decimalDigits n).reverse.takeWhile (· == '0')).length

@[simp] theorem ofDigits_nil (radix : Nat) : ofDigits radix [] = 0 := rfl

/-- A further digit shifts what stands in front of it. -/
theorem ofDigits_append_singleton (radix : Nat) (s : List Char) (c : Char) :
    ofDigits radix (s ++ [c]) = radix * ofDigits radix s + digitValue c := by
  simp [ofDigits]

end RegisterMachine
