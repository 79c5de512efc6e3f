/-!
# Blank characters

Source text is cut into words at blanks. A blank is any of the twenty-five
characters with the Unicode property `White_Space`; the five ASCII controls
and the space are the familiar ones, and a no-break space or an ideographic
space separates words just as well.
-/

namespace RegisterMachine.Text

/-- **The code points with the property `White_Space`**, as closed ranges in
increasing order. -/
def blankRanges : List (Nat × Nat) :=
  [(0x09, 0x0D), (0x20, 0x20), (0x85, 0x85), (0xA0, 0xA0),
   (0x1680, 0x1680), (0x2000, 0x200A), (0x2028, 0x2029),
   (0x202F, 0x202F), (0x205F, 0x205F), (0x3000, 0x3000)]

/-- Whether a character separates words. -/
def isBlank (c : Char) : Bool :=
  blankRanges.any fun r => r.1 ≤ c.toNat && c.toNat ≤ r.2

/-- The table holds twenty-five code points. -/
example : (blankRanges.map fun r => r.2 + 1 - r.1).sum = 25 := rfl

@[simp] theorem isBlank_newline : isBlank '\n' = true := rfl

@[simp] theorem isBlank_space : isBlank ' ' = true := rfl

end RegisterMachine.Text
