/-!
# Columns of text

Numbers are written in columns: an index has at least three digits, a value
stands at the right of its field, a name at the left. A field that is too
narrow for its text grows; nothing is cut here.
-/

namespace RegisterMachine.Text

/-- The text at the right of a field of at least `width` characters. -/
def padLeft (width : Nat) (fill : Char) (s : String) : String :=
  String.ofList (List.replicate (width - s.length) fill) ++ s

/-- The text at the left of a field of at least `width` characters. -/
def padRight (width : Nat) (s : String) : String :=
  s ++ String.ofList (List.replicate (width - s.length) ' ')

/-- **An index in three digits**, more if it needs them. -/
def index (n : Nat) : String :=
  padLeft 3 '0' (toString n)

end RegisterMachine.Text
