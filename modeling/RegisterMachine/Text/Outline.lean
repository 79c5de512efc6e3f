/-!
# Outlines

A state can be shown for inspection as nested parts with names. The same
outline is laid out on one line, or with every part on a line of its own,
four spaces an indent and a comma behind each part; an empty list stays on
its line.
-/

namespace RegisterMachine

/-- **A value taken apart for inspection.** -/
inductive Outline where
  /-- A part that is not taken apart further. -/
  | leaf (text : String)
  /-- Parts in parentheses. -/
  | tuple (parts : List Outline)
  /-- Parts in brackets. -/
  | list (parts : List Outline)
  /-- Named parts behind the name of the whole. -/
  | record (name : String) (fields : List (String × Outline))

namespace Outline

mutual

/-- **The outline on one line.** -/
def inline : Outline → String
  | .leaf text => text
  | .tuple parts => "(" ++ ", ".intercalate (inlineParts parts) ++ ")"
  | .list parts => "[" ++ ", ".intercalate (inlineParts parts) ++ "]"
  | .record name fields =>
    name ++ " \x7b " ++ ", ".intercalate (inlineFields fields) ++ " \x7d"

/-- Parts on one line each. -/
def inlineParts : List Outline → List String
  | [] => []
  | o :: os => inline o :: inlineParts os

/-- Named parts on one line each. -/
def inlineFields : List (String × Outline) → List String
  | [] => []
  | (name, o) :: fs => (name ++ ": " ++ inline o) :: inlineFields fs

end

/-- A line break and so many indents of four spaces. -/
def newline (depth : Nat) : String :=
  "\n" ++ String.ofList (List.replicate (4 * depth) ' ')

/-- Parts between two marks, each on a line of its own with a comma behind
it. -/
def stack (depth : Nat) (opening closing : String) (parts : List String) :
    String :=
  match parts with
  | [] => opening ++ closing
  | _ => opening
      ++ String.join (parts.map fun p => newline (depth + 1) ++ p ++ ",")
      ++ newline depth ++ closing

mutual

/-- **The outline with one part a line**, at a depth. -/
def stacked (depth : Nat) : Outline → String
  | .leaf text => text
  | .tuple parts => stack depth "(" ")" (stackedParts (depth + 1) parts)
  | .list parts => stack depth "[" "]" (stackedParts (depth + 1) parts)
  | .record name fields =>
    stack depth (name ++ " \x7b") "\x7d" (stackedFields (depth + 1) fields)

/-- The parts of an outline, stacked. -/
def stackedParts (depth : Nat) : List Outline → List String
  | [] => []
  | o :: os => stacked depth o :: stackedParts depth os

/-- The named parts of an outline, stacked. -/
def stackedFields (depth : Nat) : List (String × Outline) → List String
  | [] => []
  | (name, o) :: fs =>
    (name ++ ": " ++ stacked depth o) :: stackedFields depth fs

end

end Outline

end RegisterMachine
