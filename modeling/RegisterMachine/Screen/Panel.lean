/-!
# Panels of a text screen

A screen is a grid of cells, each a character with a style, given as its rows
from the top. It is put together from panels: a box with a title in its upper
edge and lines of text inside, cut at the inner width and filled up to it.
The size of what is drawn never depends on the text
(`Panel.length_of_mem_draw`, `Panel.length_draw`).

`Panel.draw` is one painter of panels. A screen is put together from whatever a
painter paints.
-/

namespace RegisterMachine.Screen

/-- The colour of a character. -/
inductive Colour where
  /-- That of the terminal. -/
  | plain
  | yellow
  | white
  | darkGray
  | gray
  | cyan
  | green
  | magenta
  | red
  deriving DecidableEq, Repr

/-- **How a character is drawn.** -/
structure Style where
  /-- Its colour. -/
  colour : Colour
  /-- Whether it is bold. -/
  bold : Bool
  deriving DecidableEq, Repr

/-- The style of the terminal. -/
def Style.plain : Style := ⟨.plain, false⟩

/-- A colour, not bold. -/
def Style.of (colour : Colour) : Style := ⟨colour, false⟩

/-- **A cell of a screen.** -/
structure Cell where
  /-- What is drawn. -/
  glyph : Char
  /-- How it is drawn. -/
  style : Style
  deriving DecidableEq, Repr

/-- A row of cells, from the left. -/
abbrev Row := List Cell

/-- A text in one style. -/
def cells (style : Style) (text : String) : Row :=
  text.toList.map (⟨·, style⟩)

/-- **Cuts a row at a width, or fills it up to the width.** -/
def fit (width : Nat) (fill : Cell) (row : Row) : Row :=
  row.take width ++ List.replicate (width - row.length) fill

/-- **A line inside a panel**: what is written, and how the rest of the line
looks. -/
structure Line where
  /-- What is written. -/
  content : Row
  /-- The style of the blank rest. -/
  rest : Style
  deriving DecidableEq, Repr

/-- A line in one style from end to end. -/
def Line.uniform (style : Style) (text : String) : Line :=
  ⟨cells style text, style⟩

/-- The line as a row of a width. -/
def Line.draw (width : Nat) (l : Line) : Row :=
  fit width ⟨' ', l.rest⟩ l.content

/-- **A panel.** -/
structure Panel where
  /-- What stands in the upper edge. -/
  title : String
  /-- The style of the edge and the title. -/
  border : Style
  /-- The style where there is no line. -/
  background : Style
  /-- The lines, from the top. -/
  lines : List Line

namespace Panel

/-- The upper edge, with the title in it. -/
def top (p : Panel) (width : Nat) : Row :=
  ⟨'┌', p.border⟩
    :: fit (width - 2) ⟨'─', p.border⟩ (cells p.border p.title)
    ++ [⟨'┐', p.border⟩]

/-- The lower edge. -/
def bottom (p : Panel) (width : Nat) : Row :=
  ⟨'└', p.border⟩ :: fit (width - 2) ⟨'─', p.border⟩ [] ++ [⟨'┘', p.border⟩]

/-- **The inside of a panel**: so many rows, one a line as long as there are
lines. -/
def inner (p : Panel) (width height : Nat) : List Row :=
  (List.range height).map fun j =>
    (p.lines[j]?.getD ⟨[], p.background⟩).draw width

/-- A row of the inside between the left and the right edge. -/
def enclose (p : Panel) (row : Row) : Row :=
  ⟨'│', p.border⟩ :: row ++ [⟨'│', p.border⟩]

/-- **Draws a panel** of a width and a height, both at least two. -/
def draw (p : Panel) (width height : Nat) : List Row :=
  p.top width :: (p.inner (width - 2) (height - 2)).map p.enclose
    ++ [p.bottom width]

end Panel

/-- **How panels are painted**, each with a width and a height. -/
abbrev Painter := Panel → Nat → Nat → List Row

/-- Panels side by side. -/
def beside (left right : List Row) : List Row :=
  List.zipWith (· ++ ·) left right

/-! ## Sizes -/

@[simp] theorem length_fit (width : Nat) (fill : Cell) (row : Row) :
    (fit width fill row).length = width := by
  simp only [fit, List.length_append, List.length_take,
    List.length_replicate]
  omega

namespace Panel

/-- A panel has as many rows as it is high. -/
@[simp] theorem length_draw (p : Panel) (width : Nat) {height : Nat}
    (h : 2 ≤ height) : (p.draw width height).length = height := by
  simp only [draw, inner, List.length_append, List.length_cons,
    List.length_map, List.length_range, List.length_nil]
  omega

/-- Every row of a panel is as long as the panel is wide. -/
theorem length_of_mem_draw (p : Panel) {width : Nat} (h : 2 ≤ width)
    (height : Nat) {row : Row} (hrow : row ∈ p.draw width height) :
    row.length = width := by
  simp only [draw, List.cons_append, List.mem_cons, List.mem_append,
    List.mem_map, inner, List.mem_range, List.not_mem_nil, or_false] at hrow
  rcases hrow with rfl | ⟨_, ⟨_, _, rfl⟩, rfl⟩ | rfl <;>
    simp only [top, bottom, enclose, Line.draw, List.length_cons,
      List.length_append, length_fit, List.length_nil] <;> omega

end Panel

end RegisterMachine.Screen
