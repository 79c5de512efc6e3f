import RegisterMachine.Proofs.Screen.Region
import RegisterMachine.Proofs.Text.Narrow

/-!
# What is asked of a painter

Panels are painted by a library, and what is said here of a screen is said of any
painter that keeps to its documentation (`Screen.IsPainter`): it fills the width
and the height that it is given, and inside the edges of a panel it puts the
panel's lines, one below the other, each cut at the inner width or blank up to it.
What the edges look like is left to it, and so is a line with a character of two
columns or of none.

`Panel.draw` is such a painter (`Screen.isPainter_draw`).
-/

namespace RegisterMachine.Screen

variable {paint : Painter} {p : Panel} {width height : ℕ}

/-- **A panel of narrow lines.** -/
def Panel.IsNarrow (p : Panel) : Prop :=
  ∀ l ∈ p.lines, ∀ c ∈ l.content, Text.IsNarrowChar c.glyph

/-- A line in one style is narrow if its text is. -/
theorem isNarrowChar_of_mem_uniform {text : String} (h : Text.IsNarrow text)
    (style : Style) :
    ∀ c ∈ (Line.uniform style text).content, Text.IsNarrowChar c.glyph := by
  intro c hc
  obtain ⟨g, hg, rfl⟩ := List.mem_map.mp hc
  exact h g hg

/-- **A painter of panels**, at least two columns wide and two rows high. -/
structure IsPainter (paint : Painter) : Prop where
  /-- There are as many rows as the panel is to be high. -/
  length_eq : ∀ (p : Panel) {width height : ℕ}, 2 ≤ width → 2 ≤ height →
    (paint p width height).length = height
  /-- Each row is as long as the panel is to be wide. -/
  length_of_mem : ∀ (p : Panel) {width height : ℕ}, 2 ≤ width → 2 ≤ height →
    ∀ row ∈ paint p width height, row.length = width
  /-- Inside the edges are the lines, if they are narrow. -/
  region_eq : ∀ {p : Panel} {width height : ℕ}, p.IsNarrow → 2 ≤ width →
    2 ≤ height →
    region (paint p width height) 1 1 (width - 2) (height - 2)
      = p.inner (width - 2) (height - 2)

/-- **Inside its edges a panel shows its lines**, whatever stands below it. -/
theorem IsPainter.region_append (hpaint : IsPainter paint) (hp : p.IsNarrow)
    (hwidth : 2 ≤ width) (hheight : 2 ≤ height) (rows : List Row) :
    region (paint p width height ++ rows) 1 1 (width - 2) (height - 2)
      = p.inner (width - 2) (height - 2) := by
  rw [← hpaint.region_eq hp hwidth hheight]
  have hlength := hpaint.length_eq p hwidth hheight
  unfold region
  rw [List.drop_append_of_le_length (by omega),
    List.take_append_of_le_length (by rw [List.length_drop]; omega)]

/-- **Panels are drawn as is asked of a painter.** -/
theorem isPainter_draw : IsPainter Panel.draw where
  length_eq p _ _ _ hheight := p.length_draw _ hheight
  length_of_mem p _ height hwidth _ _ hrow :=
    p.length_of_mem_draw hwidth height hrow
  region_eq _ _ _ := Panel.region_draw _

end RegisterMachine.Screen
