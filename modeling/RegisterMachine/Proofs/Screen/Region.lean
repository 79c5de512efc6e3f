import Mathlib.Data.List.Basic
import RegisterMachine.Screen.Panel

/-!
# What is seen in a part of a screen

A part of a screen is cut out by its corner and its size (`Screen.region`). The
part inside the edges of a panel holds the panel's lines and nothing else
(`Panel.region_draw`), and a part on one side of two columns is a part of the
column on that side (`Screen.region_beside_left`, `Screen.region_beside_right`).
Together these find the lines of a panel again on the whole screen.

A line is seen as its text, cut at the width of the part or followed by blanks
up to it (`Screen.cut`).
-/

namespace RegisterMachine.Screen

/-- **A part of a screen**: so many columns and rows from a corner on. -/
def region (rows : List Row) (left top width height : ℕ) : List Row :=
  ((rows.drop top).take height).map fun row => (row.drop left).take width

/-- The characters of a part of a screen, row by row. -/
def glyphs (rows : List Row) : List (List Char) :=
  rows.map fun row => row.map Cell.glyph

/-- **A text in so many columns**, cut or followed by blanks. -/
def cut (width : ℕ) (text : String) : List Char :=
  (text.toList ++ List.replicate width ' ').take width

/-! ## Lines -/

theorem map_glyph_cells (style : Style) (text : String) :
    (cells style text).map Cell.glyph = text.toList := by
  unfold cells
  rw [List.map_map]
  exact List.map_id _

/-- **A line shows its text**, and blanks behind it. -/
theorem map_glyph_draw_uniform (width : ℕ) (style : Style) (text : String) :
    ((Line.uniform style text).draw width).map Cell.glyph = cut width text := by
  have hlength : (cells style text).length = text.toList.length :=
    List.length_map ..
  unfold Line.draw Line.uniform fit cut
  rw [List.map_append, List.map_take, map_glyph_cells, List.map_replicate,
    List.take_append, List.take_replicate, hlength,
    Nat.min_eq_left (Nat.sub_le ..)]

/-- A line without text is blank. -/
theorem map_glyph_draw_empty (width : ℕ) (style : Style) :
    ((⟨[], style⟩ : Line).draw width).map Cell.glyph = cut width "" :=
  map_glyph_draw_uniform width style ""

/-- **The first cell of a line** is that of its text. -/
theorem head?_draw_uniform {width : ℕ} (hwidth : 0 < width) (style : Style)
    {text : String} {c : Char} (htext : text.toList.head? = some c) :
    ((Line.uniform style text).draw width).head? = some ⟨c, style⟩ := by
  obtain ⟨w, rfl⟩ : ∃ w, width = w + 1 := ⟨width - 1, by omega⟩
  obtain ⟨cs, hcs⟩ := List.head?_eq_some_iff.mp htext
  unfold Line.draw Line.uniform fit cells
  rw [hcs]
  rfl

/-! ## Panels -/

namespace Panel

variable (p : Panel) {width height : ℕ}

theorem length_of_mem_inner {row : Row} (h : row ∈ p.inner width height) :
    row.length = width := by
  obtain ⟨j, -, rfl⟩ := List.mem_map.mp h
  exact length_fit ..

/-- **Inside its edges a panel that is drawn shows its lines.** -/
theorem region_draw :
    region (p.draw width height) 1 1 (width - 2) (height - 2)
      = p.inner (width - 2) (height - 2) := by
  have hlength : ((p.inner (width - 2) (height - 2)).map p.enclose).length
      = height - 2 := by
    unfold inner
    rw [List.length_map, List.length_map, List.length_range]
  unfold region draw
  rw [List.cons_append, List.drop_succ_cons, List.drop_zero,
    List.take_left' hlength, List.map_map]
  refine (List.map_congr_left fun row hrow => ?_).trans (List.map_id _)
  show (row ++ [(⟨'│', p.border⟩ : Cell)]).take (width - 2) = row
  exact List.take_left' (p.length_of_mem_inner hrow)

/-- **The line on each row of the inside.** -/
theorem glyphs_inner :
    glyphs (p.inner width height)
      = (List.range height).map fun j =>
        ((p.lines[j]?.getD ⟨[], p.background⟩).draw width).map Cell.glyph := by
  unfold glyphs inner
  rw [List.map_map]
  rfl

/-- **Lines that fit into a panel** stand at its top, with blank rows below. -/
theorem inner_eq (h : p.lines.length ≤ height) :
    p.inner width height
      = p.lines.map (Line.draw width)
        ++ List.replicate (height - p.lines.length)
          ((⟨[], p.background⟩ : Line).draw width) := by
  refine List.ext_getElem? fun j => ?_
  unfold inner
  rw [List.getElem?_map]
  rcases Nat.lt_or_ge j p.lines.length with hj | hj
  · rw [List.getElem?_append_left (by rwa [List.length_map]),
      List.getElem?_range (by omega), List.getElem?_map, Option.map_some,
      List.getElem?_eq_getElem hj]
    rfl
  · rw [List.getElem?_append_right (by rwa [List.length_map]), List.length_map,
      List.getElem?_replicate]
    rcases Nat.lt_or_ge j height with hlt | hge
    · rw [List.getElem?_range hlt, if_pos (by omega), Option.map_some,
        List.getElem?_eq_none hj]
      rfl
    · rw [List.getElem?_eq_none (by rwa [List.length_range]),
        if_neg (by omega)]
      rfl

end Panel

/-! ## Columns -/

variable {left right : List Row}

/-- Two columns are asked row by row. -/
theorem map_beside {α : Type} (f : Row → α) (left right : List Row) :
    (beside left right).map f
      = (left.zip right).map fun e => f (e.1 ++ e.2) := by
  unfold beside
  rw [List.map_zipWith, ← List.map_uncurry_zip_eq_zipWith]
  rfl

theorem mem_beside {row : Row}
    (h : row ∈ beside left right) : ∃ a ∈ left, ∃ b ∈ right, row = a ++ b := by
  rw [← List.map_id (beside left right), map_beside] at h
  obtain ⟨e, he, rfl⟩ := List.mem_map.mp h
  obtain ⟨ha, hb⟩ := List.of_mem_zip he
  exact ⟨e.1, ha, e.2, hb, rfl⟩

theorem take_drop_beside (left right : List Row) (top height : ℕ) :
    ((beside left right).drop top).take height
      = beside ((left.drop top).take height)
        ((right.drop top).take height) := by
  unfold beside
  rw [List.drop_zipWith, List.take_zipWith]

/-- **A part that the left column is wide enough for** is a part of it. -/
theorem region_beside_left (hlength : left.length = right.length)
    {x width : ℕ} (hwidth : ∀ a ∈ left, x + width ≤ a.length)
    (top height : ℕ) :
    region (beside left right) x top width height
      = region left x top width height := by
  unfold region
  rw [take_drop_beside, map_beside]
  set l := (left.drop top).take height with hl
  set r := (right.drop top).take height with hr
  have hfst : (l.zip r).map Prod.fst = l :=
    List.map_fst_zip (by simp [hl, hr, hlength])
  conv_rhs => rw [← hfst, List.map_map]
  refine List.map_congr_left fun e he => ?_
  have hle := hwidth e.1 (List.mem_of_mem_drop
    (List.mem_of_mem_take (List.of_mem_zip he).1))
  rw [List.drop_append_of_le_length (by omega),
    List.take_append_of_le_length (by rw [List.length_drop]; omega)]
  rfl

/-- **A part behind the left column** is a part of the right one. -/
theorem region_beside_right (hlength : left.length = right.length)
    {x : ℕ} (hwidth : ∀ a ∈ left, a.length = x) (y top width height : ℕ) :
    region (beside left right) (x + y) top width height
      = region right y top width height := by
  unfold region
  rw [take_drop_beside, map_beside]
  set l := (left.drop top).take height with hl
  set r := (right.drop top).take height with hr
  have hsnd : (l.zip r).map Prod.snd = r :=
    List.map_snd_zip (by simp [hl, hr, hlength])
  conv_rhs => rw [← hsnd, List.map_map]
  refine List.map_congr_left fun e he => ?_
  have hx := hwidth e.1 (List.mem_of_mem_drop
    (List.mem_of_mem_take (List.of_mem_zip he).1))
  rw [← hx, List.drop_length_add_append]
  rfl

end RegisterMachine.Screen
