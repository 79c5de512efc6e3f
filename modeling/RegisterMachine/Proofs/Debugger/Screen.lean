import RegisterMachine.Debugger.Screen
import RegisterMachine.Proofs.Debugger.Window
import RegisterMachine.Proofs.Screen.Painter

/-!
# What a debugger shows on the screen

The two columns of the screen and the heights of the panels in them are fixed by
its size, and how many lines the listing and the registers are given is worked
out apart from that. Here both are held against each other: the part of the
screen inside the edges of a panel shows exactly the lines that were asked for,
row by row, and blanks below them, whatever paints the panels
(`Debugger.paintWith_shows_window`, `Debugger.screen_shows_window`).

As the listing is given eleven rows less than the screen has, and so eight at
least, the current instruction is always among them.
-/

namespace RegisterMachine

/-- **A register at an index** below the size, with its value. -/
theorem Registers.getElem?_entries (r : Registers) (i : ℕ) :
    r.entries[i]? = if i < r.size then some (i, r.read i) else none := by
  unfold entries read size
  rw [List.getElem?_map, List.getElem?_zipIdx, Array.getElem?_toList,
    Nat.zero_add]
  split
  · next h => rw [Array.getElem?_eq_getElem h]; rfl
  · next h => rw [Array.getElem?_eq_none (not_lt.mp h)]; rfl

namespace Debugger

open Screen

/-- The text of an entry of the listing, with a marker if it is current. -/
def entryText (e : ListingEntry) : String :=
  (if e.isCurrent then "▶ " else "  ")
    ++ Text.padLeft 3 '0' (toString e.index) ++ ": " ++ e.text

/-- The text of a register: its name and its value. -/
def registerText (r : Registers) (i : ℕ) : String :=
  Text.padLeft 4 ' '
      (if i = 0 then "ACC" else "R" ++ Text.padLeft 3 '0' (toString i))
    ++ ": " ++ toString (r.read i)

/-- The cell that marks the current instruction, bold and yellow. -/
def marker : Cell := ⟨'▶', ⟨.yellow, true⟩⟩

variable (d : Debugger) {width height lines : ℕ}

/-! ## The panels -/

/-- **The lines of the program panel** show the entries in view. -/
theorem glyphs_inner_programPanel :
    glyphs ((d.programPanel lines).inner width height)
      = (List.range height).map fun j =>
        cut width (((d.listing lines)[j]?.map entryText).getD "") := by
  rw [Panel.glyphs_inner]
  refine List.map_congr_left fun j _ => ?_
  unfold programPanel
  dsimp only
  rw [List.getElem?_map]
  cases (d.listing lines)[j]? with
  | none => exact map_glyph_draw_empty width .plain
  | some e => exact map_glyph_draw_uniform width _ (entryText e)

/-- A line of the listing begins with the marker if it is current, and with a
blank if it is not. -/
theorem head?_draw_listingLine (hwidth : 0 < width) (e : ListingEntry) :
    ((listingLine e).draw width).head?
      = some (if e.isCurrent then marker else ⟨' ', .plain⟩) := by
  unfold listingLine
  rw [String.append_assoc, String.append_assoc]
  cases e.isCurrent with
  | true =>
    exact head?_draw_uniform hwidth _
      (congrArg List.head? (String.toList_append ..))
  | false =>
    exact head?_draw_uniform hwidth _
      (congrArg List.head? (String.toList_append ..))

theorem length_listing_le : (d.listing lines).length ≤ lines := by
  unfold listing
  rw [List.length_map]
  exact List.length_take_le _ _

/-- **A test of first cells that tells the marker from a blank** holds for as
many rows of the program panel as there are current entries in view. -/
theorem countP_inner_programPanel (hwidth : 0 < width)
    (test : Option Cell → Bool) (hmarker : test (some marker) = true)
    (hblank : test (some ⟨' ', .plain⟩) = false) :
    ((d.programPanel lines).inner width lines).countP (fun row => test row.head?)
      = (d.listing lines).countP ListingEntry.isCurrent := by
  have hrest : ((⟨[], .plain⟩ : Line).draw width).head?
      = some ⟨' ', .plain⟩ := by
    obtain ⟨w, rfl⟩ : ∃ w, width = w + 1 := ⟨width - 1, by omega⟩
    rfl
  have hlines : (d.programPanel lines).lines.length ≤ lines := by
    unfold programPanel
    rw [List.length_map]
    exact d.length_listing_le
  have hno : ¬test ((⟨[], (d.programPanel lines).background⟩ :
      Line).draw width).head? = true := by
    show ¬test ((⟨[], .plain⟩ : Line).draw width).head? = true
    rw [hrest, hblank]
    exact Bool.false_ne_true
  rw [Panel.inner_eq _ hlines, List.countP_append, List.countP_replicate,
    if_neg hno, Nat.add_zero]
  unfold programPanel
  rw [List.map_map, List.countP_map]
  refine List.countP_congr fun e _ => ?_
  show test ((listingLine e).draw width).head? = true ↔ _
  rw [head?_draw_listingLine hwidth]
  cases e.isCurrent with
  | true => exact iff_of_true hmarker rfl
  | false => exact iff_of_false (ne_true_of_eq_false hblank) Bool.false_ne_true

/-- **The lines of the registers panel** show the registers from the scroll
position on. -/
theorem glyphs_inner_registersPanel :
    glyphs ((d.registersPanel lines).inner width lines)
      = (List.range lines).map fun j =>
        cut width
          (if min d.scroll d.machine.registers.size + j
              < d.machine.registers.size then
            registerText d.machine.registers
              (min d.scroll d.machine.registers.size + j)
          else "") := by
  rw [Panel.glyphs_inner]
  refine List.map_congr_left fun j hj => ?_
  unfold registersPanel
  dsimp only
  rw [List.getElem?_map, List.getElem?_take, List.getElem?_drop,
    if_pos (List.mem_range.mp hj), Registers.getElem?_entries]
  by_cases hin : d.scroll + j < d.machine.registers.size
  · rw [Nat.min_eq_left (by omega), if_pos hin, if_pos hin]
    exact map_glyph_draw_uniform width _ (registerText _ _)
  · rw [if_neg hin, if_neg (by omega)]
    exact map_glyph_draw_empty width .plain

/-- The lines of the program are narrow. -/
theorem isNarrow_programPanel : (d.programPanel lines).IsNarrow := by
  intro l hl
  obtain ⟨e, he, rfl⟩ := List.mem_map.mp hl
  obtain ⟨i, -, rfl⟩ := List.mem_map.mp he
  have hmarker : ∀ isCurrent : Bool,
      Text.IsNarrow (if isCurrent then "▶ " else "  ") := by
    intro isCurrent
    cases isCurrent <;> exact Text.isNarrow_of_all (by decide)
  have hcolon : Text.IsNarrow ": " := Text.isNarrow_of_all (by decide)
  have hline := (((hmarker (i.2 == d.machine.counter)).append
    (Text.isNarrow_index i.2)).append hcolon).append i.1.isNarrow_text
  exact isNarrowChar_of_mem_uniform hline _

/-- The lines of the registers are narrow. -/
theorem isNarrow_registersPanel : (d.registersPanel lines).IsNarrow := by
  intro l hl
  obtain ⟨e, -, rfl⟩ := List.mem_map.mp hl
  have hname : Text.IsNarrow
      (if e.1 = 0 then "ACC" else "R" ++ Text.index e.1) := by
    split
    · exact Text.isNarrow_of_all (by decide)
    · exact (Text.isNarrow_of_all (by decide)).append (Text.isNarrow_index e.1)
  have hblank : Text.IsNarrowChar ' ' := by decide
  have hcolon : Text.IsNarrow ": " := Text.isNarrow_of_all (by decide)
  have hvalue : Text.IsNarrow (toString e.2) :=
    Text.isNarrow_toString_int e.2.toInt
  have hline :=
    ((Text.isNarrow_padLeft hblank hname 4).append hcolon).append hvalue
  exact isNarrowChar_of_mem_uniform hline _

/-! ## The columns -/

/-- The part of a screen inside the edges of the program panel, at the top of a
left column three fifths wide. -/
def insideProgram (rows : List Row) (width height : ℕ) : List Row :=
  region rows 1 1 (3 * (width / 5) - 2) (height - 11)

/-- The part of a screen inside the edges of the registers panel, at the top of a
right column two fifths wide. -/
def insideRegisters (rows : List Row) (width height : ℕ) : List Row :=
  region rows (3 * (width / 5) + 1) 1 (2 * (width / 5) - 2) (height - 7)

/-- What is drawn inside the program panel. -/
def programArea (width height : ℕ) : List Row :=
  insideProgram (d.draw width height) width height

/-- What is drawn inside the registers panel. -/
def registersArea (width height : ℕ) : List Row :=
  insideRegisters (d.draw width height) width height

section Painted

variable {paint : Painter} (hpaint : IsPainter paint)

/-- The columns of a screen that is five times as wide as some number are three
and two times as wide. -/
theorem paintWith_eq_beside (paint : Painter) (k height : ℕ) :
    d.paintWith paint (5 * k) height
      = beside (d.leftColumn paint (3 * k) height)
        (d.rightColumn paint (2 * k) height) := by
  have hleft : 5 * k * 3 / 5 = 3 * k := by omega
  have hright : 5 * k - 3 * k = 2 * k := by omega
  unfold paintWith
  dsimp only
  rw [hleft, hright]

include hpaint

theorem length_leftColumn (hwidth : 2 ≤ width) (hheight : 19 ≤ height) :
    (d.leftColumn paint width height).length = height := by
  unfold leftColumn
  rw [List.length_append, List.length_append,
    hpaint.length_eq _ hwidth (by omega), hpaint.length_eq _ hwidth (by omega),
    hpaint.length_eq _ hwidth (by omega)]
  omega

theorem length_rightColumn (hwidth : 2 ≤ width) (hheight : 19 ≤ height) :
    (d.rightColumn paint width height).length = height := by
  unfold rightColumn
  rw [List.length_append, hpaint.length_eq _ hwidth (by omega),
    hpaint.length_eq _ hwidth (by omega)]
  omega

theorem length_of_mem_leftColumn (hwidth : 2 ≤ width) (hheight : 19 ≤ height)
    {row : Row} (h : row ∈ d.leftColumn paint width height) :
    row.length = width := by
  unfold leftColumn at h
  rw [List.mem_append, List.mem_append] at h
  rcases h with (h | h) | h <;>
    exact hpaint.length_of_mem _ hwidth (by omega) _ h

theorem length_of_mem_rightColumn (hwidth : 2 ≤ width) (hheight : 19 ≤ height)
    {row : Row} (h : row ∈ d.rightColumn paint width height) :
    row.length = width := by
  unfold rightColumn at h
  rw [List.mem_append] at h
  rcases h with h | h <;> exact hpaint.length_of_mem _ hwidth (by omega) _ h

/-- The two columns are of one height. -/
theorem length_leftColumn_eq {k : ℕ} (hk : 0 < k) (hheight : 19 ≤ height) :
    (d.leftColumn paint (3 * k) height).length
      = (d.rightColumn paint (2 * k) height).length :=
  (d.length_leftColumn hpaint (by omega) hheight).trans
    (d.length_rightColumn hpaint (by omega) hheight).symm

/-- **The screen is filled**: it has as many rows as it is high, each of as many
cells as it is wide. -/
theorem length_paintWith {k : ℕ} (hk : 0 < k) (hheight : 19 ≤ height) :
    (d.paintWith paint (5 * k) height).length = height
      ∧ ∀ row ∈ d.paintWith paint (5 * k) height, row.length = 5 * k := by
  have hwidth : 2 ≤ 3 * k := by omega
  have hleft := d.length_leftColumn hpaint hwidth hheight
  rw [paintWith_eq_beside]
  refine ⟨?_, fun row hrow => ?_⟩
  · unfold beside
    rw [List.length_zipWith, ← d.length_leftColumn_eq hpaint hk hheight, hleft,
      Nat.min_self]
  · obtain ⟨a, ha, b, hb, rfl⟩ := mem_beside hrow
    rw [List.length_append, d.length_of_mem_leftColumn hpaint (by omega) hheight ha,
      d.length_of_mem_rightColumn hpaint (by omega) hheight hb]
    omega

/-- **Inside the program panel** there are its lines. -/
theorem insideProgram_paintWith {k : ℕ} (hk : 0 < k) (hheight : 19 ≤ height) :
    insideProgram (d.paintWith paint (5 * k) height) (5 * k) height
      = (d.programPanel (height - 11)).inner (3 * k - 2) (height - 11) := by
  unfold insideProgram
  rw [Nat.mul_div_cancel_left k (by decide), paintWith_eq_beside,
    region_beside_left (d.length_leftColumn_eq hpaint hk hheight) fun a ha => by
      rw [d.length_of_mem_leftColumn hpaint (by omega) hheight ha]
      omega]
  unfold leftColumn
  rw [List.append_assoc]
  have hrows : 2 ≤ height - 9 := by omega
  exact hpaint.region_append d.isNarrow_programPanel (by omega) hrows _

/-- **Inside the registers panel** there are its lines. -/
theorem insideRegisters_paintWith {k : ℕ} (hk : 0 < k) (hheight : 19 ≤ height) :
    insideRegisters (d.paintWith paint (5 * k) height) (5 * k) height
      = (d.registersPanel (height - 7)).inner (2 * k - 2) (height - 7) := by
  unfold insideRegisters
  rw [Nat.mul_div_cancel_left k (by decide), paintWith_eq_beside,
    region_beside_right (d.length_leftColumn_eq hpaint hk hheight)
      fun a ha => d.length_of_mem_leftColumn hpaint (by omega) hheight ha]
  have hrows : 2 ≤ height - 5 := by omega
  exact hpaint.region_append d.isNarrow_registersPanel (by omega) hrows _

/-- **The screen shows the window around the counter and the registers from the
scroll position on**, whatever paints its panels. -/
theorem paintWith_shows_window (hwidth : 0 < width) (hfive : 5 ∣ width)
    (hheight : 19 ≤ height) :
    let rows := d.paintWith paint width height
    ((rows).length = height
        ∧ ∀ row ∈ rows, row.length = width)
      ∧ glyphs (insideProgram rows width height)
        = (List.range (height - 11)).map (fun j => cut (3 * (width / 5) - 2)
          (((d.listing (height - 11))[j]?.map entryText).getD ""))
      ∧ (insideProgram rows width height).countP
          (fun row => row.head? == some ⟨'▶', ⟨.yellow, true⟩⟩)
        = (if d.machine.counter < d.machine.program.size then 1 else 0)
      ∧ (insideProgram rows width height).countP
          (fun row => row.head?.map Cell.glyph == some '▶')
        = (if d.machine.counter < d.machine.program.size then 1 else 0)
      ∧ glyphs (insideRegisters rows width height)
        = (List.range (height - 7)).map fun j => cut (2 * (width / 5) - 2)
          (if min d.scroll d.machine.registers.size + j
              < d.machine.registers.size then
            registerText d.machine.registers
              (min d.scroll d.machine.registers.size + j)
          else "") := by
  intro rows
  obtain ⟨k, rfl⟩ := hfive
  have hk : 0 < k := by omega
  have hdiv : 5 * k / 5 = k := by omega
  have hmarked : (d.listing (height - 11)).countP ListingEntry.isCurrent
      = if d.machine.counter < d.machine.program.size then 1 else 0 := by
    rw [countP_isCurrent]
    exact if_congr (and_iff_right (by omega)) rfl rfl
  rw [d.insideProgram_paintWith hpaint hk hheight,
    d.insideRegisters_paintWith hpaint hk hheight, hdiv]
  refine ⟨d.length_paintWith hpaint hk hheight, d.glyphs_inner_programPanel, ?_, ?_,
    d.glyphs_inner_registersPanel⟩
  · rw [← hmarked]
    exact d.countP_inner_programPanel (by omega) (fun c => c == some marker)
      (by decide) (by decide)
  · rw [← hmarked]
    exact d.countP_inner_programPanel (by omega)
      (fun c => c.map Cell.glyph == some '▶') (by decide) (by decide)

end Painted

/-- **The screen shows the window around the counter and the registers from the
scroll position on.** On a screen whose width is a positive multiple of five and
whose height is at least nineteen, there are as many rows as it is high, each of
as many cells as it is wide. Inside the program panel the row at each place shows
the entry there of the listing of `height - 11` lines, cut at the width of the
panel, or is blank if there is none; the marker stands at the beginning of one
row if the counter addresses an instruction, bold and yellow, and otherwise of
none. Inside the registers panel the rows show the registers from the scroll
position on, or from the size if that is less, with their values, and are blank
past the last. -/
theorem screen_shows_window (hwidth : 0 < width) (hfive : 5 ∣ width)
    (hheight : 19 ≤ height) :
    ((d.draw width height).length = height
        ∧ ∀ row ∈ d.draw width height, row.length = width)
      ∧ glyphs (d.programArea width height)
        = (List.range (height - 11)).map (fun j => cut (3 * (width / 5) - 2)
          (((d.listing (height - 11))[j]?.map entryText).getD ""))
      ∧ (d.programArea width height).countP
          (fun row => row.head? == some ⟨'▶', ⟨.yellow, true⟩⟩)
        = (if d.machine.counter < d.machine.program.size then 1 else 0)
      ∧ (d.programArea width height).countP
          (fun row => row.head?.map Cell.glyph == some '▶')
        = (if d.machine.counter < d.machine.program.size then 1 else 0)
      ∧ glyphs (d.registersArea width height)
        = (List.range (height - 7)).map fun j => cut (2 * (width / 5) - 2)
          (if min d.scroll d.machine.registers.size + j
              < d.machine.registers.size then
            registerText d.machine.registers
              (min d.scroll d.machine.registers.size + j)
          else "") :=
  d.paintWith_shows_window isPainter_draw hwidth hfive hheight

/-- On forty columns the current instruction is marked on the second row, and the
registers panel begins with the accumulator. -/
theorem screen_of_forty_columns :
    (0 < 40 ∧ 5 ∣ 40 ∧ 19 ≤ 19)
      ∧ (oneStepOn.draw 40 19).length = 19
      ∧ (glyphs (oneStepOn.programArea 40 19))[1]?
        = some "▶ 001: loadi 2        ".toList
      ∧ (oneStepOn.programArea 40 19).countP
          (fun row => row.head? == some ⟨'▶', ⟨.yellow, true⟩⟩) = 1
      ∧ (glyphs (oneStepOn.registersArea 40 19))[0]?
        = some " ACC: 1       ".toList := by
  have hin : oneStepOn.machine.counter < oneStepOn.machine.program.size := by
    decide +kernel
  obtain ⟨⟨hlength, -⟩, hprogram, hmarked, -, hregisters⟩ :=
    @screen_shows_window oneStepOn 40 19 (by decide) (by decide) (by decide)
  refine ⟨by decide, hlength, ?_, ?_, ?_⟩
  · refine (congrArg (·[1]?) hprogram).trans ?_
    decide +kernel
  · rw [if_pos hin] at hmarked
    exact hmarked
  · refine (congrArg (·[0]?) hregisters).trans ?_
    decide +kernel

end Debugger

end RegisterMachine
