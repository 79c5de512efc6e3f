import Mathlib.Data.List.Nodup
import RegisterMachine.Debugger.Basic
import RegisterMachine.Proofs.Program.Listing

/-!
# The listing in view

The listing that a debugger shows is a window of the program. It begins half of
its lines in front of the counter, or at the first instruction if there are
fewer there, and ends with the program if that has not as many lines more. In
between nothing is left out, and everything is found from one fact: which entry
stands on the line at each place (`Debugger.getElem?_listing`).

A window of one line or more that begins at most half its lines in front of the
counter reaches past it, so an instruction at the counter is in view, and it is
marked once (`Debugger.listing_is_window`).
-/

namespace RegisterMachine.Debugger

/-- The index that the listing in view begins with. -/
def windowStart (d : Debugger) (lines : ℕ) : ℕ := d.machine.counter - lines / 2

/-- The entry that shows an instruction at an index. -/
def entryAt (d : Debugger) (index : ℕ) (i : Instruction) : ListingEntry :=
  ⟨index, i.text, index == d.machine.counter⟩

variable (d : Debugger) (lines : ℕ)

/-- **What stands on the line at a place**: the instruction as many places
behind the beginning of the window. -/
theorem getElem?_listing (j : ℕ) :
    (d.listing lines)[j]?
      = if j < lines then
          (d.machine.program.get? (d.windowStart lines + j)).map
            (d.entryAt (d.windowStart lines + j))
        else none := by
  unfold listing windowStart
  dsimp only
  rw [List.getElem?_map, List.getElem?_take, List.getElem?_drop,
    List.getElem?_zipIdx, Program.get?_eq_toList]
  split
  · rw [Option.map_map, Nat.zero_add]
    rfl
  · rfl

/-- **The indices in view** follow each other without a gap, from the beginning
of the window to its end or that of the program. -/
theorem map_index_listing :
    (d.listing lines).map ListingEntry.index
      = List.range' (d.windowStart lines)
        (min (d.windowStart lines + lines) d.machine.program.size
          - d.windowStart lines) := by
  refine List.ext_getElem? fun j => ?_
  rw [List.getElem?_map, getElem?_listing]
  set start := d.windowStart lines
  by_cases hin : j < lines ∧ start + j < d.machine.program.size
  · obtain ⟨i, hi⟩ := Option.ne_none_iff_exists'.mp fun hnone =>
      not_le.mpr hin.2 ((Program.get?_eq_none_iff _ _).mp hnone)
    rw [if_pos hin.1, hi, List.getElem?_range' (by omega), Nat.one_mul]
    rfl
  · have hnone : (if j < lines then
        (d.machine.program.get? (start + j)).map (d.entryAt (start + j))
        else none) = none := by
      split
      · next hj =>
        rw [(Program.get?_eq_none_iff _ _).mpr
          (not_lt.mp fun hlt => hin ⟨hj, hlt⟩)]
        rfl
      · rfl
    rw [hnone, List.getElem?_eq_none (by rw [List.length_range']; omega)]
    rfl

/-- **An entry in view shows the instruction at its index**, and whether the
counter is there. -/
theorem exists_eq_entryAt {e : ListingEntry} (he : e ∈ d.listing lines) :
    ∃ i, d.machine.program.get? e.index = some i ∧ e = d.entryAt e.index i := by
  obtain ⟨j, hj⟩ := List.mem_iff_getElem?.mp he
  rw [getElem?_listing, Option.ite_none_right_eq_some,
    Option.map_eq_some_iff] at hj
  obtain ⟨-, i, hi, rfl⟩ := hj
  exact ⟨i, hi, rfl⟩

/-- **The marked entries are those at the counter**, which is in view exactly if
it addresses an instruction and there is a line at all. -/
theorem countP_isCurrent :
    (d.listing lines).countP ListingEntry.isCurrent
      = if 1 ≤ lines ∧ d.machine.counter < d.machine.program.size then 1
        else 0 := by
  have hcount : (d.listing lines).countP ListingEntry.isCurrent
      = ((d.listing lines).map ListingEntry.index).count d.machine.counter := by
    rw [List.count, List.countP_map]
    refine List.countP_congr fun e he => ?_
    obtain ⟨i, -, heq⟩ := exists_eq_entryAt d lines he
    rw [heq]
    rfl
  have hmem : d.machine.counter ∈ (d.listing lines).map ListingEntry.index
      ↔ 1 ≤ lines ∧ d.machine.counter < d.machine.program.size := by
    rw [map_index_listing, List.mem_range'_1]
    unfold windowStart
    omega
  have hnodup : ((d.listing lines).map ListingEntry.index).Nodup := by
    rw [map_index_listing]
    exact List.nodup_range'
  rw [hcount, List.Nodup.count hnodup]
  simp only [hmem]

/-- **The listing in view is a window of the program.** It shows the
instructions from half its lines in front of the counter on, or from the first,
as many as there are lines, or up to the last. Each is shown with its index as
the numbered listing shows it on the line at that index. It is marked exactly if
the counter is at its index; so one entry is marked if the counter addresses an
instruction and there is a line at all, and otherwise none. -/
theorem listing_is_window :
    (d.listing lines).map ListingEntry.index
        = List.range' (d.machine.counter - lines / 2)
          (min (d.machine.counter - lines / 2 + lines) d.machine.program.size
            - (d.machine.counter - lines / 2))
      ∧ (∀ e ∈ d.listing lines,
          (Text.lines d.machine.program.listing.toList)[e.index]?
              = some (Text.padLeft 3 '0' (toString e.index) ++ ": "
                ++ e.text).toList
            ∧ (e.isCurrent = true ↔ e.index = d.machine.counter))
      ∧ (d.listing lines).countP ListingEntry.isCurrent
        = if 1 ≤ lines ∧ d.machine.counter < d.machine.program.size then 1
          else 0 := by
  refine ⟨d.map_index_listing lines, fun e he => ?_, d.countP_isCurrent lines⟩
  obtain ⟨i, hi, heq⟩ := exists_eq_entryAt d lines he
  refine ⟨?_, ?_⟩
  · rw [Program.getElem?_lines_listing hi, heq]
    rfl
  · rw [heq]
    exact beq_iff_eq

/-- A debugger with a program of four instructions, one step on. -/
def oneStepOn : Debugger :=
  (new (.new .standard) (.ofList [.ofInt .loadi 1, .ofInt .loadi 2,
    .ofInt .loadi 3, ⟨.hold, none⟩]) 0).step

/-- A window of one line has room for the current instruction alone, and it is
there. -/
theorem listing_of_one_line :
    (⟨1, "loadi 2", true⟩ : ListingEntry) ∈ oneStepOn.listing 1
      ∧ (Text.lines oneStepOn.machine.program.listing.toList)[1]?
        = some "001: loadi 2".toList
      ∧ (oneStepOn.listing 1).countP ListingEntry.isCurrent = 1 := by
  have hmem : (⟨1, "loadi 2", true⟩ : ListingEntry) ∈ oneStepOn.listing 1 := by
    decide +kernel
  have hrange : 1 ≤ 1
      ∧ oneStepOn.machine.counter < oneStepOn.machine.program.size := by
    decide +kernel
  obtain ⟨-, hshown, hmarked⟩ := oneStepOn.listing_is_window 1
  obtain ⟨hline, -⟩ := hshown _ hmem
  have htext : Text.padLeft 3 '0' (toString 1) ++ ": " ++ "loadi 2"
      = "001: loadi 2" := by decide +kernel
  rw [htext] at hline
  rw [if_pos hrange] at hmarked
  exact ⟨hmem, hline, hmarked⟩

end RegisterMachine.Debugger
