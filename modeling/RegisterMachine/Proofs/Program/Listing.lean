import RegisterMachine.Proofs.Program.Reparse

/-!
# The lines of a numbered listing

A listing has one line for each instruction, for neither an index nor an
instruction is ever written with a line feed in it. So the line at an index can
be looked up in the text: it is the instruction there, behind its index.
-/

namespace RegisterMachine

namespace Program

/-- **A line of a listing is one line.** -/
theorem isNarrow_listingLine (i : Instruction) (index : ℕ) :
    Text.IsNarrow (listingLine i index) :=
  ((Text.isNarrow_index index).append (Text.isNarrow_of_all (by decide))).append
    i.isNarrow_text

/-- **The lines of the listing** are the instructions behind their indices, and
an empty one. -/
theorem lines_listing (p : Program) :
    Text.lines p.listing.toList
      = (p.toList.zipIdx.map fun e => (listingLine e.1 e.2).toList)
        ++ [[]] := by
  have htext : p.listing.toList
      = (p.toList.zipIdx.map fun e => (listingLine e.1 e.2).toList).flatMap
        (· ++ ['\n']) := by
    unfold listing
    rw [String.toList_join, List.flatMap_map, List.flatMap_map]
    exact List.flatMap_congr fun e _ => String.toList_append ..
  rw [htext, Text.lines_flatMap_newline]
  intro l hl
  obtain ⟨e, -, rfl⟩ := List.mem_map.mp hl
  exact (isNarrow_listingLine e.1 e.2).newline_notMem

/-- **The line at an index** shows the instruction there. -/
theorem getElem?_lines_listing {p : Program} {k : ℕ} {i : Instruction}
    (hi : p.get? k = some i) :
    (Text.lines p.listing.toList)[k]? = some (listingLine i k).toList := by
  rw [get?_eq_toList] at hi
  obtain ⟨hk, -⟩ := List.getElem?_eq_some_iff.mp hi
  rw [lines_listing, List.getElem?_append_left
    (by rwa [List.length_map, List.length_zipIdx]), List.getElem?_map,
    List.getElem?_zipIdx, hi, Nat.zero_add]
  rfl

end Program

end RegisterMachine
