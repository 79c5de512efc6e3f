import RegisterMachine.Proofs.Json.Number
import RegisterMachine.Registers.Json

/-!
# Register files that are read back from JSON

A register file is written as the array of its cells, and a cell is a signed
word, so the file can be made from its JSON value again, however long it is and
whatever it holds (`Registers.fromJson?_toJson`). The reader of register files
understands them (`Registers.understands_reader`).
-/

namespace RegisterMachine.Registers

open Json

variable {means : NumberText → Binary64 → Prop}

/-- A file has no real numbers. -/
theorem settle_toJson (r : Registers) :
    r.toJson.settle = r.toJson := by
  unfold toJson
  rw [settle_object]
  simp only [List.map_cons, List.map_nil, settle_array, List.map_map]
  rfl

/-- **A file is made from its own JSON value.** -/
theorem fromJson?_toJson (r : Registers) : fromJson? r.toJson = some r := by
  have hcells : ∀ cells : List Int64,
      (cells.map fun v => Json.int v.toInt).mapM toSignedWord?
        = some cells := by
    intro cells
    induction cells with
    | nil => rfl
    | cons v cells ih =>
      rw [List.map_cons, List.mapM_cons, toSignedWord?_toInt, ih]
      rfl
  have hput : put? none "cells"
      (.array (r.cells.toList.map fun v => .int v.toInt))
        = some (some r.cells.toList) := by
    unfold put?
    rw [if_pos ⟨rfl, rfl⟩, toList?_array, hcells]
    rfl
  unfold fromJson? toJson
  rw [toRecord?_object, putFields?_cons, hput]
  rfl

/-- The cells are understood. -/
theorem understandsFields : UnderstandsFields means field put? := by
  intro cells name value next h
  unfold put? at h
  obtain ⟨⟨rfl, hnone⟩, h⟩ := Option.ite_none_right_eq_some.mp h
  obtain rfl := Option.isNone_iff_eq_none.mp hnone
  exact ⟨_, _, rfl, understands_signedWord.elements.map some, h⟩

/-- **The reader of register files understands them.** -/
theorem understands_reader : Understands means reader fromJson? := by
  refine understands_record understandsFields fun cells r h => ?_
  obtain ⟨cells, rfl, rfl⟩ := Option.map_eq_some_iff.mp h
  rfl

end RegisterMachine.Registers
