import RegisterMachine.Program.Json
import RegisterMachine.Proofs.Json.Grammar

/-!
# Programs without operands that are not finite

The JSON text of a program does not quite determine the program: an operand
that is not finite is written as `null`, like one that is absent.
`Program.settle` takes such operands away, and it is the same to take them away
from the program or from its JSON value (`Program.settle_toJson`). Nothing else
is lost (`Program.toJson_injective`).

No instruction can use an operand that is not finite, so it is as good as none
(`Instruction.integerOperand?_settle`).
-/

namespace RegisterMachine

namespace Instruction

/-- **The instruction without an operand that is not finite.** -/
def settle (i : Instruction) : Instruction :=
  ⟨i.opcode, i.operand.filter Binary64.isFinite⟩

@[simp] theorem settle_settle (i : Instruction) :
    i.settle.settle = i.settle := by
  unfold settle
  rw [Option.filter_filter]
  simp only [Bool.and_self]

/-- **An operand that is not finite is as good as none.** -/
@[simp] theorem integerOperand?_settle (i : Instruction) :
    i.settle.integerOperand? = i.integerOperand? := by
  unfold integerOperand? settle
  cases i.operand with
  | none => rfl
  | some x =>
    cases hx : x.isFinite with
    | true => rw [Option.filter_some_pos hx]
    | false =>
      rw [Option.filter_some_neg (by rw [hx])]
      unfold Binary64.toInt64?
      rw [Option.bind_some, Binary64.toInt?_of_not_isFinite hx]
      rfl

theorem settle_toJson (i : Instruction) :
    i.toJson.settle = i.settle.toJson := by
  obtain ⟨op, operand⟩ := i
  cases operand with
  | none => rfl
  | some x =>
    unfold settle
    cases hx : x.isFinite with
    | true =>
      rw [Option.filter_some_pos hx]
      simp [toJson, Opcode.toJson, Json.settle, Json.mapReal, Json.mapRealFields,
        hx]
    | false =>
      rw [Option.filter_some_neg (by rw [hx])]
      simp [toJson, Opcode.toJson, Json.settle, Json.mapReal, Json.mapRealFields,
        hx]

theorem toJson_injective : Function.Injective toJson := by
  rintro ⟨op, x⟩ ⟨op', x'⟩ h
  simp only [toJson, Opcode.toJson, Json.object.injEq, List.cons.injEq,
    Prod.mk.injEq, Json.text.injEq, and_true, true_and] at h
  obtain ⟨hmnemonic, hoperand⟩ := h
  have hop : some op = some op' := by
    rw [← Opcode.ofMnemonic?_mnemonic op, hmnemonic,
      Opcode.ofMnemonic?_mnemonic op']
  have hx : x = x' := by
    cases x with
    | none =>
      cases x' with
      | none => rfl
      | some y => cases hoperand
    | some x =>
      cases x' with
      | none => cases hoperand
      | some y => exact congrArg some (Json.real.inj hoperand)
  rw [Option.some.inj hop, hx]

end Instruction

namespace Program

/-- The program with every instruction settled. -/
def settle (p : Program) : Program := ofList (p.toList.map Instruction.settle)

@[simp] theorem settle_settle (p : Program) : p.settle.settle = p.settle := by
  unfold settle
  rw [toList_ofList, List.map_map]
  exact congrArg ofList (List.map_congr_left fun i _ => i.settle_settle)

@[simp] theorem get?_settle (p : Program) (i : ℕ) :
    p.settle.get? i = (p.get? i).map Instruction.settle := by
  rw [get?_eq_toList, get?_eq_toList, settle, toList_ofList, List.getElem?_map]

theorem settle_toJson (p : Program) : p.toJson.settle = p.settle.toJson := by
  unfold toJson settle
  rw [Json.settle_array, toList_ofList, List.map_map, List.map_map]
  exact congrArg Json.array
    (List.map_congr_left fun i _ => i.settle_toJson)

theorem toJson_injective : Function.Injective toJson := by
  rintro ⟨p⟩ ⟨q⟩ h
  have hmap := Json.array.inj h
  have hlist := List.map_injective_iff.mpr Instruction.toJson_injective hmap
  exact congrArg Program.mk (Array.toList_inj.mp hlist)

end Program

end RegisterMachine
