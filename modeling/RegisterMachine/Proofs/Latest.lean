import Mathlib.Data.List.Basic

/-!
# The latest of a kind

What stands after a list of events is often a matter of the latest one of a
kind: it is still there as long as nothing behind it takes it away. A run is
under way in this sense (`Event.UnderWay`), and a register holds what was
written to it (`Registers.Edit.Leave`).

Such lists grow at their ends, so what is needed is what one more entry does.
-/

namespace RegisterMachine

variable {α : Type} {p q : α → Prop}

/-- **One more entry** is the latest of its kind itself, or there is one already
that it does not take away. -/
theorem exists_latest_concat_iff (l : List α) (a : α) :
    (∃ before b after, l ++ [a] = before ++ b :: after ∧ p b ∧ ∀ c ∈ after, q c)
      ↔ p a ∨ ((∃ before b after, l = before ++ b :: after
        ∧ p b ∧ ∀ c ∈ after, q c) ∧ q a) := by
  constructor
  · rintro ⟨before, b, after, hl, hb, hafter⟩
    rcases List.eq_nil_or_concat' after with rfl | ⟨after, d, rfl⟩
    · obtain ⟨-, heq⟩ := List.append_inj' hl rfl
      rw [(List.cons.inj heq).1]
      exact .inl hb
    · rw [← List.cons_append, ← List.append_assoc] at hl
      obtain ⟨rfl, heq⟩ := List.append_inj' hl rfl
      obtain rfl : a = d := (List.cons.inj heq).1
      obtain ⟨hafter, ha⟩ := List.forall_mem_append.mp hafter
      exact .inr ⟨⟨before, b, after, rfl, hb, hafter⟩,
        ha a (List.mem_singleton_self a)⟩
  · rintro (ha | ⟨⟨before, b, after, rfl, hb, hafter⟩, ha⟩)
    · exact ⟨l, a, [], rfl, ha, fun c hc => absurd hc List.not_mem_nil⟩
    · refine ⟨before, b, after ++ [a], ?_, hb, List.forall_mem_append.mpr
        ⟨hafter, List.forall_mem_singleton.mpr ha⟩⟩
      rw [List.append_assoc, List.cons_append]

end RegisterMachine
