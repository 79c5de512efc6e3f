import RegisterMachine.Proofs.Decimal.Text

/-!
# Digits with no zero in front

A number is written without a needless zero: its first digit is zero only if it
is the only one in front of the point (`IsWhole`). So it is with the decimal
digits of a number, with what stands in front of the point in positional
notation (`Decimal.isWhole_wholePart`), and with a leading digit alone.

Positional notation has this of every decimal in which zero is zero ones, and
the shortest digits of a number are such a decimal.
-/

namespace RegisterMachine

/-- **Digits in front of a point**: some, and no zero in front of another. -/
structure IsWhole (s : List Char) : Prop where
  ne_nil : s ≠ []
  isDigit : ∀ c ∈ s, c.isDigit = true
  eq_nil_of_zero : ∀ cs, s = '0' :: cs → cs = []

/-- A string of digits is below the power of ten that it reaches up to. -/
theorem ofDigits_lt_pow {s : List Char} (h : ∀ c ∈ s, c.isDigit = true) :
    ofDigits 10 s < 10 ^ s.length := by
  induction s using List.reverseRecOn with
  | nil => exact Nat.one_pos
  | append_singleton s c ih =>
    obtain ⟨hs, hc⟩ := List.forall_mem_append.mp h
    have hvalue := (digitValue_lt_ten (hc c (List.mem_singleton_self c))).1
    have hlt := ih hs
    rw [ofDigits_append_singleton, List.length_append, List.length_singleton,
      pow_succ]
    omega

/-- **The first decimal digit of a number that is not zero** is not zero. -/
theorem head_decimalDigits_ne_zero {n : ℕ} (hn : n ≠ 0) {c : Char}
    {cs : List Char} (h : decimalDigits n = c :: cs) : c ≠ '0' := by
  rintro rfl
  have hdigits : ∀ c ∈ '0' :: cs, c.isDigit = true := fun c hc =>
    isDigit_of_mem_decimalDigits (h ▸ hc)
  have hvalue : ofDigits 10 cs = n := by
    have hcons : ofDigits 10 ('0' :: cs) = ofDigits 10 (['0'] ++ cs) := rfl
    rw [← ofDigits_decimalDigits n, h, hcons, ofDigits_append]
    show _ = 0 * _ + _
    rw [Nat.zero_mul, Nat.zero_add]
  have hlt := ofDigits_lt_pow fun c hc => hdigits c (List.mem_cons_of_mem _ hc)
  have hle := ten_pow_le_of_ne_zero hn
  have hcount : digitCount n = cs.length + 1 := congrArg List.length h
  rw [hvalue] at hlt
  rw [hcount, Nat.add_sub_cancel] at hle
  exact absurd hlt (not_lt.mpr hle)

/-- The digits of a number have no zero in front. -/
theorem isWhole_decimalDigits (n : ℕ) : IsWhole (decimalDigits n) where
  ne_nil := Nat.toDigits_ne_nil
  isDigit c := isDigit_of_mem_decimalDigits
  eq_nil_of_zero cs h := by
    by_cases hn : n = 0
    · rw [hn] at h
      exact (List.cons.inj h).2.symm
    · exact absurd rfl (head_decimalDigits_ne_zero hn h)

/-- The leading digit alone is whole. -/
theorem isWhole_take_one (n : ℕ) : IsWhole ((decimalDigits n).take 1) := by
  obtain ⟨c, cs, hcons⟩ := List.exists_cons_of_ne_nil
    (show decimalDigits n ≠ [] from Nat.toDigits_ne_nil)
  rw [hcons]
  refine ⟨List.cons_ne_nil _ _, fun d hd => ?_, fun ds hds => ?_⟩
  · rw [List.mem_singleton.mp hd]
    exact isDigit_of_mem_decimalDigits (hcons ▸ List.mem_cons_self ..)
  · exact (List.cons.inj hds).2.symm

namespace Decimal

/-- Zero has no digits but its own in front of the point. -/
theorem isWhole_wholePart {d : Decimal} (h : d.digits = 0 → d.exponent = 0) :
    IsWhole d.wholePart where
  ne_nil := d.wholePart_ne_nil
  isDigit c := isDigit_of_mem_wholePart
  eq_nil_of_zero cs hcs := by
    unfold wholePart at hcs
    split at hcs
    · next hpos =>
      obtain ⟨n, hn⟩ : ∃ n, d.ceiling.toNat = n + 1 :=
        ⟨d.ceiling.toNat - 1, by omega⟩
      obtain ⟨c, ds, hcons⟩ := List.exists_cons_of_ne_nil
        (show decimalDigits d.digits ≠ [] from Nat.toDigits_ne_nil)
      by_cases hdigits : d.digits = 0
      · have hone : d.ceiling.toNat = 1 := by
          unfold ceiling
          rw [hdigits, h hdigits]
          rfl
        rw [hone, hdigits, h hdigits] at hcs
        exact (List.cons.inj hcs).2.symm
      · rw [hn, hcons, List.take_succ_cons, List.cons_append] at hcs
        exact absurd (List.cons.inj hcs).1
          (head_decimalDigits_ne_zero hdigits hcons)
    · exact (List.cons.inj hcs).2.symm

/-- Only zero is written as zero. -/
theorem exponent_shortest_of_digits {tie : Tie} {x : Binary64}
    (hfin : x.isFinite = true) (h : (shortest tie x).digits = 0) :
    (shortest tie x).exponent = 0 := by
  have hback := toBinary64_shortest tie false hfin
  have hzero : (shortest tie x).toBinary64 false = .zero false := if_pos h
  have hmag : x.magnitude = 0 := by
    have heq := congrArg Binary64.magnitude (hback.symm.trans hzero)
    rwa [Binary64.magnitude_ofMagnitude _ x.magnitude_lt] at heq
  have hisZero : x.isZero = true := beq_iff_eq.mpr hmag
  unfold shortest
  rw [if_pos hisZero]

end Decimal

end RegisterMachine
