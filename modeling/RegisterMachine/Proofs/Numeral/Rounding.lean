import RegisterMachine.Proofs.Binary64.NearestEven
import RegisterMachine.Proofs.Numeral.Grammar

/-!
# What a numeral is rounded to

The grammar of numerals gives each of them a sign and an exact value. The
double that is read is the one nearest that value, a tie going to the even one,
and it carries that sign; this is so of the digits of any radix and of decimals
of any length (`Numeral.parse?_value_eq_some_iff`), although the two are
converted by routes of their own.

That double being unique, numerals with one sign and one value are read as one
double, however they are spelled. Whole numbers below `2 ^ 64` are the case in
which all the radices meet (`Numeral.read_as_nearest`).
-/

namespace RegisterMachine.Numeral

open Binary64 (IsNearestEven isNearestEven_iff)

-- what is said of the characters of a text is tested on that text
attribute [local instance (high)] List.decidableBAll

/-- **The double that a sign and an exact value are rounded to**: infinity
stays infinite, and anything else goes to the nearest double. -/
inductive RoundsTo (negative : Bool) : WithTop ℚ → Binary64 → Prop where
  | infinite : RoundsTo negative ⊤ (.infinity negative)
  | nearest {v : ℚ} {x : Binary64} (h : IsNearestEven negative v x) :
      RoundsTo negative v x

variable {s : List Char} {negative : Bool} {v : ℚ} {x : Binary64}

theorem roundsTo_coe_iff :
    RoundsTo negative v x ↔ IsNearestEven negative v x := by
  constructor
  · intro h
    generalize hw : (v : WithTop ℚ) = w at h
    cases h with
    | infinite => exact absurd hw WithTop.coe_ne_top
    | nearest h => rwa [WithTop.coe_inj.mp hw]
  · exact .nearest

theorem roundsTo_top_iff :
    RoundsTo negative ⊤ x ↔ x = .infinity negative := by
  constructor
  · intro h
    generalize hw : (⊤ : WithTop ℚ) = w at h
    cases h with
    | infinite => rfl
    | nearest h => exact absurd hw WithTop.top_ne_coe
  · rintro rfl
    exact .infinite

/-- **A numeral is worth the double that it rounds to**, and no other. -/
theorem roundsTo_iff_eq_value (n : Numeral) :
    RoundsTo n.negative n.exactValue x ↔ x = n.value := by
  cases n with
  | radix n =>
    have hvalue : value (.radix n) = .ofRat false (n : ℚ) := by
      rw [value, Binary64.ofRatio_eq_ofRat _ _ Nat.one_pos, Nat.cast_one,
        div_one]
    rw [hvalue]
    exact roundsTo_coe_iff.trans (isNearestEven_iff false (Nat.cast_nonneg n))
  | infinity negative => exact roundsTo_top_iff
  | decimal negative d =>
    rw [value, d.toBinary64_eq_ofRat]
    exact roundsTo_coe_iff.trans (isNearestEven_iff negative d.toRat_nonneg)

/-- **What is read is the exact value, rounded.** -/
theorem parse?_value_eq_some_iff {w : WithTop ℚ} (h : Spells s negative w) :
    (parse? s).map value = some x ↔ RoundsTo negative w x := by
  obtain ⟨n, hn, rfl, rfl⟩ := h.exists_parse?
  rw [hn, Option.map_some, Option.some_inj, eq_comm, roundsTo_iff_eq_value]

/-- A value that is spelled is not negative. -/
theorem Spells.nonneg (h : Spells s negative v) : 0 ≤ v := by
  obtain ⟨n, -, -, hvalue⟩ := h.exists_parse?
  cases n with
  | radix n =>
    rw [← WithTop.coe_inj.mp hvalue]
    exact Nat.cast_nonneg n
  | infinity => exact absurd hvalue WithTop.top_ne_coe
  | decimal _ d =>
    rw [← WithTop.coe_inj.mp hvalue]
    exact d.toRat_nonneg

/-- A finite value is read as what rounding gives. -/
theorem parse?_value_eq_ofRat (h : Spells s negative v) :
    (parse? s).map value = some (.ofRat negative v) := by
  rw [parse?_value_eq_some_iff h, roundsTo_coe_iff,
    isNearestEven_iff negative h.nonneg]

/-- Decimal digits spell their number, with a minus in front or without. -/
theorem spells_signed (negative : Bool) (h : IsDigits s) :
    Spells (signed negative s) negative ((ofDigits 10 s : ℚ) : WithTop ℚ) := by
  obtain ⟨sign, hsign, htext⟩ : ∃ sign, Sign sign negative
      ∧ signed negative s = sign ++ s := by
    cases negative with
    | false => exact ⟨_, .absent, rfl⟩
    | true => exact ⟨_, .minus, rfl⟩
  have hspells := Spells.decimal hsign (.whole h) .absent
  rwa [List.append_nil, zpow_zero, mul_one, ← htext] at hspells

/-- **An integer, written out, spells itself.** -/
theorem spells_toString (n : ℤ) :
    Spells (toString n).toList (decide (n < 0)) (|(n : ℚ)| : ℚ) := by
  have hdigits : IsDigits (decimalDigits n.natAbs) :=
    ⟨Nat.toDigits_ne_nil, fun c => isDigit_of_mem_decimalDigits⟩
  have h := spells_signed (decide (n < 0)) hdigits
  rwa [ofDigits_decimalDigits, Nat.cast_natAbs, Int.cast_abs,
    ← Binary64.toList_toString_int] at h

/-- **A text that is accepted is read as the double nearest its exact value**,
a tie going to the even one. From halfway past the greatest finite double on
that is infinity with the sign of the numeral, and up to half the least
positive double it is zero with that sign. A whole number below `2 ^ 64` is
read as one double from the digits of every radix, with zeros in front of them
or without. -/
theorem read_as_nearest :
    (∀ s x, (parse? s).map value = some x →
        (∃ negative w, Spells s negative w)
          ∧ ∀ negative w, Spells s negative w → RoundsTo negative w x)
      ∧ (∀ s negative (v : ℚ), Spells s negative v →
          2 ^ 1024 - 2 ^ 970 ≤ v →
            (parse? s).map value = some (.infinity negative))
      ∧ (∀ s negative (v : ℚ), Spells s negative v →
          v ≤ 2 ^ (-1075 : ℤ) →
            (parse? s).map value = some (.zero negative))
      ∧ ∀ n : ℕ, n < 2 ^ 64 → ∃ x, IsNearestEven false n x
          ∧ (∀ c base all digits, RadixMark c base all → digits ≠ [] →
              (∀ d ∈ digits, d ∈ all) → ofDigits base digits = n →
                (parse? ('0' :: c :: digits)).map value = some x)
          ∧ ∀ digits, IsDigits digits → ofDigits 10 digits = n →
              (parse? digits).map value = some x := by
  refine ⟨?_, ?_, ?_, ?_⟩
  · intro s x hx
    obtain ⟨n, hn, -⟩ := Option.map_eq_some_iff.mp hx
    exact ⟨⟨_, _, spells_of_parse? hn⟩,
      fun negative w h => (parse?_value_eq_some_iff h).mp hx⟩
  · intro s negative v h hbig
    rw [parse?_value_eq_ofRat h, Binary64.ofRat_eq_infinity negative hbig]
  · intro s negative v h hsmall
    rw [parse?_value_eq_ofRat h]
    rcases h.nonneg.eq_or_lt with rfl | hpos
    · rfl
    · rw [Binary64.ofRat_of_le_two_zpow negative hpos hsmall]
  · intro n hn
    have hnearest := Binary64.isNearestEven_ofRat false
      (Nat.cast_nonneg n : (0 : ℚ) ≤ n)
    refine ⟨.ofRat false n, hnearest, ?_, ?_⟩
    · rintro c base all digits hmark hne hdigits rfl
      exact parse?_value_eq_ofRat (.radix hmark hne hdigits hn)
    · rintro digits hdigits rfl
      exact parse?_value_eq_ofRat (spells_signed false hdigits)

/-- **A tie past `2 ^ 53`**, in two radices and with zeros in front. -/
theorem tie_read_alike :
    9007199254740993 < 2 ^ 64
      ∧ ∃ x, IsNearestEven false (9007199254740993 : ℕ) x
        ∧ (parse? "0x20000000000001".toList).map value = some x
        ∧ (parse? "009007199254740993".toList).map value = some x := by
  have hlt : 9007199254740993 < 2 ^ 64 := by decide
  obtain ⟨x, hx, hradix, hdecimal⟩ :=
    read_as_nearest.2.2.2 9007199254740993 hlt
  refine ⟨hlt, x, hx, ?_, ?_⟩
  · exact hradix 'x' 16 _ "20000000000001".toList (.hexadecimal (.inl rfl))
      (by decide) (by decide) (by decide)
  · exact hdecimal "009007199254740993".toList ⟨by decide, by decide⟩
      (by decide)

/-- A negative numeral too small for any other double is the negative zero. -/
example : (parse? "-1e-400".toList).map value = some (.zero true) := by
  decide +kernel

end RegisterMachine.Numeral
