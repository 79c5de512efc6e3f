import RegisterMachine.Proofs.Binary64.NearestEven

/-!
# Machine words in double precision

A literal is kept as a double and used as a machine word, so a word goes
through the nearest double and back. What comes back is said by the nearest
double alone (`Binary64.IsNearestWord`), and how it is found plays no part:
rounding crosses no double, so a whole number up to `2 ^ 53`, which is a double
itself, is kept, and one past that is rounded to a double without a fraction.

One end of the range is not safe. The last doubles before `2 ^ 63` are `1024`
apart, and `2 ^ 63` is no machine word: from halfway to it on a word is rounded
out of the range (`Binary64.toInt64?_ofInt_eq_none_iff`). At the other end
`-2 ^ 63` is a word, and nothing is lost.
-/

namespace RegisterMachine.Binary64

variable {s : Bool} {v : ℚ} {x y : Binary64}

/-! ## Rounding crosses no double -/

theorem IsNearestEven.absRat_le (h : IsNearestEven s v x)
    (hx : x.isFinite = true) (hy : y.isFinite = true) (hle : v ≤ y.absRat) :
    x.absRat ≤ y.absRat := by
  by_contra! hlt
  have hnear := h.nearest hx y hy
  rw [abs_of_nonneg (by linarith), abs_of_nonneg (by linarith)] at hnear
  linarith

theorem IsNearestEven.le_absRat (h : IsNearestEven s v x)
    (hx : x.isFinite = true) (hy : y.isFinite = true) (hle : y.absRat ≤ v) :
    y.absRat ≤ x.absRat := by
  by_contra! hlt
  have hnear := h.nearest hx y hy
  rw [abs_of_nonpos (by linarith), abs_of_nonpos (by linarith)] at hnear
  linarith

/-- The magnitude of a word is far from being infinite. -/
theorem IsNearestEven.isFinite (h : IsNearestEven s v x) (hv : v ≤ 2 ^ 63) :
    x.isFinite = true := by
  have hlt : (2 : ℚ) ^ 63 < 2 ^ 1024 - 2 ^ 970 := by
    rw [lt_sub_iff_add_lt]
    exact_mod_cast (by decide +kernel : 2 ^ 63 + 2 ^ 970 < 2 ^ 1024)
  refine h.isNumber.resolve_right fun hinf => ?_
  exact absurd (h.isInfinite_iff.mp hinf) (not_le.mpr (hv.trans_lt hlt))

/-- The double that ends the whole numbers without gaps. -/
theorem absRat_ofInt_two_pow_53 :
    (ofInt (2 ^ 53)).isFinite = true ∧ (ofInt (2 ^ 53)).absRat = 2 ^ 53 := by
  have h : (ofInt (2 ^ 53)).natAbs? = some (2 ^ 53) := by decide +kernel
  exact_mod_cast (natAbs?_eq_some_iff _ _).mp h

/-- The first double that is no machine word. -/
theorem absRat_ofInt_two_pow_63 :
    (ofInt (2 ^ 63)).isFinite = true ∧ (ofInt (2 ^ 63)).absRat = 2 ^ 63 := by
  have h : (ofInt (2 ^ 63)).natAbs? = some (2 ^ 63) := by decide +kernel
  exact_mod_cast (natAbs?_eq_some_iff _ _).mp h

/-- The double below it. -/
theorem absRat_ofInt_last :
    (ofInt (2 ^ 63 - 1024)).isFinite = true
      ∧ (ofInt (2 ^ 63 - 1024)).absRat = 2 ^ 63 - 1024 := by
  have h : (ofInt (2 ^ 63 - 1024)).natAbs? = some (2 ^ 63 - 1024) := by
    decide +kernel
  have hcast : ((2 ^ 63 - 1024 : ℕ) : ℚ) = 2 ^ 63 - 1024 := by norm_num
  rw [← hcast]
  exact (natAbs?_eq_some_iff _ _).mp h

/-- **Every whole number up to `2 ^ 53` is a double.** -/
theorem exists_absRat_eq {k : ℕ} (hk : k ≤ 2 ^ 53) :
    ∃ y : Binary64, y.isFinite = true ∧ y.absRat = k := by
  rcases hk.lt_or_eq with hlt | rfl
  · have hnearest : IsNearestEven false k (ofInt k) := by
      rw [ofInt_natCast]
      exact isNearestEven_ofRat false (Nat.cast_nonneg k)
    refine ⟨ofInt k, hnearest.isFinite ?_, absRat_ofInt hlt⟩
    exact_mod_cast hk.trans (by decide)
  · exact ⟨_, absRat_ofInt_two_pow_53.1, by
      rw [absRat_ofInt_two_pow_53.2]; norm_cast⟩

/-- **A whole number up to `2 ^ 53` is kept.** -/
theorem IsNearestEven.absRat_eq {k : ℕ} (h : IsNearestEven s k x)
    (hx : x.isFinite = true) (hk : k ≤ 2 ^ 53) : x.absRat = k := by
  obtain ⟨y, hy, hvalue⟩ := exists_absRat_eq hk
  rw [← hvalue]
  exact le_antisymm (h.absRat_le hx hy hvalue.ge) (h.le_absRat hx hy hvalue.le)

/-- **A whole number is rounded to a whole number.** -/
theorem IsNearestEven.exists_absRat_eq {k : ℕ} (h : IsNearestEven s k x)
    (hx : x.isFinite = true) : ∃ n : ℕ, x.absRat = n := by
  rcases le_or_gt k (2 ^ 53) with hk | hk
  · exact ⟨k, h.absRat_eq hx hk⟩
  · -- past `2 ^ 53` a double has no room for a fraction
    have hexp : 0 ≤ x.exponent := by
      obtain ⟨hfin, hvalue⟩ := absRat_ofInt_two_pow_53
      have hle : (2 : ℚ) ^ 53 ≤ x.absRat := by
        rw [← hvalue]
        refine h.le_absRat hx hfin ?_
        rw [hvalue]
        exact_mod_cast hk.le
      by_contra! hneg
      have hlt : x.absRat < 2 ^ 53 * 1 := by
        unfold absRat
        refine mul_lt_mul'' ?_ (zpow_lt_one_of_neg₀ (by norm_num) hneg)
          (Nat.cast_nonneg _) (by positivity)
        exact_mod_cast x.significand_lt
      linarith
    refine ⟨x.significand * 2 ^ x.exponent.toNat, ?_⟩
    rw [absRat_eq_div, Int.toNat_of_nonpos (neg_nonpos.mpr hexp), pow_zero,
      Nat.cast_one, div_one]

/-- The two are neighbours, and the one below is odd. -/
theorem magnitude_ofInt_last :
    (ofInt (2 ^ 63)).magnitude = (ofInt (2 ^ 63 - 1024)).magnitude + 1
      ∧ (ofInt (2 ^ 63 - 1024)).magnitude % 2 = 1 := by
  decide +kernel

/-- **No double lies in the last gap.** -/
theorem absRat_le_of_lt (h : x.absRat < 2 ^ 63) :
    x.absRat ≤ 2 ^ 63 - 1024 := by
  by_contra! hgt
  rw [← absRat_ofInt_two_pow_63.2, absRat_lt_absRat_iff,
    magnitude_ofInt_last.1] at h
  rw [← absRat_ofInt_last.2, absRat_lt_absRat_iff] at hgt
  omega

/-- **The last half of the last gap is rounded up** to `2 ^ 63`, the middle of
it included, for `2 ^ 63` is even. -/
theorem IsNearestEven.absRat_lt_iff (h : IsNearestEven s v x)
    (hx : x.isFinite = true) : x.absRat < 2 ^ 63 ↔ v < 2 ^ 63 - 512 := by
  obtain ⟨hlimit, hlimitvalue⟩ := absRat_ofInt_two_pow_63
  obtain ⟨hlast, hlastvalue⟩ := absRat_ofInt_last
  constructor
  · intro hlt
    by_contra! hle
    have hv : v < 2 ^ 63 := by
      by_contra! hge
      have := h.le_absRat hx hlimit (hlimitvalue.trans_le hge)
      linarith
    have hxlast := absRat_le_of_lt hlt
    have hnear := h.nearest hx _ hlimit
    rw [hlimitvalue, abs_of_nonpos (by linarith), abs_of_nonneg (by linarith)]
      at hnear
    -- only the tie is left, and the double below is odd
    have hxvalue : x.absRat = 2 ^ 63 - 1024 := by linarith
    have hvvalue : v = 2 ^ 63 - 512 := by linarith
    have heven := h.even_of_tie hx _ hlimit (by rw [hlimitvalue]; exact hlt.ne')
      (by rw [hlimitvalue, hxvalue, hvvalue]; norm_num)
    have hmag : x.magnitude = (ofInt (2 ^ 63 - 1024)).magnitude :=
      magnitude_eq_of_absRat (hxvalue.trans hlastvalue.symm)
    rw [even_significand_iff, hmag, Nat.even_iff, magnitude_ofInt_last.2]
      at heven
    exact Nat.one_ne_zero heven
  · intro hlt
    by_contra! hle
    have hnear := h.nearest hx _ hlast
    rw [hlastvalue, abs_of_nonneg (by linarith)] at hnear
    rcases abs_cases (2 ^ 63 - 1024 - v) with hcase | hcase <;> linarith

/-! ## Words -/

/-- **The machine word that a word becomes in double precision**: the value
of the double nearest to it. -/
def IsNearestWord (n w : Int64) : Prop :=
  ∃ x, IsNearestEven (decide (n.toInt < 0)) |(n.toInt : ℚ)| x
    ∧ x.toRat = w.toInt

theorem isNearestEven_ofInt (n : ℤ) :
    IsNearestEven (decide (n < 0)) |(n : ℚ)| (ofInt n) := by
  rw [ofInt_eq_ofRat]
  exact isNearestEven_ofRat _ (abs_nonneg _)

variable (n : Int64)

theorem abs_toInt_le : |(n.toInt : ℚ)| ≤ 2 ^ 63 := by
  have hlo : -2 ^ 63 ≤ n.toInt := n.minValue_le_toInt
  have hhi := n.toInt_lt
  have habs : |n.toInt| ≤ 2 ^ 63 := abs_le.mpr (by omega)
  exact_mod_cast habs

theorem isFinite_ofInt_toInt : (ofInt n.toInt).isFinite = true :=
  (isNearestEven_ofInt n.toInt).isFinite (abs_toInt_le n)

/-- The magnitude of a word in double precision. -/
theorem isNearestEven_natAbs :
    IsNearestEven (decide (n.toInt < 0)) n.toInt.natAbs (ofInt n.toInt) := by
  have h := isNearestEven_ofInt n.toInt
  rwa [← Int.cast_abs, ← Nat.cast_natAbs] at h

theorem toRat_ofInt_toInt :
    (ofInt n.toInt).toRat = if n.toInt < 0 then -(ofInt n.toInt).absRat
      else (ofInt n.toInt).absRat := by
  unfold toRat
  rw [(isNearestEven_ofInt n.toInt).negative_eq]
  simp only [decide_eq_true_eq]

/-- **What comes back is the nearest double**, as a word. -/
theorem toInt64?_ofInt_eq_some_iff (w : Int64) :
    (ofInt n.toInt).toInt64? = some w ↔ IsNearestWord n w := by
  rw [toInt64?_eq_some_iff, and_iff_right (isFinite_ofInt_toInt n)]
  constructor
  · exact fun h => ⟨_, isNearestEven_ofInt n.toInt, h⟩
  · rintro ⟨x, hx, hvalue⟩
    rwa [(isNearestEven_iff _ (abs_nonneg _)).mp hx,
      ← ofInt_eq_ofRat] at hvalue

/-- **A word of at most fifty-three bits comes back.** -/
theorem toInt64?_ofInt_of_natAbs_le (h : n.toInt.natAbs ≤ 2 ^ 53) :
    (ofInt n.toInt).toInt64? = some n := by
  rw [toInt64?_eq_some_iff, and_iff_right (isFinite_ofInt_toInt n),
    toRat_ofInt_toInt, (isNearestEven_natAbs n).absRat_eq
      (isFinite_ofInt_toInt n) h, Nat.cast_natAbs, Int.cast_abs]
  split
  · next hneg =>
    rw [abs_of_neg (by exact_mod_cast hneg), neg_neg]
  · next hpos =>
    rw [abs_of_nonneg (by exact_mod_cast not_lt.mp hpos)]

/-- A whole number is no machine word exactly if it is out of range. -/
theorem toInt64?_eq_none_iff {z : ℤ} (hfin : x.isFinite = true)
    (hz : x.toRat = z) :
    x.toInt64? = none ↔ z < -2 ^ 63 ∨ 2 ^ 63 ≤ z := by
  unfold toInt64?
  rw [(toInt?_eq_some_iff x z).mpr ⟨hfin, hz⟩, Option.bind_some]
  split
  · next hin => exact iff_of_false (fun h => by cases h) (by omega)
  · next hout => exact iff_of_true rfl (by omega)

/-- **A word comes back from double precision**, unless it is rounded out of
the range. -/
theorem toInt64?_ofInt_eq_none_iff :
    (ofInt n.toInt).toInt64? = none ↔ 2 ^ 63 - 512 ≤ n.toInt := by
  have hfin := isFinite_ofInt_toInt n
  have hnear := isNearestEven_natAbs n
  obtain ⟨k, hk⟩ := hnear.exists_absRat_eq hfin
  have hvalue := toRat_ofInt_toInt n
  rw [hk] at hvalue
  rcases lt_or_ge n.toInt 0 with hneg | hpos
  · -- no word is rounded past the least one
    have hle : k ≤ 2 ^ 63 := by
      obtain ⟨hlimit, hlimitvalue⟩ := absRat_ofInt_two_pow_63
      have hle := (isNearestEven_ofInt n.toInt).absRat_le hfin hlimit
        ((abs_toInt_le n).trans_eq hlimitvalue.symm)
      rw [hk, hlimitvalue] at hle
      exact_mod_cast hle
    have hz : (ofInt n.toInt).toRat = (-k : ℤ) := by
      rw [hvalue, if_pos hneg, Int.cast_neg, Int.cast_natCast]
    rw [toInt64?_eq_none_iff hfin hz]
    omega
  · have hlimit : k < 2 ^ 63 ↔ n.toInt < 2 ^ 63 - 512 := by
      have hlt := hnear.absRat_lt_iff hfin
      rw [hk, Nat.cast_natAbs, abs_of_nonneg hpos] at hlt
      exact_mod_cast hlt
    have hz : (ofInt n.toInt).toRat = (k : ℤ) := by
      rw [hvalue, if_neg (not_lt.mpr hpos), Int.cast_natCast]
    rw [toInt64?_eq_none_iff hfin hz]
    omega

end RegisterMachine.Binary64
