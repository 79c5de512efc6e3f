import Mathlib.Algebra.Group.Nat.Even
import RegisterMachine.Proofs.Binary64.Arithmetic

/-!
# The nearest double, a tie going to the even one

`Binary64.ofRat` says how a value is rounded: scaled, cut, compared with a
half, and put together again. Here it is said what comes of it, without a word
about how. The double nearest a value is one that no finite double is nearer
than; of two that are as near it is the one with the even significand; and from
halfway past the greatest finite double on it is infinite
(`Binary64.IsNearestEven`). There is exactly one such double for every value
and sign, and it is the rounded value (`Binary64.isNearestEven_iff`).

That nothing is nearer has two sides. A double with a unit no smaller than the
one a value is rounded at is a whole number of those units, and among the whole
numbers rounding finds the nearest. Any other double lies below the power of
two that begins the binade of the value, and that power is a whole number of
units again (`Binary64.exists_units_or_far`).
-/

namespace RegisterMachine

/-! ## Whole numbers -/

/-- A whole number other than the rounded one is at least a half away. -/
theorem half_le_abs_sub {v : ℚ} (hv : 0 ≤ v) {n : ℕ} (hne : n ≠ roundEven v) :
    1 / 2 ≤ |(n : ℚ) - v| := by
  have hhalf := abs_roundEven_sub_le hv
  have hone : (1 : ℚ) ≤ |(n : ℚ) - roundEven v| := by
    have hint : (1 : ℤ) ≤ |(n : ℤ) - roundEven v| :=
      Int.one_le_abs (sub_ne_zero.mpr (by exact_mod_cast hne))
    exact_mod_cast hint
  have htriangle := abs_sub_le (n : ℚ) v (roundEven v)
  rw [abs_sub_comm v] at htriangle
  linarith

/-- **No whole number is nearer** than the rounded one. -/
theorem abs_roundEven_sub_le_abs {v : ℚ} (hv : 0 ≤ v) (n : ℕ) :
    |(roundEven v : ℚ) - v| ≤ |(n : ℚ) - v| := by
  by_cases hne : n = roundEven v
  · rw [hne]
  · exact (abs_roundEven_sub_le hv).trans (half_le_abs_sub hv hne)

/-- A value a half away from the rounded one is rounded to an even number. -/
theorem even_roundEven {v : ℚ} (hv : 0 ≤ v)
    (h : |(roundEven v : ℚ) - v| = 1 / 2) : Even (roundEven v) := by
  have hlo := Nat.floor_le hv
  have hhi := Nat.lt_floor_add_one v
  unfold roundEven at h ⊢
  split at h
  · next hlt =>
    rw [abs_of_nonpos (by linarith)] at h
    linarith
  · next hle =>
    split at h
    · next hgt =>
      push_cast at h
      rw [abs_of_nonneg (by linarith)] at h
      linarith
    · next hge =>
      rw [if_neg hle, if_neg hge, Nat.even_iff]
      omega

namespace Binary64

variable {s : Bool} {v w : ℚ} {x y : Binary64}

/-! ## Doubles in order -/

/-- **A significand and a magnitude end in the same bit.** -/
theorem even_significand_iff (x : Binary64) :
    Even x.significand ↔ Even x.magnitude := by
  rw [Nat.even_iff, Nat.even_iff]
  unfold significand
  split <;> omega

/-- **The greater magnitude has the greater value.** -/
theorem absRat_lt_absRat (h : x.magnitude < y.magnitude) :
    x.absRat < y.absRat := by
  have hy : y.significand ≠ 0 := by
    rw [Ne, significand_eq_zero_iff]
    omega
  have hpos : 0 < y.absRat :=
    mul_pos (by exact_mod_cast Nat.pos_of_ne_zero hy) (by positivity)
  by_cases hx : x.significand = 0
  · unfold absRat at hpos ⊢
    rwa [hx, Nat.cast_zero, zero_mul]
  · by_contra hle
    have hposition := position_mono hpos (not_lt.mp hle)
    rw [position_absRat hx, position_absRat hy] at hposition
    exact absurd (Nat.cast_le.mp hposition) (not_le.mpr h)

/-- **Magnitudes are ordered as the values are.** -/
theorem absRat_lt_absRat_iff :
    x.absRat < y.absRat ↔ x.magnitude < y.magnitude := by
  refine ⟨fun h => ?_, absRat_lt_absRat⟩
  rcases lt_trichotomy x.magnitude y.magnitude with hlt | heq | hgt
  · exact hlt
  · unfold absRat significand exponent at h
    rw [heq] at h
    exact absurd h (lt_irrefl _)
  · exact absurd h (absRat_lt_absRat hgt).le.not_gt

/-- Doubles with one value have one magnitude. -/
theorem magnitude_eq_of_absRat (h : x.absRat = y.absRat) :
    x.magnitude = y.magnitude := by
  have hxy := mt absRat_lt_absRat h.not_lt
  have hyx := mt absRat_lt_absRat h.not_gt
  omega

/-- **A number is its sign and its magnitude.** -/
theorem eq_of_negative_magnitude (hs : x.negative = y.negative)
    (hm : x.magnitude = y.magnitude) : x = y := by
  rw [← ofMagnitude_negative_magnitude x, hs, hm,
    ofMagnitude_negative_magnitude]

/-! ## Nothing is nearer -/

/-- A distance in units. -/
theorem abs_units_sub (a v : ℚ) (q : ℤ) :
    |a * 2 ^ q - v| = |a - v / 2 ^ q| * 2 ^ q := by
  have hunit : (0 : ℚ) < 2 ^ q := by positivity
  rw [← abs_of_pos hunit, ← abs_mul, abs_of_pos hunit, sub_mul,
    div_mul_cancel₀ _ hunit.ne']

/-- A double is a whole number of any unit no greater than its own. -/
theorem absRat_eq_units {q : ℤ} (hle : q ≤ y.exponent) :
    y.absRat = (y.significand * 2 ^ (y.exponent - q).toNat : ℕ) * 2 ^ q := by
  have hexp : y.exponent = ((y.exponent - q).toNat : ℤ) + q := by omega
  unfold absRat
  conv_lhs => rw [hexp, zpow_add₀ (by norm_num), zpow_natCast]
  push_cast
  ring

/-- A double with a smaller unit has no bit in the leading place. -/
theorem absRat_lt_of_exponent_lt {q : ℤ} (hlt : y.exponent < q) :
    y.absRat < 2 ^ 52 * 2 ^ q := by
  calc y.absRat < 2 ^ 53 * 2 ^ y.exponent := by
        unfold absRat
        gcongr
        exact_mod_cast y.significand_lt
    _ ≤ 2 ^ 53 * 2 ^ (q - 1) := by
        gcongr
        · norm_num
        · omega
    _ = 2 ^ 52 * 2 ^ q := by
        rw [zpow_sub_one₀ (by norm_num)]
        ring

/-- **A double is a whole number of units** of a value, or it is farther from
the value than the rounded one. -/
theorem exists_units_or_far (hv : 0 < v) (y : Binary64) :
    (∃ k : ℕ, y.absRat = k * 2 ^ unitExponent v)
      ∨ |roundEven (v / 2 ^ unitExponent v) * 2 ^ unitExponent v - v|
        < |y.absRat - v| := by
  set q := unitExponent v with hq
  have hunit : (0 : ℚ) < 2 ^ q := by positivity
  rcases le_or_gt q y.exponent with hle | hgt
  · exact .inl ⟨_, absRat_eq_units hle⟩
  · -- the power of two below the value is between the two
    right
    have hbinade : 2 ^ 52 * 2 ^ q ≤ v := by
      have := two_pow_le_div_unit hv (lt_of_le_of_lt y.neg_1074_le_exponent hgt)
      rwa [le_div_iff₀ hunit] at this
    have hbelow := absRat_lt_of_exponent_lt hgt
    have hnear := abs_roundEven_sub_le_abs
      (by positivity : 0 ≤ v / 2 ^ q) (2 ^ 52)
    calc |roundEven (v / 2 ^ q) * 2 ^ q - v|
        = |(roundEven (v / 2 ^ q) : ℚ) - v / 2 ^ q| * 2 ^ q :=
          abs_units_sub _ v q
      _ ≤ |((2 ^ 52 : ℕ) : ℚ) - v / 2 ^ q| * 2 ^ q := by gcongr
      _ = v - 2 ^ 52 * 2 ^ q := by
          rw [← abs_units_sub, abs_sub_comm, abs_of_nonneg] <;> push_cast
          · rfl
          · linarith
      _ < v - y.absRat := by linarith
      _ = |y.absRat - v| := by
          rw [abs_sub_comm, abs_of_nonneg (by linarith)]

/-- **No double is nearer to a value than the rounded one**, and if another is
as near, the rounded one is even. -/
theorem abs_absRat_ofRat_sub_le_abs (s : Bool) (hv : 0 < v)
    (hfin : (ofRat s v).isFinite = true) (y : Binary64) :
    |(ofRat s v).absRat - v| ≤ |y.absRat - v|
      ∧ (y.absRat ≠ (ofRat s v).absRat →
        |y.absRat - v| = |(ofRat s v).absRat - v| →
          Even (ofRat s v).significand) := by
  have hvalue := absRat_ofRat s hv hfin
  have hmag := magnitude_ofRat s hv hfin
  rcases exists_units_or_far hv y with ⟨k, hk⟩ | hfar
  · set q := unitExponent v with hq
    have hunit : (0 : ℚ) < 2 ^ q := by positivity
    have hnonneg : 0 ≤ v / 2 ^ q := by positivity
    rw [even_significand_iff, hmag, hvalue, hk, abs_units_sub, abs_units_sub]
    refine ⟨?_, fun hne htie => ?_⟩
    · have := abs_roundEven_sub_le_abs hnonneg k
      gcongr
    · have hkne : k ≠ roundEven (v / 2 ^ q) := by
        rintro rfl
        exact hne rfl
      have hhalf := half_le_abs_sub hnonneg hkne
      rw [mul_left_inj' hunit.ne'] at htie
      have heven := even_roundEven hnonneg
        (le_antisymm (abs_roundEven_sub_le hnonneg) (htie ▸ hhalf))
      rw [Nat.even_iff] at heven ⊢
      omega
  · rw [hvalue]
    exact ⟨hfar.le, fun _ htie => absurd htie hfar.ne'⟩

/-! ## The nearest double -/

/-- **The double nearest a value**, with a sign in front of it. -/
structure IsNearestEven (negative : Bool) (v : ℚ) (x : Binary64) :
    Prop where
  /-- The sign is the one given, on zero and on infinity as well. -/
  negative_eq : x.negative = negative
  /-- It is a number, finite or infinite. -/
  isNumber : x.isFinite = true ∨ x.isInfinite = true
  /-- It is infinite from halfway past the greatest finite double on. -/
  isInfinite_iff : x.isInfinite = true ↔ 2 ^ 1024 - 2 ^ 970 ≤ v
  /-- No finite double is nearer. -/
  nearest : x.isFinite = true → ∀ y : Binary64, y.isFinite = true →
    |x.absRat - v| ≤ |y.absRat - v|
  /-- If another is as near, this is the one with the even significand. -/
  even_of_tie : x.isFinite = true → ∀ y : Binary64, y.isFinite = true →
    y.absRat ≠ x.absRat → |y.absRat - v| = |x.absRat - v| →
      Even x.significand

/-- A finite number is not infinite. -/
theorem not_isInfinite (h : x.isFinite = true) : ¬x.isInfinite = true := by
  intro hinf
  rw [isFinite_of_isInfinite hinf] at h
  cases h

/-- **Rounding gives the nearest double.** -/
theorem isNearestEven_ofRat (s : Bool) (hv : 0 ≤ v) :
    IsNearestEven s v (ofRat s v) := by
  rcases le_or_gt (2 ^ 1024 - 2 ^ 970) v with hbig | hsmall
  · have hfin : (ofRat s v).isFinite = false := by
      rw [ofRat_eq_infinity s hbig]
      cases s <;> decide
    have hinf : (ofRat s v).isInfinite = true := by
      rw [ofRat_eq_infinity s hbig]
      cases s <;> decide
    exact
      { negative_eq := negative_ofRat s v
        isNumber := .inr hinf
        isInfinite_iff := iff_of_true hinf hbig
        nearest := fun h => absurd (hfin.symm.trans h) Bool.false_ne_true
        even_of_tie := fun h => absurd (hfin.symm.trans h) Bool.false_ne_true }
  · have hfin := isFinite_ofRat_of_lt s hv hsmall
    have hnear : ∀ y : Binary64, |(ofRat s v).absRat - v| ≤ |y.absRat - v|
        ∧ (y.absRat ≠ (ofRat s v).absRat →
          |y.absRat - v| = |(ofRat s v).absRat - v| →
            Even (ofRat s v).significand) := by
      rcases hv.eq_or_lt with rfl | hpos
      · -- zero is a double itself, and nothing else is as near to it
        have hzero : (ofRat s 0).absRat = 0 := by
          rw [← isZero_iff_absRat]
          cases s <;> decide
        intro y
        rw [hzero, sub_zero, sub_zero, abs_zero]
        exact ⟨abs_nonneg _, fun hne htie => absurd (abs_eq_zero.mp htie) hne⟩
      · exact abs_absRat_ofRat_sub_le_abs s hpos hfin
    exact
      { negative_eq := negative_ofRat s v
        isNumber := .inl hfin
        isInfinite_iff := iff_of_false (not_isInfinite hfin)
          (not_le.mpr hsmall)
        nearest := fun _ y _ => (hnear y).1
        even_of_tie := fun _ y _ => (hnear y).2 }

/-- **Two doubles cannot both be the nearest**: they would be as near and both
even, and the double between them would be nearer. -/
theorem IsNearestEven.not_lt {s : Bool} (hx : IsNearestEven s v x)
    (hy : IsNearestEven s v y) (hxfin : x.isFinite = true)
    (hyfin : y.isFinite = true) : ¬x.magnitude < y.magnitude := by
  intro hlt
  have hvalue := absRat_lt_absRat hlt
  have htie : |x.absRat - v| = |y.absRat - v| :=
    le_antisymm (hx.nearest hxfin y hyfin) (hy.nearest hyfin x hxfin)
  have hxeven := (even_significand_iff x).mp
    (hx.even_of_tie hxfin y hyfin hvalue.ne' htie.symm)
  have hyeven := (even_significand_iff y).mp
    (hy.even_of_tie hyfin x hxfin hvalue.ne htie)
  rw [Nat.even_iff] at hxeven hyeven
  -- both magnitudes are even, so there is a magnitude between them
  have hymag := y.magnitude_lt
  have hylt : y.magnitude < infiniteMagnitude := of_decide_eq_true hyfin
  set z := ofMagnitude false (x.magnitude + 1) with hz
  have hzmag : z.magnitude = x.magnitude + 1 :=
    magnitude_ofMagnitude false (by omega)
  have hzfin : z.isFinite = true := by
    refine decide_eq_true ?_
    omega
  have hxz : x.absRat < z.absRat := absRat_lt_absRat (by omega)
  have hzy : z.absRat < y.absRat := absRat_lt_absRat (by omega)
  have hnear := hx.nearest hxfin z hzfin
  rcases abs_cases (x.absRat - v) with hx' | hx' <;>
    rcases abs_cases (y.absRat - v) with hy' | hy' <;>
    rcases abs_cases (z.absRat - v) with hz' | hz' <;> linarith

/-- **There is one nearest double**, and rounding finds it. -/
theorem isNearestEven_iff (s : Bool) (hv : 0 ≤ v) :
    IsNearestEven s v x ↔ x = ofRat s v := by
  constructor
  · intro hx
    have hr := isNearestEven_ofRat s hv
    refine eq_of_negative_magnitude (hx.negative_eq.trans hr.negative_eq.symm) ?_
    rcases hx.isNumber with hxfin | hxinf
    · have hrfin : (ofRat s v).isFinite = true := by
        refine hr.isNumber.resolve_right fun hrinf => ?_
        exact not_isInfinite hxfin
          (hx.isInfinite_iff.mpr (hr.isInfinite_iff.mp hrinf))
      have hle := hr.not_lt hx hrfin hxfin
      have hge := hx.not_lt hr hxfin hrfin
      omega
    · have hrinf := hr.isInfinite_iff.mpr (hx.isInfinite_iff.mp hxinf)
      exact (eq_of_beq hxinf).trans (eq_of_beq hrinf).symm
  · rintro rfl
    exact isNearestEven_ofRat s hv

/-! ## From a value to its double -/

@[simp] theorem absRat_abs (x : Binary64) : x.abs.absRat = x.absRat := by
  unfold absRat significand exponent
  rw [magnitude_abs]

/-- Finite doubles lie below the values that are infinite. -/
theorem absRat_lt_of_isFinite (hx : x.isFinite = true) :
    x.absRat < 2 ^ 1024 - 2 ^ 970 := by
  by_contra! hle
  have hinf := (isNearestEven_ofRat false x.absRat_nonneg).isInfinite_iff.mpr hle
  rw [ofRat_absRat false hx] at hinf
  exact not_isInfinite (x.isFinite_abs.trans hx) hinf

/-- **Whatever lies between a value and its double** has the same double. -/
theorem IsNearestEven.of_between {u : ℚ} (h : IsNearestEven s u x)
    (hx : x.isFinite = true)
    (hv : (u ≤ v ∧ v ≤ x.absRat) ∨ (x.absRat ≤ v ∧ v ≤ u)) :
    IsNearestEven s v x := by
  have hsum : |x.absRat - v| + |v - u| = |x.absRat - u| := by
    rcases hv with ⟨huv, hvx⟩ | ⟨hxv, hvu⟩
    · rw [abs_of_nonneg (by linarith), abs_of_nonneg (by linarith),
        abs_of_nonneg (by linarith)]
      ring
    · rw [abs_of_nonpos (by linarith), abs_of_nonpos (by linarith),
        abs_of_nonpos (by linarith)]
      ring
  have hbound : v < 2 ^ 1024 - 2 ^ 970 := by
    have hu := not_le.mp fun hle => not_isInfinite hx (h.isInfinite_iff.mpr hle)
    have hxlt := absRat_lt_of_isFinite hx
    rcases hv with ⟨-, hle⟩ | ⟨-, hle⟩
    · exact hle.trans_lt hxlt
    · exact hle.trans_lt hu
  exact
    { negative_eq := h.negative_eq
      isNumber := .inl hx
      isInfinite_iff := iff_of_false (not_isInfinite hx) (not_le.mpr hbound)
      nearest := fun _ y hy => by
        have hnear := h.nearest hx y hy
        have htriangle := abs_sub_le y.absRat v u
        linarith
      even_of_tie := fun _ y hy hne htie => by
        have hnear := h.nearest hx y hy
        have htriangle := abs_sub_le y.absRat v u
        exact h.even_of_tie hx y hy hne (by linarith) }

end Binary64

end RegisterMachine
