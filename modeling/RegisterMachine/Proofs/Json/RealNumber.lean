import RegisterMachine.Json.Value
import RegisterMachine.Proofs.Decimal.Seventeen
import RegisterMachine.Proofs.Json.Library
import RegisterMachine.Proofs.Json.Scaling

/-!
# What a real number reads back as

A finite number is written with its shortest digits, and they are read by
scaling, not by rounding once; so it may come back as a neighbour.
`Json.ReadsBackAs` says how far: it comes back finite, with its sign, and at
most three places off, and it comes back as it was if its digits and its power
of ten are doubles themselves. Every finite number comes back so
(`Json.readsBackAs_readBack`).

No digit is dropped on the way, for a word holds more than the seventeen there
are (`Json.scaled_eq`), and only the three greatest numbers are close enough to
the end of the range that scaling might have made them infinite; it does not. So
this is a reader of numbers in the sense of `Json.ReadsNumbers`
(`Json.readsNumbers_real?`), and a better one than is asked for.
-/

namespace RegisterMachine.Json

open Binary64

/-! ## The digits -/

/-- More digits make no smaller number. -/
theorem ofDigits_le_append (s t : List Char) :
    ofDigits 10 s ≤ ofDigits 10 (s ++ t) := by
  rw [ofDigits_append]
  exact (Nat.le_mul_of_pos_right _ (Nat.pow_pos (by decide))).trans
    (Nat.le_add_right _ _)

theorem fits_iff (s : List Char) (c : Char) :
    fits (ofDigits 10 s) c = true ↔ ofDigits 10 (s ++ [c]) < 2 ^ 64 := by
  unfold fits
  rw [decide_eq_true_iff, ofDigits_append_singleton, Nat.mul_comm]

theorem foldl_pushWhole {s : List Char} (h : ofDigits 10 s < 2 ^ 64) :
    s.foldl Scaled.pushWhole ⟨0, 0⟩ = ⟨ofDigits 10 s, 0⟩ := by
  induction s using List.reverseRecOn with
  | nil => rfl
  | append_singleton s c ih =>
    rw [List.foldl_append, ih ((ofDigits_le_append s [c]).trans_lt h)]
    show Scaled.pushWhole ⟨ofDigits 10 s, 0⟩ c = _
    unfold Scaled.pushWhole
    rw [if_pos ⟨rfl, (fits_iff s c).mpr h⟩, ofDigits_append_singleton,
      Nat.mul_comm]

theorem pushFraction_eq {s t : List Char} {e : ℤ}
    (h : ofDigits 10 (s ++ t) < 2 ^ 64) :
    Scaled.pushFraction ⟨ofDigits 10 s, e⟩ t
      = ⟨ofDigits 10 (s ++ t), e - t.length⟩ := by
  induction t generalizing s e with
  | nil =>
    rw [List.append_nil, List.length_nil, Nat.cast_zero, sub_zero]
    rfl
  | cons c t ih =>
    have hsplit : s ++ c :: t = s ++ [c] ++ t := List.append_cons s c t
    rw [hsplit] at h ⊢
    have hfits := (ofDigits_le_append (s ++ [c]) t).trans_lt h
    unfold Scaled.pushFraction
    rw [if_pos ((fits_iff s c).mpr hfits), Nat.mul_comm,
      ← ofDigits_append_singleton, ih h, List.length_cons]
    congr 1
    push_cast
    ring

/-- **Digits that fit a word are all taken in.** -/
theorem scaled_eq {t : NumberText} (h : t.decimal.digits < 2 ^ 64) :
    t.scaled = ⟨t.decimal.digits, -t.fraction.length⟩ := by
  have hwhole := (ofDigits_le_append t.whole t.fraction).trans_lt h
  unfold NumberText.scaled
  rw [foldl_pushWhole hwhole, pushFraction_eq h, zero_sub]
  rfl

theorem number_eq {t : NumberText} (h : t.decimal.digits < 2 ^ 64)
    (hreal : t.IsReal) :
    t.number = (scale (ofInt t.decimal.digits) t.decimal.exponent).map
      fun y => .real (if t.negative then y.neg else y) := by
  have hinteger : t.isInteger = false := by
    unfold NumberText.isInteger
    rcases hreal with hfraction | hpower
    · rw [List.isEmpty_eq_false_iff.mpr hfraction]
      rfl
    · rw [Option.isNone_eq_false_iff.mpr (Option.ne_none_iff_isSome.mp hpower),
        Bool.and_false, Bool.false_and]
  have hexp : -(t.fraction.length : ℤ) + t.power.getD 0
      = t.decimal.exponent := by
    unfold NumberText.decimal
    dsimp only
    ring
  unfold NumberText.number NumberText.real
  rw [hinteger, scaled_eq h]
  dsimp only
  rw [hexp]
  cases scale (ofInt t.decimal.digits) t.decimal.exponent <;> rfl

/-! ## The numbers -/

/-- **What a finite number reads back as**: a finite number with its sign, at
most three places off, and the number itself if its digits are fewer than
fifty-four bits and its power of ten is small. -/
structure ReadsBackAs (x y : Binary64) : Prop where
  isFinite : y.isFinite = true
  negative_eq : y.negative = x.negative
  near : |(y.magnitude : ℤ) - x.magnitude| ≤ 3
  eq_of_exact : (realParts x).decimal.digits < 2 ^ 53 →
    (realParts x).decimal.exponent.natAbs ≤ 22 → y = x

/-- A finite number is its value, rounded. -/
theorem ofRat_realParts {x : Binary64} (hfin : x.isFinite = true) :
    ofRat false (((realParts x).decimal.digits : ℚ)
      * 10 ^ (realParts x).decimal.exponent) = x.abs := by
  have hround := toBinary64_realParts false hfin
  rwa [Decimal.toBinary64_eq_ofRat] at hround

/-- The bounds of the seventeen digits, for what is written. -/
theorem realParts_bounds {x : Binary64} (hfin : x.isFinite = true)
    (hx : x.significand ≠ 0) :
    (realParts x).decimal.digits ≤ 10 ^ 17
      ∧ -324 ≤ (realParts x).decimal.exponent := by
  obtain ⟨hdigits, hexp⟩ := Decimal.shortest_bounds .even hfin hx
  unfold realParts
  rw [decimal_decimalParts]
  split
  · next h =>
    obtain ⟨hceiling, hnonneg⟩ := h
    refine ⟨?_, (by decide : (-324 : ℤ) ≤ -1)⟩
    generalize Decimal.shortest .even x = d at *
    have hlt := lt_ten_pow_digitCount d.digits
    calc d.digits * 10 ^ (d.exponent.toNat + 1)
        ≤ 10 ^ digitCount d.digits * 10 ^ (d.exponent.toNat + 1) :=
          Nat.mul_le_mul_right _ hlt.le
      _ = 10 ^ (digitCount d.digits + (d.exponent.toNat + 1)) :=
          (pow_add _ _ _).symm
      _ ≤ 10 ^ 17 := by
          refine Nat.pow_le_pow_right (by decide) ?_
          unfold Decimal.ceiling at hceiling
          omega
  · exact ⟨hdigits, hexp⟩

theorem two_pow_1024_le_ten_pow : 2 ^ 1024 ≤ 10 ^ 309 := by decide +kernel

theorem exponent_realParts_le {x : Binary64} (hfin : x.isFinite = true)
    (h0 : (realParts x).decimal.digits ≠ 0) :
    (realParts x).decimal.exponent ≤ 308 := by
  have hround := ofRat_realParts hfin
  by_contra hgt
  have hone : (1 : ℚ) ≤ (realParts x).decimal.digits := by
    exact_mod_cast Nat.pos_of_ne_zero h0
  have hbig : (2 : ℚ) ^ 1024 ≤ (realParts x).decimal.digits
      * 10 ^ (realParts x).decimal.exponent := by
    calc (2 : ℚ) ^ 1024 ≤ 10 ^ (309 : ℤ) := by
          exact_mod_cast two_pow_1024_le_ten_pow
      _ ≤ 10 ^ (realParts x).decimal.exponent :=
          zpow_le_zpow_right₀ (by norm_num) (by omega)
      _ ≤ _ := le_mul_of_one_le_left (by positivity) hone
  rw [ofRat_of_two_pow_le false hbig] at hround
  rw [← isFinite_abs, ← hround] at hfin
  exact absurd hfin (by decide)

/-- The three greatest numbers do not become infinite. -/
theorem scale_greatest : ∀ s : Bool,
    ∀ n ∈ [infiniteMagnitude - 1, infiniteMagnitude - 2, infiniteMagnitude - 3],
      (realParts (ofMagnitude s n)).decimal.exponent = 292
        ∧ ((ofInt (realParts (ofMagnitude s n)).decimal.digits).mul
          (powerOfTen 292)).isInfinite = false := by decide +kernel

theorem exists_scale_of_great {x : Binary64} (hfin : x.isFinite = true)
    (h : infiniteMagnitude ≤ x.magnitude + 3) :
    ∃ y, scale (ofInt (realParts x).decimal.digits)
        (realParts x).decimal.exponent = .ok y ∧ y.isInfinite = false := by
  have hlt : x.magnitude < infiniteMagnitude := of_decide_eq_true hfin
  have hmem : x.magnitude ∈ [infiniteMagnitude - 1, infiniteMagnitude - 2,
      infiniteMagnitude - 3] := by
    simp only [List.mem_cons, List.not_mem_nil, or_false]
    omega
  have hgreat := scale_greatest x.negative x.magnitude hmem
  rw [ofMagnitude_negative_magnitude] at hgreat
  refine ⟨_, ?_, hgreat.2⟩
  rw [hgreat.1, scale_of_nonneg _ (by decide) (by decide)]
  exact if_neg (Bool.eq_false_iff.mp hgreat.2)

/-- The sign is put back on what was read without it. -/
theorem signed_eq_ofMagnitude (s : Bool) {y : Binary64}
    (hy : y.negative = false) :
    (if s then y.neg else y) = ofMagnitude s y.magnitude := by
  cases s with
  | true =>
    show ofMagnitude (!y.negative) y.magnitude = _
    rw [hy]
    rfl
  | false =>
    show y = _
    rw [← hy, ofMagnitude_negative_magnitude]

/-- Zero is written with few digits. -/
theorem decimal_realParts_of_zero {x : Binary64} (hx : x.significand = 0) :
    (realParts x).decimal = ⟨0, -1⟩ := by
  have hzero : x.isZero = true :=
    beq_iff_eq.mpr ((significand_eq_zero_iff x).mp hx)
  have hshortest : Decimal.shortest .even x = ⟨0, 0⟩ := if_pos hzero
  unfold realParts
  rw [decimal_decimalParts, hshortest]
  rfl

theorem digits_realParts_ne_zero {x : Binary64} (hfin : x.isFinite = true)
    (hx : x.significand ≠ 0) : (realParts x).decimal.digits ≠ 0 := by
  intro hzero
  have hround := ofRat_realParts hfin
  rw [hzero, Nat.cast_zero, zero_mul] at hround
  have hmag : 0 = x.abs.magnitude := congrArg magnitude hround
  rw [magnitude_abs] at hmag
  exact hx ((significand_eq_zero_iff x).mpr hmag.symm)

/-- The digits are scaled to a number that has the sign put back. -/
theorem number_of_scale {x y : Binary64}
    (hword : (realParts x).decimal.digits < 2 ^ 64)
    (hscale : scale (ofInt (realParts x).decimal.digits)
      (realParts x).decimal.exponent = .ok y) (hy : y.negative = false) :
    (realParts x).number
      = .ok (.real (ofMagnitude x.negative y.magnitude)) := by
  have hsign : (realParts x).negative = x.negative := negative_decimalParts _ _
  rw [number_eq hword (isReal_realParts x), hscale, hsign,
    ← signed_eq_ofMagnitude x.negative hy]
  rfl

/-- **Few digits and a small power of ten are read exactly.** -/
theorem number_of_exact {x : Binary64} (hfin : x.isFinite = true)
    (hdigits : (realParts x).decimal.digits < 2 ^ 53)
    (hexp : (realParts x).decimal.exponent.natAbs ≤ 22) :
    (realParts x).number = .ok (.real x) := by
  have hround := ofRat_realParts hfin
  have hscale := scale_eq_ofRat hdigits hexp
    (by rwa [hround, isFinite_abs])
  rw [hround] at hscale
  rw [number_of_scale (hdigits.trans (by decide)) hscale (negative_abs x),
    magnitude_abs, ofMagnitude_negative_magnitude]

/-- **Scaling goes at most three places wrong**, and not beyond the finite
numbers. -/
theorem exists_scale_near {x : Binary64} (hfin : x.isFinite = true)
    (hx : x.significand ≠ 0) :
    ∃ y, scale (ofInt (realParts x).decimal.digits)
        (realParts x).decimal.exponent = .ok y
      ∧ y.negative = false ∧ y.magnitude < infiniteMagnitude
      ∧ |(y.magnitude : ℤ) - x.magnitude| ≤ 3 := by
  have hdigits := digits_realParts_ne_zero hfin hx
  obtain ⟨hfew, hlo⟩ := realParts_bounds hfin hx
  obtain ⟨w, hw, hplaces, hscale⟩ := exists_scale_eq hdigits
    (hfew.trans_lt (by decide)) hlo (exponent_realParts_le hfin hdigits)
  have hv : (0 : ℚ) < (realParts x).decimal.digits
      * 10 ^ (realParts x).decimal.exponent := by
    have : (0 : ℚ) < (realParts x).decimal.digits := by
      exact_mod_cast Nat.pos_of_ne_zero hdigits
    positivity
  have hnear := abs_magnitude_sub_le false false hv hw
    (k := 3) (by exact_mod_cast hplaces)
  rw [ofRat_realParts hfin, magnitude_abs] at hnear
  suffices hok : scale (ofInt (realParts x).decimal.digits)
      (realParts x).decimal.exponent = .ok (ofRat false w)
        ∧ (ofRat false w).magnitude < infiniteMagnitude from
    ⟨_, hok.1, negative_ofRat _ _, hok.2, hnear⟩
  by_cases hgreat : infiniteMagnitude ≤ x.magnitude + 3
  · obtain ⟨y, hy, hyinf⟩ := exists_scale_of_great hfin hgreat
    rcases hscale with hok | ⟨herror, -⟩
    · obtain rfl := Except.ok.inj (hok.symm.trans hy)
      exact ⟨hok, (magnitude_ofRat_le false w).lt_of_ne
        (ne_of_beq_false hyinf)⟩
    · cases herror.symm.trans hy
  · have hlt : (ofRat false w).magnitude < infiniteMagnitude := by
      have := (abs_le.mp hnear).2
      omega
    rcases hscale with hok | ⟨-, hinfinite⟩
    · exact ⟨hok, hlt⟩
    · exact absurd (eq_of_beq hinfinite) hlt.ne

/-- **Every finite number is read, and as itself or a near neighbour.** -/
theorem exists_number_realParts {x : Binary64} (hfin : x.isFinite = true) :
    ∃ y, (realParts x).number = .ok (.real y) ∧ ReadsBackAs x y := by
  by_cases hexact : (realParts x).decimal.digits < 2 ^ 53
      ∧ (realParts x).decimal.exponent.natAbs ≤ 22
  · refine ⟨x, number_of_exact hfin hexact.1 hexact.2, hfin, rfl, ?_,
      fun _ _ => rfl⟩
    rw [sub_self]
    decide
  · have hx : x.significand ≠ 0 := by
      intro hx
      refine hexact ?_
      rw [decimal_realParts_of_zero hx]
      decide
    obtain ⟨y, hscale, hy, hyfin, hnear⟩ := exists_scale_near hfin hx
    have hword : (realParts x).decimal.digits < 2 ^ 64 :=
      (realParts_bounds hfin hx).1.trans_lt (by decide)
    have hinf := hyfin.trans infiniteMagnitude_lt
    refine ⟨_, number_of_scale hword hscale hy, ?_,
      negative_ofMagnitude _ hinf, ?_, fun h h' => absurd ⟨h, h'⟩ hexact⟩
    · refine decide_eq_true ?_
      rwa [magnitude_ofMagnitude _ hinf]
    · rwa [magnitude_ofMagnitude _ hinf]

/-- **The real number that parts are read as**, if they are read as one. -/
def NumberText.real? (n : NumberText) : Option Binary64 :=
  match n.number with
  | .ok (.real x) => some x
  | _ => none

theorem number_of_real? {n : NumberText} {x : Binary64}
    (h : n.real? = some x) : n.number = .ok (.real x) := by
  unfold NumberText.real? at h
  split at h
  · next hnumber => rw [hnumber, Option.some.inj h]
  · cases h

/-- **The number that is read where a finite one was written.** -/
def readBack (x : Binary64) : Binary64 := (realParts x).real?.getD x

theorem real?_realParts {x : Binary64} (hfin : x.isFinite = true) :
    (realParts x).real? = some (readBack x) := by
  obtain ⟨y, hy, -⟩ := exists_number_realParts hfin
  unfold readBack NumberText.real?
  rw [hy]
  rfl

/-- **A finite number is read as itself or a near neighbour.** -/
theorem readsBackAs_readBack {x : Binary64} (hfin : x.isFinite = true) :
    ReadsBackAs x (readBack x) := by
  obtain ⟨y, hy, hback⟩ := exists_number_realParts hfin
  have heq := (number_of_real? (real?_realParts hfin)).symm.trans hy
  obtain rfl := Number.real.inj (Except.ok.inj heq)
  exact hback

end RegisterMachine.Json
