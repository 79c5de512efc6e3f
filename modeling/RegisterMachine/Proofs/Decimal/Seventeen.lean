import RegisterMachine.Proofs.Binary64.Position
import RegisterMachine.Proofs.Decimal.Reading

/-!
# Seventeen digits suffice

The search for the shortest decimal tries one digit, two, and so on up to
seventeen. The multiples of a power of ten next to a double read back once
they are close enough to it, and that is so at the seventeenth digit
(`Decimal.readsAs_of_near`); where the doubles run out of digits it is so at
`10 ^ (-324)` already. So the search ends with a decimal of at most seventeen
digits in units of no less than `10 ^ (-324)` (`Decimal.shortest_bounds`), and
what stands behind it is never used.
-/

namespace RegisterMachine.Decimal

theorem two_pow_1074_lt : 2 ^ 1074 < 10 ^ 324 := by decide +kernel

/-- The least double is worth more than `10 ^ (-324)`. -/
theorem ten_zpow_lt_absRat {x : Binary64} (hx : x.significand ≠ 0) :
    10 ^ (-324 : ℤ) < x.absRat := by
  have hten : (10 : ℚ) ^ (-324 : ℤ) < 2 ^ (-1074 : ℤ) := by
    rw [zpow_neg, zpow_neg]
    exact inv_strictAnti₀ (by positivity) (by exact_mod_cast two_pow_1074_lt)
  have hsig : (1 : ℚ) ≤ x.significand := by
    exact_mod_cast Nat.pos_of_ne_zero hx
  calc (10 : ℚ) ^ (-324 : ℤ) < 2 ^ (-1074 : ℤ) := hten
    _ ≤ 2 ^ x.exponent :=
        zpow_le_zpow_right₀ (by norm_num) x.neg_1074_le_exponent
    _ ≤ x.absRat := le_mul_of_one_le_left (by positivity) hsig

/-! ## Close enough to read back -/

/-- Within half a unit that is a small fraction of the value the place among
the doubles moves by less than half a step. -/
theorem abs_position_sub_lt_of_fraction {v w u : ℚ} (hv : 0 < v) (hw : 0 < w)
    (hu : 0 < u) (hnear : |w - v| ≤ u / 2) (hfine : u * 10 ^ 16 ≤ v) :
    |Binary64.position w - Binary64.position v| < 1 / 2 := by
  have hmin : (10 ^ 16 - 1 / 2) * u ≤ min v w := by
    have := (abs_le.mp hnear).1
    refine le_min ?_ ?_ <;> linarith
  have hclose : |w - v| ≤ 1 / (2 * 10 ^ 16 - 1) * min v w + 0 := by
    calc |w - v| ≤ u / 2 := hnear
      _ = 1 / (2 * 10 ^ 16 - 1) * ((10 ^ 16 - 1 / 2) * u) := by
          norm_num
          ring
      _ ≤ _ := by
          rw [add_zero]
          gcongr
  refine lt_of_le_of_lt
    (Binary64.abs_position_sub_le hv hw (by norm_num) le_rfl hclose) ?_
  rw [zero_mul, add_zero]
  norm_num

/-- So it does within half a unit that is a small part of the least double. -/
theorem abs_position_sub_lt_of_part {v w u : ℚ} (hv : 0 < v) (hw : 0 < w)
    (hnear : |w - v| ≤ u / 2) (hfine : u ≤ 10 ^ (-324 : ℤ)) :
    |Binary64.position w - Binary64.position v| < 1 / 2 := by
  have hclose : |w - v| ≤ 0 * min v w + 10 ^ (-324 : ℤ) / 2 := by
    rw [zero_mul, zero_add]
    refine hnear.trans ?_
    gcongr
  have hlt : (10 : ℚ) ^ (-324 : ℤ) * 2 ^ 1074 < 1 := by
    rw [zpow_neg, inv_mul_lt_iff₀ (by positivity), mul_one]
    exact_mod_cast two_pow_1074_lt
  refine lt_of_le_of_lt
    (Binary64.abs_position_sub_le hv hw le_rfl (by positivity) hclose) ?_
  rw [zero_mul, zero_add, div_mul_eq_mul_div]
  exact div_lt_div_of_pos_right hlt two_pos

/-- **A decimal within half its unit reads back** if the unit is fine: the
seventeenth digit of the double, or `10 ^ (-324)`. -/
theorem readsAs_of_near {d : Decimal} {x : Binary64}
    (hfin : x.isFinite = true) (hx : x.significand ≠ 0) (hd : d.digits ≠ 0)
    (hnear : |d.toRat - x.absRat| ≤ 10 ^ d.exponent / 2)
    (hfine : 10 ^ d.exponent * 10 ^ 16 ≤ x.absRat ∨ d.exponent ≤ -324) :
    d.readsAs x = true := by
  have hv : 0 < x.absRat := lt_trans (by positivity) (ten_zpow_lt_absRat hx)
  have hw : 0 < d.toRat := by
    have hdigits : (0 : ℚ) < d.digits := by
      exact_mod_cast Nat.pos_of_ne_zero hd
    exact mul_pos hdigits (by positivity)
  have hmag : x.magnitude < Binary64.infiniteMagnitude :=
    of_decide_eq_true hfin
  rw [readsAs_iff]
  refine Binary64.ofRat_eq_of_position false hw hmag.le ?_
  rw [← Binary64.position_absRat hx]
  rcases hfine with hfine | hfine
  · exact abs_position_sub_lt_of_fraction hv hw (by positivity) hnear hfine
  · exact abs_position_sub_lt_of_part hv hw hnear
      (zpow_le_zpow_right₀ (by norm_num) hfine)

/-! ## The grids -/

/-- A quotient of one and more has as many digits as its whole part. -/
theorem leadingExponent_bounds_of_le {num den : ℕ} (hden : den ≠ 0)
    (h : den ≤ num) :
    (10 : ℚ) ^ leadingExponent num den ≤ num / den
      ∧ (num : ℚ) / den < 10 ^ (leadingExponent num den + 1) := by
  have hden' : (0 : ℚ) < den := by exact_mod_cast Nat.pos_of_ne_zero hden
  have hdiv : num / den ≠ 0 := (Nat.div_pos h (Nat.pos_of_ne_zero hden)).ne'
  have hpos := digitCount_pos (num / den)
  have hlo := ten_pow_le_of_ne_zero hdiv
  have hhi := lt_ten_pow_digitCount (num / den)
  have hexp : (digitCount (num / den) : ℤ) - 1
      = (digitCount (num / den) - 1 : ℕ) := by omega
  unfold leadingExponent
  rw [if_pos h, sub_add_cancel, hexp, zpow_natCast, zpow_natCast]
  constructor
  · rw [le_div_iff₀ hden']
    exact_mod_cast (Nat.le_div_iff_mul_le (Nat.pos_of_ne_zero hden)).mp hlo
  · rw [div_lt_iff₀ hden']
    exact_mod_cast (Nat.div_lt_iff_lt_mul (Nat.pos_of_ne_zero hden)).mp hhi

/-- The leading digit of a quotient below one stands as far behind the point as
its inverse has digits, an inverse that is whole being taken one less. -/
theorem leadingExponent_bounds_of_lt {num den : ℕ} (hnum : num ≠ 0)
    (h : num < den) :
    (10 : ℚ) ^ leadingExponent num den ≤ num / den
      ∧ (num : ℚ) / den < 10 ^ (leadingExponent num den + 1) := by
  have hnum' : (0 : ℚ) < num := by exact_mod_cast Nat.pos_of_ne_zero hnum
  have hden' : (0 : ℚ) < den := hnum'.trans (by exact_mod_cast h)
  unfold leadingExponent
  rw [if_neg (not_le.mpr h)]
  set k := (den - 1) / num with hk
  have hpos := digitCount_pos k
  constructor
  · have hhi := (Nat.div_lt_iff_lt_mul (Nat.pos_of_ne_zero hnum)).mp
      (lt_ten_pow_digitCount k)
    rw [zpow_neg, zpow_natCast, inv_le_comm₀ (by positivity) (by positivity),
      inv_div, div_le_iff₀ hnum']
    have hle : den ≤ 10 ^ digitCount k * num := by omega
    exact_mod_cast hle
  · have hexp : -(digitCount k : ℤ) + 1 = -((digitCount k - 1 : ℕ) : ℤ) := by
      omega
    rw [hexp, zpow_neg, zpow_natCast,
      lt_inv_comm₀ (by positivity) (by positivity), inv_div,
      lt_div_iff₀ hnum']
    by_cases hzero : k = 0
    · rw [hzero, show digitCount 0 = 1 from rfl, Nat.sub_self, pow_zero, one_mul]
      exact_mod_cast h
    · have hlo : 10 ^ (digitCount k - 1) * num ≤ den - 1 :=
        (Nat.le_div_iff_mul_le (Nat.pos_of_ne_zero hnum)).mp
          (ten_pow_le_of_ne_zero hzero)
      have hlt : 10 ^ (digitCount k - 1) * num < den := by omega
      exact_mod_cast hlt

/-- **The power of ten of the leading digit**, by two comparisons. -/
theorem leadingExponent_bounds {num den : ℕ} (hnum : num ≠ 0)
    (hden : den ≠ 0) :
    (10 : ℚ) ^ leadingExponent num den ≤ num / den
      ∧ (num : ℚ) / den < 10 ^ (leadingExponent num den + 1) := by
  rcases le_or_gt den num with h | h
  · exact leadingExponent_bounds_of_le hden h
  · exact leadingExponent_bounds_of_lt hnum h

/-- The lower of the two multiples of a power of ten around a quotient. -/
def below (num den : ℕ) (p : ℤ) : ℕ :=
  num * 10 ^ (-p).toNat / (den * 10 ^ p.toNat)

/-- A quotient in units of a power of ten. -/
theorem div_div_zpow_eq (num den : ℕ) (p : ℤ) :
    (num : ℚ) / den / 10 ^ p
      = ((num * 10 ^ (-p).toNat : ℕ) : ℚ) / ((den * 10 ^ p.toNat : ℕ) : ℚ) := by
  rw [zpow_eq_pow_div_pow]
  push_cast
  field_simp

/-- **A quotient lies between two neighbouring multiples.** -/
theorem below_bounds (num : ℕ) {den : ℕ} (hden : den ≠ 0) (p : ℤ) :
    (below num den p : ℚ) * 10 ^ p ≤ num / den
      ∧ (num : ℚ) / den < (below num den p + 1) * 10 ^ p := by
  have hden' : (0 : ℚ) < den := by exact_mod_cast Nat.pos_of_ne_zero hden
  have hunit : (0 : ℚ) < 10 ^ p := by positivity
  have hfloor : ⌊(num : ℚ) / den / 10 ^ p⌋₊ = below num den p := by
    rw [div_div_zpow_eq]
    exact Nat.floor_div_eq_div _ _
  have hnonneg : (0 : ℚ) ≤ num / den / 10 ^ p := by positivity
  constructor
  · rw [← le_div_iff₀ hunit, ← hfloor]
    exact Nat.floor_le hnonneg
  · rw [← div_lt_iff₀ hunit, ← hfloor]
    exact Nat.lt_floor_add_one _

/-- What is found on a grid is one of the two multiples. -/
theorem onGrid?_bounds {tie : Tie} {x : Binary64} {num den : ℕ} {p : ℤ}
    {d : Decimal} (h : onGrid? tie x num den p = some d) :
    d.exponent = p ∧ d.digits ≤ below num den p + 1 := by
  unfold onGrid? at h
  dsimp only at h
  split at h
  · obtain rfl := Option.some.inj h
    unfold nearer
    split
    · exact ⟨rfl, Nat.le_succ _⟩
    · split
      · exact ⟨rfl, le_rfl⟩
      · cases tie with
        | up => exact ⟨rfl, le_rfl⟩
        | even =>
          dsimp only
          split
          · exact ⟨rfl, Nat.le_succ _⟩
          · exact ⟨rfl, le_rfl⟩
  · exact Option.some.inj h ▸ ⟨rfl, Nat.le_succ _⟩
  · exact Option.some.inj h ▸ ⟨rfl, le_rfl⟩
  · cases h

theorem isSome_onGrid? {tie : Tie} {x : Binary64} {num den : ℕ} {p : ℤ}
    (h : readsAs ⟨below num den p, p⟩ x = true
      ∨ readsAs ⟨below num den p + 1, p⟩ x = true) :
    (onGrid? tie x num den p).isSome = true := by
  unfold below at h
  unfold onGrid?
  dsimp only
  rcases h with h | h <;> rw [h] <;> split <;> simp_all

/-- **On a fine grid the search succeeds.** -/
theorem isSome_onGrid?_of_fine (tie : Tie) {x : Binary64} {num den : ℕ}
    (hfin : x.isFinite = true) (hx : x.significand ≠ 0) (hden : den ≠ 0)
    (hvalue : x.absRat = num / den) {p : ℤ} (hp : 10 ^ p ≤ x.absRat)
    (hfine : 10 ^ p * 10 ^ 16 ≤ x.absRat ∨ p ≤ -324) :
    (onGrid? tie x num den p).isSome = true := by
  obtain ⟨hlo, hhi⟩ := below_bounds num hden p
  rw [← hvalue] at hlo hhi
  have hunit : (0 : ℚ) < 10 ^ p := by positivity
  have hne : below num den p ≠ 0 := by
    intro hzero
    rw [hzero, Nat.cast_zero, zero_add, one_mul] at hhi
    exact absurd hhi (not_lt.mpr hp)
  apply isSome_onGrid?
  -- the nearer of the two is within half a unit
  rcases le_or_gt (x.absRat - below num den p * 10 ^ p) (10 ^ p / 2)
    with hhalf | hhalf
  · refine .inl (readsAs_of_near hfin hx hne ?_ hfine)
    unfold toRat
    rw [abs_sub_comm, abs_of_nonneg (sub_nonneg.mpr hlo)]
    exact hhalf
  · refine .inr (readsAs_of_near hfin hx (Nat.succ_ne_zero _) ?_ hfine)
    unfold toRat
    push_cast
    rw [abs_of_nonneg (sub_nonneg.mpr hhi.le)]
    linarith

/-! ## The search -/

/-- A search finds something no later than the first place known to hold
something. -/
theorem findSome?_range {α : Type} {f : ℕ → Option α} {k n : ℕ} (hk : k < n)
    (h : (f k).isSome = true) :
    ∃ a, (List.range n).findSome? f = some a ∧ ∃ i ≤ k, f i = some a := by
  have hsplit : List.range n
      = List.range (k + 1) ++ (List.range (n - (k + 1))).map (k + 1 + ·) := by
    rw [← List.range_add]
    congr 1
    omega
  have hfirst : ((List.range (k + 1)).findSome? f).isSome = true := by
    rw [List.findSome?_isSome_iff]
    exact ⟨k, List.mem_range.mpr (Nat.lt_succ_self k), h⟩
  obtain ⟨a, ha⟩ := Option.isSome_iff_exists.mp hfirst
  obtain ⟨i, hi, hfi⟩ := List.exists_of_findSome?_eq_some ha
  refine ⟨a, ?_, i, Nat.lt_succ_iff.mp (List.mem_range.mp hi), hfi⟩
  rw [hsplit, List.findSome?_append, ha]
  rfl

/-- Trimming takes digits away and makes the unit greater. -/
theorem trim_bounds (d : Decimal) :
    d.trim.digits ≤ d.digits ∧ d.exponent ≤ d.trim.exponent := by
  unfold trim
  split
  · exact ⟨le_rfl, le_rfl⟩
  · refine ⟨Nat.div_le_self _ _, ?_⟩
    dsimp only
    omega

/-- Among the seventeen grids of the search is a fine one. -/
theorem exists_fine {x : Binary64} (hx : x.significand ≠ 0) {e : ℤ}
    (hlo : 10 ^ e ≤ x.absRat) (hhi : x.absRat < 10 ^ (e + 1)) :
    ∃ k : ℕ, k ≤ 16 ∧ -324 ≤ e - k ∧ 10 ^ (e - k) ≤ x.absRat
      ∧ (10 ^ (e - k) * 10 ^ 16 ≤ x.absRat ∨ e - k ≤ -324) := by
  have he : -324 ≤ e := by
    have hlt := (zpow_lt_zpow_iff_right₀ (by norm_num : (1 : ℚ) < 10)).mp
      ((ten_zpow_lt_absRat hx).trans hhi)
    omega
  have hbelow : ∀ k : ℕ, (10 : ℚ) ^ (e - k) ≤ x.absRat := fun k =>
    (zpow_le_zpow_right₀ (by norm_num) (by omega)).trans hlo
  rcases le_total (e + 324) 16 with h | h
  · exact ⟨(e + 324).toNat, by omega, by omega, hbelow _, .inr (by omega)⟩
  · refine ⟨16, le_rfl, by omega, hbelow _, .inl ?_⟩
    rw [← zpow_natCast, ← zpow_add₀ (by norm_num)]
    simpa using hlo

/-- On the grid of a digit the multiples have no more digits than that. -/
theorem below_lt {num den : ℕ} (hden : den ≠ 0) {e : ℤ}
    (hhi : (num : ℚ) / den < 10 ^ (e + 1)) (i : ℕ) :
    below num den (e - i) < 10 ^ (i + 1) := by
  have hlt : (below num den (e - i) : ℚ) * 10 ^ (e - i)
      < 10 ^ (i + 1) * 10 ^ (e - i) := by
    calc _ ≤ (num : ℚ) / den := (below_bounds num hden (e - i)).1
      _ < 10 ^ (e + 1) := hhi
      _ = 10 ^ (i + 1) * 10 ^ (e - i) := by
          rw [← zpow_natCast, ← zpow_add₀ (by norm_num)]
          congr 1
          omega
  exact_mod_cast lt_of_mul_lt_mul_right hlt (by positivity)

/-- **What the search comes to**: the grid that it ends on, by the number of the
last digit, and what it finds there. -/
structure IsFound (tie : Tie) (x : Binary64) (num den : ℕ) (e : ℤ) (i : ℕ)
    (d : Decimal) : Prop where
  den_ne_zero : den ≠ 0
  value_eq : x.absRat = num / den
  /-- The exponent is that of the leading digit. -/
  le_value : 10 ^ e ≤ x.absRat
  value_lt : x.absRat < 10 ^ (e + 1)
  le_sixteen : i ≤ 16
  le_exponent : -324 ≤ e - i
  onGrid_eq : onGrid? tie x num den (e - i) = some d
  /-- No grid in front of it holds anything. -/
  first : ∀ k : ℕ, k ≤ 16 →
    (onGrid? tie x num den (e - k)).isSome = true → i ≤ k
  shortest_eq : shortest tie x = d.trim

/-- **The search ends** on one of the seventeen grids. -/
theorem exists_isFound (tie : Tie) {x : Binary64} (hfin : x.isFinite = true)
    (hx : x.significand ≠ 0) :
    ∃ num den e i d, IsFound tie x num den e i d := by
  set num := x.significand * 2 ^ x.exponent.toNat with hnum
  set den := 2 ^ (-x.exponent).toNat with hden
  have hnum0 : num ≠ 0 := Nat.mul_ne_zero hx (Nat.two_pow_pos _).ne'
  have hden0 : den ≠ 0 := (Nat.two_pow_pos _).ne'
  have hvalue : x.absRat = num / den := x.absRat_eq_div
  obtain ⟨hlo, hhi⟩ := leadingExponent_bounds hnum0 hden0
  set e := leadingExponent num den with he
  rw [← hvalue] at hlo hhi
  obtain ⟨k, hk16, hk324, hunit, hfine⟩ := exists_fine hx hlo hhi
  have hsome : (onGrid? tie x num den (e - k)).isSome = true :=
    isSome_onGrid?_of_fine tie hfin hx hden0 hvalue hunit hfine
  obtain ⟨d, hfound, i, hik, hi⟩ := findSome?_range
    (f := fun k : ℕ => onGrid? tie x num den (e - k)) (by omega : k < 17) hsome
  have hzero : x.isZero = false := by
    rw [Binary64.isZero, beq_eq_false_iff_ne]
    exact fun h => hx ((Binary64.significand_eq_zero_iff x).mpr h)
  refine ⟨num, den, e, i, d,
    { den_ne_zero := hden0
      value_eq := hvalue
      le_value := hlo
      value_lt := hhi
      le_sixteen := hik.trans hk16
      le_exponent := by omega
      onGrid_eq := hi
      first := fun k' hk' hsome' => ?_
      shortest_eq := ?_ }⟩
  · -- what is found shows its grid, so it is found on no other
    obtain ⟨d', hfound', i', hik', hi'⟩ := findSome?_range
      (f := fun k : ℕ => onGrid? tie x num den (e - k)) (by omega : k' < 17)
      hsome'
    obtain rfl : d = d' := Option.some.inj (hfound.symm.trans hfound')
    have hexp := (onGrid?_bounds hi).1
    have hexp' := (onGrid?_bounds hi').1
    omega
  · unfold shortest
    rw [if_neg (by rw [hzero]; decide)]
    dsimp only
    rw [← hnum, ← hden, ← he, hfound, Option.getD_some]

/-- On the grid of a digit what is found has no more digits than that, or is
the power of ten behind them. -/
theorem IsFound.digits_le {tie : Tie} {x : Binary64} {num den : ℕ} {e : ℤ}
    {i : ℕ} {d : Decimal} (h : IsFound tie x num den e i d) :
    d.digits ≤ 10 ^ (i + 1) := by
  have hdigits := (onGrid?_bounds h.onGrid_eq).2
  have hbelow := below_lt h.den_ne_zero (h.value_eq ▸ h.value_lt) i
  omega

/-- **The shortest decimal has at most seventeen digits**, in units of no less
than `10 ^ (-324)`. -/
theorem shortest_bounds (tie : Tie) {x : Binary64} (hfin : x.isFinite = true)
    (hx : x.significand ≠ 0) :
    (shortest tie x).digits ≤ 10 ^ 17 ∧ -324 ≤ (shortest tie x).exponent := by
  obtain ⟨num, den, e, i, d, h⟩ := exists_isFound tie hfin hx
  obtain ⟨hshorter, hgreater⟩ := d.trim_bounds
  have hexp := (onGrid?_bounds h.onGrid_eq).1
  have hpow : 10 ^ (i + 1) ≤ 10 ^ 17 :=
    Nat.pow_le_pow_right (by decide) (Nat.succ_le_succ h.le_sixteen)
  rw [h.shortest_eq]
  exact ⟨(hshorter.trans h.digits_le).trans hpow, by
    have := h.le_exponent
    omega⟩

end RegisterMachine.Decimal
