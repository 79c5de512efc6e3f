import Mathlib.Data.List.TakeWhile
import RegisterMachine.Decimal.Notation
import RegisterMachine.Decimal.Shortest
import RegisterMachine.Proofs.Binary64.Nearest

/-!
# What a decimal stands for, and what it reads as

A decimal stands for a rational number, `Decimal.toRat`, and reading it as a
double is rounding that number (`Decimal.toBinary64_eq_ofRat`): the reader
gives up early on decimals of very many digits, and never wrongly. So two
decimals with one value read as one double, and zeros may be moved between the
digits and the exponent at will.

The shortest decimal of a finite double is found by a search that tests what
it finds, with the exact expansion behind it; the expansion has the value of
the double, and so the shortest decimal reads back
(`Decimal.toBinary64_shortest`).
-/

namespace RegisterMachine

/-! ## Strings of digits -/

/-- A decimal digit is worth its distance from zero. -/
theorem digitValue_of_isDigit {c : Char} (h : c.isDigit = true) :
    digitValue c = c.toNat - '0'.toNat := by
  have hc := Char.isDigit_iff_toNat.mp h
  unfold digitValue
  exact if_pos hc

/-- Only the digit zero is worth nothing, and none is worth ten. -/
theorem digitValue_lt_ten {c : Char} (h : c.isDigit = true) :
    digitValue c < 10 ∧ (digitValue c = 0 → c = '0') := by
  obtain ⟨hlo, hhi⟩ := Char.isDigit_iff_toNat.mp h
  change 48 ≤ c.toNat at hlo
  change c.toNat ≤ 57 at hhi
  rw [digitValue_of_isDigit h]
  change c.toNat - 48 < 10 ∧ (c.toNat - 48 = 0 → c = '0')
  refine ⟨by omega, fun hzero => Char.toNat_inj.mp ?_⟩
  change c.toNat = 48
  omega

/-- On decimal digits the value is the one of the core library. -/
theorem ofDigits_eq_ofDigitChars {s : List Char}
    (h : ∀ c ∈ s, c.isDigit = true) :
    ofDigits 10 s = Nat.ofDigitChars 10 s 0 := by
  unfold ofDigits Nat.ofDigitChars
  refine List.foldl_ext _ _ _ fun n c hc => ?_
  rw [digitValue_of_isDigit (h c hc)]

/-- **Digits behind digits shift them.** -/
theorem ofDigits_append (radix : ℕ) (s t : List Char) :
    ofDigits radix (s ++ t)
      = ofDigits radix s * radix ^ t.length + ofDigits radix t := by
  induction t using List.reverseRecOn with
  | nil => simp
  | append_singleton t c ih =>
    rw [← List.append_assoc, ofDigits_append_singleton, ih,
      ofDigits_append_singleton, List.length_append, List.length_singleton,
      pow_succ]
    ring

@[simp] theorem ofDigits_zeros (n : ℕ) : ofDigits 10 (Decimal.zeros n) = 0 := by
  induction n with
  | zero => rfl
  | succ n ih =>
    unfold Decimal.zeros at ih ⊢
    rw [List.replicate_succ', ofDigits_append_singleton, ih]
    rfl

@[simp] theorem length_zeros (n : ℕ) : (Decimal.zeros n).length = n :=
  List.length_replicate

theorem isDigit_of_mem_zeros {n : ℕ} {c : Char} (h : c ∈ Decimal.zeros n) :
    c.isDigit = true := by
  rw [List.eq_of_mem_replicate h]
  rfl

theorem isDigit_of_mem_decimalDigits {n : ℕ} {c : Char}
    (h : c ∈ decimalDigits n) : c.isDigit = true :=
  Nat.isDigit_of_mem_toDigits (by decide) (by decide) h

/-- **The decimal digits of a number spell it.** -/
@[simp] theorem ofDigits_decimalDigits (n : ℕ) :
    ofDigits 10 (decimalDigits n) = n := by
  rw [ofDigits_eq_ofDigitChars fun c => isDigit_of_mem_decimalDigits]
  exact Nat.ofDigitChars_ten_toDigits

theorem digitCount_pos (n : ℕ) : 0 < digitCount n := Nat.length_toDigits_pos

theorem lt_ten_pow_digitCount (n : ℕ) : n < 10 ^ digitCount n :=
  (Nat.length_toDigits_le_iff (by decide) (digitCount_pos n)).mp le_rfl

theorem ten_pow_le_of_ne_zero {n : ℕ} (h : n ≠ 0) :
    10 ^ (digitCount n - 1) ≤ n := by
  rcases Nat.eq_zero_or_pos (digitCount n - 1) with h0 | hpos
  · rw [h0]
    exact Nat.pos_of_ne_zero h
  · by_contra hlt
    have hle : digitCount n ≤ digitCount n - 1 :=
      (Nat.length_toDigits_le_iff (by decide) hpos).mpr (not_le.mp hlt)
    have := digitCount_pos n
    omega

/-- **The digits of a number end in its zeros**, and in front of these in
another digit. -/
theorem exists_append_zeros (n : ℕ) :
    ∃ s, decimalDigits n = s ++ Decimal.zeros (trailingZeros n)
      ∧ ∀ c ∈ s.getLast?, c ≠ '0' := by
  set z := (decimalDigits n).reverse.takeWhile (· == '0') with hz
  set s := (decimalDigits n).reverse.dropWhile (· == '0') with hs
  have hsplit : decimalDigits n = s.reverse ++ z.reverse := by
    rw [← List.reverse_append, List.takeWhile_append_dropWhile,
      List.reverse_reverse]
  have hzeros : z.reverse = Decimal.zeros (trailingZeros n) := by
    refine List.eq_replicate_iff.mpr ⟨List.length_reverse, fun c hc => ?_⟩
    have hzero := List.mem_takeWhile_imp (List.mem_reverse.mp hc)
    exact eq_of_beq hzero
  refine ⟨s.reverse, hzeros ▸ hsplit, fun c hc => ?_⟩
  have hother := List.head?_dropWhile_not (· == '0') (decimalDigits n).reverse
  rw [List.getLast?_reverse, Option.mem_def] at hc
  rw [← hs, hc] at hother
  exact ne_of_beq_false hother

/-- **The zeros at the end of a number's digits are a power of ten in it.** -/
theorem ten_pow_trailingZeros_dvd (n : ℕ) : 10 ^ trailingZeros n ∣ n := by
  obtain ⟨s, hsplit, -⟩ := exists_append_zeros n
  have hvalue := ofDigits_decimalDigits n
  rw [hsplit, ofDigits_append, ofDigits_zeros, length_zeros, add_zero]
    at hvalue
  exact Dvd.intro_left _ hvalue

/-- **No further power of ten is in it**, unless the number is zero. -/
theorem div_ten_pow_trailingZeros_mod_ne {n : ℕ} (hn : n ≠ 0) :
    n / 10 ^ trailingZeros n % 10 ≠ 0 := by
  obtain ⟨s, hsplit, hlast⟩ := exists_append_zeros n
  have hvalue := ofDigits_decimalDigits n
  rw [hsplit, ofDigits_append, ofDigits_zeros, length_zeros, add_zero]
    at hvalue
  have hquotient : n / 10 ^ trailingZeros n = ofDigits 10 s :=
    Nat.div_eq_of_eq_mul_left (Nat.pow_pos (by decide)) hvalue.symm
  rcases List.eq_nil_or_concat' s with rfl | ⟨s, c, rfl⟩
  · rw [ofDigits_nil, zero_mul] at hvalue
    exact absurd hvalue.symm hn
  · have hc : c.isDigit = true := by
      refine isDigit_of_mem_decimalDigits (n := n) ?_
      rw [hsplit]
      simp
    obtain ⟨hlt, hzero⟩ := digitValue_lt_ten hc
    have hne : digitValue c ≠ 0 := mt hzero (hlast c (by simp))
    rw [hquotient, ofDigits_append_singleton]
    omega

namespace Decimal

/-! ## The value of a decimal -/

/-- **The rational number that a decimal stands for.** -/
def toRat (d : Decimal) : ℚ := d.digits * 10 ^ d.exponent

theorem toRat_nonneg (d : Decimal) : 0 ≤ d.toRat := by
  unfold toRat
  positivity

theorem toRat_eq_zero_iff (d : Decimal) : d.toRat = 0 ↔ d.digits = 0 := by
  rw [toRat, mul_eq_zero, Nat.cast_eq_zero]
  exact or_iff_left (by positivity)

/-- The value of a whole number is the number. -/
@[simp] theorem toRat_natCast (n : ℕ) : toRat ⟨n, 0⟩ = n := by
  rw [toRat, zpow_zero, mul_one]

/-- Zeros may be moved from the digits into the exponent. -/
theorem toRat_mul_pow (n k : ℕ) (e : ℤ) :
    toRat ⟨n * 10 ^ k, e⟩ = toRat ⟨n, e + k⟩ := by
  unfold toRat
  rw [zpow_add₀ (by norm_num), zpow_natCast]
  push_cast
  ring

/-- **A decimal in smaller units.** -/
theorem toRat_eq_of_le {d : Decimal} {p : ℤ} (hp : p ≤ d.exponent) :
    d.toRat = toRat ⟨d.digits * 10 ^ (d.exponent - p).toNat, p⟩ := by
  have hexp : p + ((d.exponent - p).toNat : ℕ) = d.exponent := by omega
  rw [toRat_mul_pow, hexp]

/-- The value as a quotient of natural numbers. -/
theorem toRat_eq_div (d : Decimal) :
    d.toRat = ((d.digits * 10 ^ d.exponent.toNat : ℕ) : ℚ)
      / ((10 ^ (-d.exponent).toNat : ℕ) : ℚ) := by
  rw [toRat, zpow_eq_pow_div_pow]
  push_cast
  rw [mul_div_assoc]

/-- A decimal is below the power of ten of its ceiling. -/
theorem toRat_lt_ceiling (d : Decimal) : d.toRat < 10 ^ d.ceiling := by
  rw [toRat, ceiling, zpow_add₀ (by norm_num), zpow_natCast]
  gcongr
  exact_mod_cast lt_ten_pow_digitCount d.digits

/-- A decimal that is not zero reaches the power of ten before it. -/
theorem ceiling_le_toRat {d : Decimal} (h : d.digits ≠ 0) :
    10 ^ (d.ceiling - 1) ≤ d.toRat := by
  have hpos := digitCount_pos d.digits
  have hexp : d.ceiling - 1 = ((digitCount d.digits - 1 : ℕ) : ℤ)
      + d.exponent := by
    unfold ceiling
    omega
  rw [toRat, hexp, zpow_add₀ (by norm_num), zpow_natCast]
  gcongr
  exact_mod_cast ten_pow_le_of_ne_zero h

theorem two_pow_1024_le : 2 ^ 1024 ≤ 10 ^ 310 := by decide +kernel

theorem two_pow_1075_le : 2 ^ 1075 ≤ 10 ^ 330 := by decide +kernel

/-- **Reading a decimal is rounding its value**, for short decimals and for
those that the reader gives up on. -/
theorem toBinary64_eq_ofRat (s : Bool) (d : Decimal) :
    d.toBinary64 s = .ofRat s d.toRat := by
  have hten : (1 : ℚ) < 10 := by norm_num
  unfold toBinary64
  split
  · next h =>
    rw [(toRat_eq_zero_iff d).mpr h]
    rfl
  · next h =>
    split
    · next hbig =>
      refine (Binary64.ofRat_of_two_pow_le s ?_).symm
      calc (2 : ℚ) ^ 1024 ≤ 10 ^ (310 : ℤ) := by
            exact_mod_cast two_pow_1024_le
        _ ≤ 10 ^ (d.ceiling - 1) := zpow_le_zpow_right₀ hten.le (by omega)
        _ ≤ d.toRat := ceiling_le_toRat h
    · split
      · next hsmall =>
        have hpos : 0 < d.toRat :=
          lt_of_lt_of_le (by positivity) (ceiling_le_toRat h)
        refine (Binary64.ofRat_of_le_two_zpow s hpos ?_).symm
        calc d.toRat ≤ 10 ^ d.ceiling := (toRat_lt_ceiling d).le
          _ ≤ 10 ^ (-330 : ℤ) := zpow_le_zpow_right₀ hten.le hsmall.le
          _ ≤ 2 ^ (-1075 : ℤ) := by
              rw [zpow_neg, zpow_neg]
              gcongr
              exact_mod_cast two_pow_1075_le
      · rw [Binary64.ofRatio_eq_ofRat s _ (Nat.pow_pos (by decide)),
          toRat_eq_div]

/-- **Decimals with one value read as one double.** -/
theorem toBinary64_congr {d d' : Decimal} (h : d.toRat = d'.toRat)
    (s : Bool) : d.toBinary64 s = d'.toBinary64 s := by
  rw [toBinary64_eq_ofRat, toBinary64_eq_ofRat, h]

/-! ## The shortest decimal -/

/-- Trimming does not change the value. -/
@[simp] theorem toRat_trim (d : Decimal) : d.trim.toRat = d.toRat := by
  unfold trim
  split
  · rfl
  · rw [← toRat_mul_pow,
      Nat.div_mul_cancel (ten_pow_trailingZeros_dvd d.digits)]

/-- **The exact expansion has the value of the double.** -/
theorem toRat_exact (x : Binary64) :
    (exact x.significand x.exponent).toRat = x.absRat := by
  unfold exact toRat Binary64.absRat
  dsimp only
  have hexp : min x.exponent 0 = -((-x.exponent).toNat : ℤ) := by omega
  rw [hexp, zpow_neg, zpow_natCast, zpow_eq_pow_div_pow 2,
    show (10 : ℚ) = 2 * 5 by norm_num, mul_pow]
  push_cast
  field_simp

/-- **A decimal reads back exactly if its value is rounded to the double.** -/
theorem readsAs_iff (d : Decimal) (x : Binary64) :
    d.readsAs x = true ↔ .ofRat false d.toRat = x.abs := by
  rw [readsAs, toBinary64_eq_ofRat, beq_iff_eq]

/-- A decimal with the value of the double reads back. -/
theorem readsAs_of_toRat_eq {d : Decimal} {x : Binary64}
    (hfin : x.isFinite = true) (h : d.toRat = x.absRat) :
    d.readsAs x = true := by
  rw [readsAs_iff, h, Binary64.ofRat_absRat false hfin]
  rfl

/-- What is found on a grid reads back. -/
theorem readsAs_of_onGrid? {tie : Tie} {x : Binary64} {num den : ℕ} {p : ℤ}
    {d : Decimal} (h : onGrid? tie x num den p = some d) :
    d.readsAs x = true := by
  unfold onGrid? at h
  dsimp only at h
  split at h
  · next hlower hupper =>
    obtain rfl := Option.some.inj h
    unfold nearer
    split
    · exact hlower
    · split
      · exact hupper
      · cases tie with
        | up => exact hupper
        | even =>
          dsimp only
          split
          · exact hlower
          · exact hupper
  · next hlower _ => exact Option.some.inj h ▸ hlower
  · next _ hupper => exact Option.some.inj h ▸ hupper
  · cases h

/-- **The shortest decimal reads back**, with either sign. -/
theorem toBinary64_shortest (tie : Tie) (s : Bool) {x : Binary64}
    (hfin : x.isFinite = true) :
    (shortest tie x).toBinary64 s = .ofMagnitude s x.magnitude := by
  have hlt : x.magnitude < 2 ^ 63 := x.magnitude_lt
  suffices h : .ofRat false (shortest tie x).toRat = x.abs by
    rw [toBinary64_eq_ofRat, Binary64.ofRat_eq_ofMagnitude s false, h,
      Binary64.abs, Binary64.magnitude_ofMagnitude false hlt]
  unfold shortest
  split
  · next hzero =>
    have hmag : x.magnitude = 0 := eq_of_beq hzero
    rw [(toRat_eq_zero_iff _).mpr rfl, Binary64.abs, hmag]
    rfl
  · dsimp only
    rw [toRat_trim]
    -- what the search found was tested; what stands behind it is exact
    cases hfound : (List.range 17).findSome? _ with
    | some d =>
      obtain ⟨k, -, hk⟩ := List.exists_of_findSome?_eq_some hfound
      exact (readsAs_iff d x).mp (readsAs_of_onGrid? hk)
    | none =>
      rw [Option.getD_none, toRat_exact, Binary64.ofRat_absRat false hfin]
      rfl

end Decimal

end RegisterMachine
