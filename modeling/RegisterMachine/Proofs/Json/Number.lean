import RegisterMachine.Proofs.Json.RealNumber
import RegisterMachine.Proofs.Json.Understood

/-!
# Numbers read from JSON

An integer is written in digits, with neither fraction nor power, so nothing is
rounded on the way back: its digits are all taken in, and it comes back as long
as it fits a word, with or without a sign (`Json.reads_integer`). Both kinds of
machine words do, to the very ends of their ranges, and so their readers
understand them. A double may be read from an integer as well, and from a real
number as what its digits and its power of ten are scaled to.
-/

namespace RegisterMachine.Json

open NumberText

variable {z least greatest : ℤ}

/-! ## The value -/

/-- The digits of an integer are taken in as a whole. -/
theorem scaled_intParts (h : z.natAbs < 2 ^ 64) :
    (intParts z).scaled = ⟨z.natAbs, 0⟩ := by
  have hdigits : (intParts z).decimal.digits = z.natAbs := by
    unfold NumberText.decimal intParts
    rw [List.append_nil]
    exact ofDigits_decimalDigits _
  rw [scaled_eq (by rwa [hdigits]), hdigits]
  rfl

/-- **The value of an integer as written**, if it fits a word. -/
theorem number_intParts (hlo : -2 ^ 63 ≤ z) (hhi : z < 2 ^ 64) :
    (intParts z).number
      = .ok (if z < 0 then .negative (Int64.ofInt z)
        else .natural (UInt64.ofNat z.natAbs)) := by
  have hscaled := scaled_intParts (z := z) (by omega)
  have hinteger : (intParts z).isInteger = true := by
    unfold NumberText.isInteger
    rw [hscaled]
    rfl
  unfold NumberText.number
  rw [hinteger, hscaled, if_pos rfl]
  by_cases hz : z < 0
  · have hnegative : (intParts z).negative = true := decide_eq_true hz
    have habs : -(z.natAbs : ℤ) = z := by omega
    rw [hnegative, if_pos hz]
    dsimp only
    rw [if_neg (by decide), if_pos (by omega), habs]
  · have hnegative : (intParts z).negative = false := decide_eq_false hz
    rw [hnegative, if_neg hz]
    rfl

/-- **Nothing is lost** where it fits. -/
theorem toInt?_intParts (hlo : -2 ^ 63 ≤ z) (hhi : z < 2 ^ 64) :
    (if z < 0 then Number.negative (Int64.ofInt z)
      else .natural (UInt64.ofNat z.natAbs)).toInt? = some z := by
  by_cases hz : z < 0
  · rw [if_pos hz]
    refine congrArg some (Int64.toInt_ofInt_of_le hlo ?_)
    omega
  · rw [if_neg hz]
    refine congrArg some ?_
    show ((UInt64.ofNat z.natAbs).toNat : ℤ) = z
    rw [UInt64.toNat_ofNat', Nat.mod_eq_of_lt (by omega)]
    omega

/-! ## The readers -/

variable {means : NumberText → Binary64 → Prop} {t : List Char}

/-- **An integer is read as itself**, between bounds that it lies in. -/
theorem reads_integer (ht : WritesNumber (intParts z) t) (hleast : least ≤ z)
    (hgreatest : z ≤ greatest) (hlo : -2 ^ 63 ≤ z) (hhi : z < 2 ^ 64) :
    Reads (integer least greatest) t z := by
  intro s hs
  refine (reads_number ht (number_intParts hlo hhi) s hs).bind fun _ => ?_
  dsimp only
  rw [toInt?_intParts hlo hhi]
  dsimp only
  rw [if_pos ⟨hleast, hgreatest⟩]
  exact .ok _

/-- **A real number is no integer**, not even a whole one. -/
theorem integer_of_real {n : NumberText} {x : Binary64} {s : List Char}
    (ht : WritesNumber n t) (hx : n.number = .ok (.real x)) (hs : EndsNumber s) :
    integer least greatest (t ++ s) = .error .unexpected := by
  obtain ⟨_, hnumber⟩ := reads_number ht hx s hs
  unfold integer
  rw [hnumber]
  rfl

/-- An unsigned word is made from its integer. -/
theorem toWord?_toNat (n : UInt64) : toWord? (.int n.toNat) = some n := by
  have hlt := n.toNat_lt
  unfold toWord?
  dsimp only
  rw [if_pos (by omega), Int.toNat_natCast, UInt64.ofNat_toNat]

/-- A signed word is made from its integer. -/
theorem toSignedWord?_toInt (v : Int64) :
    toSignedWord? (.int v.toInt) = some v := by
  have hlo : -2 ^ 63 ≤ v.toInt := v.minValue_le_toInt
  have hhi : v.toInt < 2 ^ 63 := v.toInt_lt
  unfold toSignedWord?
  dsimp only
  rw [if_pos ⟨hlo, hhi⟩, Int64.ofInt_toInt]

/-- **An unsigned word is understood**, the greatest included. -/
theorem understands_word : Understands means word toWord? where
  skips := (skipsSpaces_integer _ _).map _
  reads j t n ht hn := by
    cases ht with
    | @int z _ ht =>
      obtain ⟨⟨hlo, hhi⟩, heq⟩ := Option.ite_none_right_eq_some.mp hn
      cases heq
      intro s hs
      exact (reads_integer ht hlo (by omega) (by omega) hhi s hs).map
        fun _ => ⟨rfl, rfl⟩
    | _ => cases hn

/-- **A signed word is understood**, the least included. -/
theorem understands_signedWord :
    Understands means signedWord toSignedWord? where
  skips := (skipsSpaces_integer _ _).map _
  reads j t v ht hv := by
    cases ht with
    | @int z _ ht =>
      obtain ⟨⟨hlo, hhi⟩, heq⟩ := Option.ite_none_right_eq_some.mp hv
      cases heq
      intro s hs
      exact (reads_integer ht hlo (by omega) hlo (by omega) s hs).map
        fun _ => ⟨rfl, rfl⟩
    | _ => cases hv

/-- An integer is worth as much as its digits. -/
theorem toBinary64_intParts (hlo : -2 ^ 63 ≤ z) (hhi : z < 2 ^ 64) :
    (if z < 0 then Number.negative (Int64.ofInt z)
      else .natural (UInt64.ofNat z.natAbs)).toBinary64 = .ofInt z := by
  by_cases hz : z < 0
  · rw [if_pos hz]
    show Binary64.ofInt (Int64.ofInt z).toInt = _
    rw [Int64.toInt_ofInt_of_le hlo (by omega)]
  · rw [if_neg hz]
    show Binary64.ofRatio false (UInt64.ofNat z.natAbs).toNat 1 = _
    rw [UInt64.toNat_ofNat', Nat.mod_eq_of_lt (by omega), Binary64.ofInt,
      decide_eq_false hz]

/-- **A double is understood**, as the number that its parts are read as. -/
theorem understands_toBinary64 :
    Understands (ReadAs NumberText.real?)
      (fun s => (number s).map (Read.map Number.toBinary64)) toBinary64? where
  skips := skipsSpaces_number.map _
  reads j t x ht hx := by
    intro s hs
    cases ht with
    | @int z _ ht =>
      obtain ⟨⟨hlo, hhi⟩, heq⟩ := Option.ite_none_right_eq_some.mp hx
      cases heq
      exact (reads_number ht (number_intParts hlo hhi) s hs).map
        fun _ => ⟨toBinary64_intParts hlo hhi, rfl⟩
    | real hnumber _ ht =>
      cases hx
      exact (reads_number ht (number_of_real? hnumber) s hs).map
        fun _ => ⟨rfl, rfl⟩
    | _ => cases hx

end RegisterMachine.Json
