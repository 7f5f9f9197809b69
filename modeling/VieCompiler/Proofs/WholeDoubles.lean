import VieCompiler.Proofs.Numerals
import Mathlib

/-!
# Doubles read from digits are whole numbers

A number literal is a run of decimal digits, read as the double nearest to the natural number
it spells (`Binary64.ofNat`). Every such double is a whole number or positive infinity: the
rounding keeps 53 significant bits, so a natural number below `2^53` is read exactly, and from
`2^52` on the exponent of the double is no longer negative (`Binary64.ofNat_whole`).

So every number that a program read from digits holds has a numeral of its own: the decimal
digits of its integer value, and for infinity a numeral past the largest double
(`Binary64.wholeDigits`). Read again, that numeral gives the number back
(`Binary64.ofNat_wholeDigits`).
-/

namespace VieCompiler

namespace Binary64

/-- The decimal digits of the integer value of a double, and for a double without one a
numeral of 311 digits, which reads as infinity. -/
def wholeDigits (v : Binary64) : List Char :=
  match v.toInt? with
  | some n => Nat.toDigits 10 n.natAbs
  | none => '1' :: List.replicate 310 '0'

section Rounding

variable {num den : Nat}

theorem roundHalfEven_ge (num den : Nat) : num / den ≤ roundHalfEven num den := by
  simp only [roundHalfEven]
  split <;> omega

theorem floorLog2_one {k : Nat} (positive : 0 < k) : floorLog2 k 1 = Nat.log2 k := by
  have lower := Nat.log2_self_le (Nat.pos_iff_ne_zero.mp positive)
  have atLeast : atLeastPowerOfTwo k 1 (Nat.log2 k) = true := by
    simp [atLeastPowerOfTwo, lower]
  have one : Nat.log2 1 = 0 := by decide
  simp only [floorLog2, one, Nat.cast_zero, sub_zero, atLeast, if_true]

end Rounding

section Encoding

variable {m : Nat} {q : Int}

/-- A significand of 53 bits at an exponent in range is encoded by its own fields. -/
theorem encode_normal (negative : Bool) (low : 2 ^ 52 ≤ m) (high : m < 2 ^ 53)
    (bottom : -1074 ≤ q) (top : q ≤ 971) :
    ∃ biased fraction, encode negative m q = finite negative biased fraction ∧
      significandOf biased fraction = m ∧ exponentOf biased = q := by
  refine ⟨⟨(q + 1075).toNat % 2047, Nat.mod_lt _ (by decide)⟩,
    ⟨(m - 2 ^ 52) % 2 ^ 52, Nat.mod_lt _ (by decide)⟩, ?_, ?_, ?_⟩
  · simp only [encode, if_neg (show ¬971 < q by omega), dif_neg (show ¬m < 2 ^ 52 by omega)]
  · have biased : (q + 1075).toNat % 2047 ≠ 0 := by omega
    simp only [significandOf, biased, if_false]
    omega
  · simp only [exponentOf]
    omega

/-- A significand of 53 bits whose exponent leaves it whole encodes infinity or a whole
double. -/
theorem encode_whole (low : 2 ^ 52 ≤ m) (high : m < 2 ^ 53) (bottom : -1074 ≤ q)
    (whole : 0 ≤ q ∨ m % 2 ^ (-q).toNat = 0) :
    encode false m q = infinite false ∨ ∃ biased fraction, ∃ n : Nat,
      encode false m q = finite false biased fraction ∧
        (finite false biased fraction).toInt? = some (n : Int) := by
  by_cases beyond : 971 < q
  · left
    simp [encode, beyond]
  · right
    obtain ⟨biased, fraction, encoded, significand, exponent⟩ :=
      encode_normal false low high bottom (by omega)
    by_cases nonneg : 0 ≤ q
    · refine ⟨biased, fraction, m * 2 ^ q.toNat, encoded, ?_⟩
      simp [toInt?, magnitude?, isNegative, significand, exponent, nonneg]
    · have divides : m % 2 ^ (-q).toNat = 0 := whole.resolve_left nonneg
      refine ⟨biased, fraction, m / 2 ^ (-q).toNat, encoded, ?_⟩
      simp [toInt?, magnitude?, isNegative, significand, exponent, nonneg, divides]

end Encoding

section Reading

variable {k : Nat}

/-- A positive natural number of at most 310 digits is read through `ofRatio`. -/
theorem ofNat_eq_ofRatio (positive : 0 < k) (short : decimalLength k ≤ 310) :
    ofNat k = ofRatio false k 1 := by
  have notLong : ¬310 < decimalLength k := by omega
  have notSmall : ¬(decimalLength k : Int) < -330 := by omega
  simp [ofNat, ofScientific, positive.ne', notLong, notSmall]

/-- The double nearest to a positive natural number is infinity or whole: rounding keeps a
significand of 53 bits, at an exponent that is negative only for numbers below `2^52`, which
are read exactly. -/
theorem ofRatio_whole (positive : 0 < k) :
    ofRatio false k 1 = infinite false ∨ ∃ biased fraction, ∃ n : Nat,
      ofRatio false k 1 = finite false biased fraction ∧
        (finite false biased fraction).toInt? = some (n : Int) := by
  have lower := Nat.log2_self_le (Nat.pos_iff_ne_zero.mp positive)
  have upper := Nat.lt_log2_self (n := k)
  have exponent : max (floorLog2 k 1 - 52) (-1074) = (Nat.log2 k : Int) - 52 := by
    rw [floorLog2_one positive]
    omega
  unfold ofRatio
  simp only [if_neg (show ¬(k = 0 ∨ 1 = 0) by omega), exponent]
  by_cases wide : 52 ≤ Nat.log2 k
  · -- the significand is the quotient by `2^shift`, rounded, and may carry to `2^53`
    obtain ⟨shift, hshift⟩ : ∃ shift, Nat.log2 k = 52 + shift := ⟨Nat.log2 k - 52, by omega⟩
    have toNat : ((Nat.log2 k : Int) - 52).toNat = shift := by omega
    simp only [show (0 : Int) ≤ (Nat.log2 k : Int) - 52 by omega, if_true, toNat, Nat.one_mul]
    have quotientLow : 2 ^ 52 ≤ k / 2 ^ shift := by
      apply (Nat.le_div_iff_mul_le (by positivity)).mpr
      rw [← Nat.pow_add, ← hshift]
      exact lower
    have quotientHigh : k / 2 ^ shift < 2 ^ 53 := by
      apply (Nat.div_lt_iff_lt_mul (by positivity)).mpr
      rw [← Nat.pow_add, show 53 + shift = Nat.log2 k + 1 by omega]
      exact upper
    have roundLow := roundHalfEven_ge k (2 ^ shift)
    have roundHigh := roundHalfEven_le k (2 ^ shift)
    split
    · exact encode_whole (by norm_num) (by norm_num) (by omega) (.inl (by omega))
    · exact encode_whole (by omega) (by omega) (by omega) (.inl (by omega))
  · -- the number times `2^shift` is the significand itself, with nothing to round
    obtain ⟨shift, hshift⟩ : ∃ shift, Nat.log2 k + shift = 52 := ⟨52 - Nat.log2 k, by omega⟩
    have toNat : (-((Nat.log2 k : Int) - 52)).toNat = shift := by omega
    simp only [show ¬(0 : Int) ≤ (Nat.log2 k : Int) - 52 by omega, if_false, toNat]
    have exact : roundHalfEven (k * 2 ^ shift) 1 = k * 2 ^ shift := by
      simpa using roundHalfEven_exact (k * 2 ^ shift) Nat.one_pos
    have scaledLow : 2 ^ 52 ≤ k * 2 ^ shift := by
      rw [← hshift, Nat.pow_add]
      exact Nat.mul_le_mul_right _ lower
    have scaledHigh : k * 2 ^ shift < 2 ^ 53 := by
      rw [show 53 = Nat.log2 k + 1 + shift by omega, Nat.pow_add]
      exact Nat.mul_lt_mul_of_pos_right upper (by positivity)
    rw [exact, if_neg (by omega)]
    exact encode_whole scaledLow scaledHigh (by omega)
      (.inr (by simp [show 52 - Nat.log2 k = shift by omega]))

/-- Every double read from a natural number is positive infinity or a whole number, which is
not negative. -/
theorem ofNat_whole (k : Nat) :
    ofNat k = infinite false ∨ ∃ biased fraction, ∃ n : Nat,
      ofNat k = finite false biased fraction ∧ (finite false biased fraction).toInt? = some (n : Int) := by
  rcases Nat.eq_zero_or_pos k with zero | positive
  · subst zero
    exact .inr ⟨0, 0, 0, by simp [ofNat, ofScientific], toInt?_of_significand_zero rfl⟩
  by_cases long : 310 < decimalLength k
  · left
    simp [ofNat, ofScientific, positive.ne', long]
  · rw [ofNat_eq_ofRatio positive (by omega)]
    exact ofRatio_whole positive

end Reading

/-- The numeral of a number read from digits reads back as that number. -/
theorem ofNat_wholeDigits (k : Nat) : ofNat (digitValue (ofNat k).wholeDigits) = ofNat k := by
  rcases ofNat_whole k with infinite | ⟨biased, fraction, n, finite, whole⟩
  · -- 311 digits are past the largest double
    rw [infinite]
    decide +kernel
  · rw [finite]
    simp only [wholeDigits, whole, Int.natAbs_natCast, digitValue_toDigits]
    have read := ofScientific_of_toInt? whole (by simp)
    have nonneg : decide ((n : Int) < 0) = false := by simp
    rwa [nonneg, Int.natAbs_natCast] at read

end Binary64

end VieCompiler
