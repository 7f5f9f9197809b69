import VieCompiler.Number.Binary64
import Mathlib

/-!
# Reading a value as the nearest double

`Binary64.ofRatio` rounds `num / den` to a double in exact arithmetic. Two facts about it
carry every statement about the numbers that generated code writes.

* Reading depends only on the value. `floorLog2` is the binary logarithm of the ratio rounded
  down (`floorLog2_eq_log`), and half-even rounding of a quotient is unchanged when both of
  its terms are scaled alike, so `ofRatio` is unchanged when numerator and denominator are
  (`ofRatio_mul_mul`), and `ofScientific` gives the same double for `m · 10^e` however many
  trailing zeros the digits carry (`ofScientific_mul_pow`).
* A value that a double holds exactly reads as that double (`ofRatio_magnitude`): its
  significand is found again at its own exponent, with nothing to round.

The exact value of a finite double is `magnitudeOf`, with its sign `toRat?`.
-/

namespace VieCompiler

namespace Binary64

/-- The exact magnitude `m · 2^q` of the finite double with these fields. -/
def magnitudeOf (biased : Fin 2047) (fraction : Fin (2 ^ 52)) : ℚ :=
  significandOf biased fraction * 2 ^ exponentOf biased

/-- The exact value of a finite double; `none` for infinities and for not-a-number. -/
def toRat? : Binary64 → Option ℚ
  | finite negative biased fraction =>
    some (if negative then -magnitudeOf biased fraction else magnitudeOf biased fraction)
  | _ => none

section Logarithm

variable {num den : Nat}

theorem log_eq_of_bounds {r : ℚ} {f : Int} (lower : (2 : ℚ) ^ f ≤ r) (upper : r < 2 ^ (f + 1)) :
    Int.log 2 r = f := by
  have positive : 0 < r := lt_of_lt_of_le (zpow_pos (by norm_num) f) lower
  have atLeast := (Int.zpow_le_iff_le_log (b := 2) (by norm_num) positive).mp (by exact_mod_cast lower)
  have below := (Int.lt_zpow_iff_log_lt (b := 2) (by norm_num) positive).mp (by exact_mod_cast upper)
  omega

/-- The test `atLeastPowerOfTwo` compares the ratio with the power of two exactly. -/
theorem atLeastPowerOfTwo_iff (denPos : 0 < den) (e : Int) :
    atLeastPowerOfTwo num den e = true ↔ (2 : ℚ) ^ e ≤ (num : ℚ) / den := by
  have denPos' : (0 : ℚ) < den := by exact_mod_cast denPos
  rw [le_div_iff₀ denPos']
  unfold atLeastPowerOfTwo
  split
  · rename_i nonneg
    obtain ⟨n, rfl⟩ := Int.eq_ofNat_of_zero_le nonneg
    simp only [Int.toNat_natCast, decide_eq_true_eq, zpow_natCast]
    rw [mul_comm]
    exact_mod_cast Iff.rfl
  · rename_i negative
    obtain ⟨n, rfl⟩ := Int.exists_eq_neg_ofNat (by omega : (e : Int) ≤ 0)
    simp only [neg_neg, Int.toNat_natCast, decide_eq_true_eq, zpow_neg, zpow_natCast]
    rw [inv_mul_le_iff₀ (by positivity), mul_comm]
    exact_mod_cast Iff.rfl

/-- The powers of two around a positive natural number, in `ℚ`. -/
theorem log2_bounds {n : Nat} (positive : 0 < n) :
    (2 : ℚ) ^ (Nat.log2 n : Int) ≤ n ∧ (n : ℚ) < 2 ^ ((Nat.log2 n : Int) + 1) := by
  have lower := Nat.log2_self_le (Nat.pos_iff_ne_zero.mp positive)
  have upper := Nat.lt_log2_self (n := n)
  constructor
  · rw [zpow_natCast]
    exact_mod_cast lower
  · rw [← Nat.cast_one, ← Nat.cast_add, zpow_natCast]
    exact_mod_cast upper

/-- `floorLog2` is the binary logarithm of the ratio, rounded down: the bit lengths of the two
terms fix it up to one, and the test settles which. -/
theorem floorLog2_eq_log (numPos : 0 < num) (denPos : 0 < den) :
    floorLog2 num den = Int.log 2 ((num : ℚ) / den) := by
  obtain ⟨numLower, numUpper⟩ := log2_bounds numPos
  obtain ⟨denLower, denUpper⟩ := log2_bounds denPos
  set a : Int := ((Nat.log2 num : Nat) : Int)
  set c : Int := ((Nat.log2 den : Nat) : Int)
  have denPos' : (0 : ℚ) < den := by exact_mod_cast denPos
  have two : (2 : ℚ) ≠ 0 := by norm_num
  -- the ratio lies strictly between `2^(a - c - 1)` and `2^(a - c + 1)`
  have above : (2 : ℚ) ^ (a - c - 1) ≤ (num : ℚ) / den := by
    rw [le_div_iff₀ denPos', show a - c - 1 = a - (c + 1) by ring, zpow_sub₀ two]
    calc 2 ^ a / 2 ^ (c + 1) * (den : ℚ) ≤ 2 ^ a / 2 ^ (c + 1) * 2 ^ (c + 1) :=
          mul_le_mul_of_nonneg_left denUpper.le
            (div_nonneg (zpow_nonneg (by norm_num) _) (zpow_nonneg (by norm_num) _))
      _ = 2 ^ a := div_mul_cancel₀ _ (zpow_ne_zero _ two)
      _ ≤ num := numLower
  have below : (num : ℚ) / den < 2 ^ (a - c + 1) := by
    rw [div_lt_iff₀ denPos', show a - c + 1 = (a + 1) - c by ring, zpow_sub₀ two]
    calc (num : ℚ) < 2 ^ (a + 1) := numUpper
      _ = 2 ^ (a + 1) / 2 ^ c * 2 ^ c := (div_mul_cancel₀ _ (zpow_ne_zero _ two)).symm
      _ ≤ 2 ^ (a + 1) / 2 ^ c * den := mul_le_mul_of_nonneg_left denLower
          (div_nonneg (zpow_nonneg (by norm_num) _) (zpow_nonneg (by norm_num) _))
  unfold floorLog2
  dsimp only
  split
  · rename_i atLeast
    exact (log_eq_of_bounds ((atLeastPowerOfTwo_iff denPos _).mp atLeast) below).symm
  · rename_i notAtLeast
    have under : (num : ℚ) / den < 2 ^ (a - c - 1 + 1) := by
      rw [show a - c - 1 + 1 = a - c by ring]
      exact lt_of_not_ge fun h => notAtLeast ((atLeastPowerOfTwo_iff denPos _).mpr h)
    exact (log_eq_of_bounds above under).symm

/-- The binary logarithm of `m · 2^q`, rounded down. -/
theorem log_mul_zpow {m : Nat} (positive : 0 < m) (q : Int) :
    Int.log 2 ((m : ℚ) * 2 ^ q) = Nat.log2 m + q := by
  obtain ⟨lower, upper⟩ := log2_bounds positive
  have two : (2 : ℚ) ≠ 0 := by norm_num
  apply log_eq_of_bounds
  · rw [zpow_add₀ two]
    exact mul_le_mul_of_nonneg_right lower (zpow_nonneg (by norm_num) q)
  · rw [show (Nat.log2 m : Int) + q + 1 = (Nat.log2 m + 1) + q by ring, zpow_add₀ two]
    exact mul_lt_mul_of_pos_right upper (zpow_pos (by norm_num) q)

end Logarithm

section Scaling

/-- Half-even rounding of a quotient is unchanged when both of its terms are scaled alike. -/
theorem roundHalfEven_mul_mul (num den : Nat) {k : Nat} (positive : 0 < k) :
    roundHalfEven (num * k) (den * k) = roundHalfEven num den := by
  have quotient : num * k / (den * k) = num / den := Nat.mul_div_mul_right num den positive
  have remainder : num * k % (den * k) = num % den * k := Nat.mul_mod_mul_right k num den
  simp only [roundHalfEven, quotient, remainder]
  have less : den * k < 2 * (num % den * k) ↔ den < 2 * (num % den) := by
    rw [← Nat.mul_assoc, Nat.mul_lt_mul_right positive]
  have same : 2 * (num % den * k) = den * k ↔ 2 * (num % den) = den := by
    rw [← Nat.mul_assoc, Nat.mul_left_inj (Nat.pos_iff_ne_zero.mp positive)]
  simp only [less, same]

/-- Half-even rounding of a quotient that is a whole number is that number. -/
theorem roundHalfEven_exact (m : Nat) {den : Nat} (positive : 0 < den) :
    roundHalfEven (m * den) den = m := by
  simp only [roundHalfEven, Nat.mul_div_cancel m positive, Nat.mul_mod_left]
  split_ifs with up
  · omega
  · rfl

/-- Reading depends only on the ratio: scaling numerator and denominator alike changes
nothing. -/
theorem ofRatio_mul_mul (negative : Bool) (num den : Nat) {k : Nat} (positive : 0 < k) :
    ofRatio negative (num * k) (den * k) = ofRatio negative num den := by
  by_cases zero : num = 0 ∨ den = 0
  · have scaledZero : num * k = 0 ∨ den * k = 0 := by
      rcases zero with h | h <;> simp [h]
    simp only [ofRatio, if_pos zero, if_pos scaledZero]
  · have scaledNonzero : ¬(num * k = 0 ∨ den * k = 0) := by
      simp only [Nat.mul_eq_zero, not_or] at zero ⊢
      exact ⟨⟨zero.1, Nat.pos_iff_ne_zero.mp positive⟩, ⟨zero.2, Nat.pos_iff_ne_zero.mp positive⟩⟩
    have numPos : 0 < num := by omega
    have denPos : 0 < den := by omega
    have sameLog : floorLog2 (num * k) (den * k) = floorLog2 num den := by
      rw [floorLog2_eq_log (Nat.mul_pos numPos positive) (Nat.mul_pos denPos positive),
        floorLog2_eq_log numPos denPos]
      congr 1
      push_cast
      exact mul_div_mul_right _ _ (by exact_mod_cast positive.ne')
    have belowScaled : ∀ e, den * k * e = den * e * k := fun e => Nat.mul_right_comm den k e
    have aboveScaled : ∀ e, num * k * e = num * e * k := fun e => Nat.mul_right_comm num k e
    simp only [ofRatio, if_neg zero, if_neg scaledNonzero, sameLog, belowScaled, aboveScaled,
      roundHalfEven_mul_mul _ _ positive]

theorem toDigits_mul_pow {m : Nat} (positive : 0 < m) (j : Nat) :
    Nat.toDigits 10 (m * 10 ^ j) = Nat.toDigits 10 m ++ List.replicate j '0' := by
  induction j with
  | zero => simp
  | succ j ih =>
    have shifted : m * 10 ^ (j + 1) = 10 * (m * 10 ^ j) + 0 := by ring
    rw [shifted, ← Nat.toDigits_append_toDigits (by decide) (by positivity) (by decide), ih,
      Nat.toDigits_zero, List.replicate_succ', List.append_assoc]

theorem decimalLength_mul_pow {m : Nat} (positive : 0 < m) (j : Nat) :
    decimalLength (m * 10 ^ j) = decimalLength m + j := by
  simp [decimalLength, toDigits_mul_pow positive]

/-- `ofScientific` reads the value `m · 10^e`, however many trailing zeros its digits carry. -/
theorem ofScientific_mul_pow (negative : Bool) (m : Nat) (e : Int) (j : Nat) :
    ofScientific negative (m * 10 ^ j) (e - j) = ofScientific negative m e := by
  rcases Nat.eq_zero_or_pos m with rfl | positive
  · simp [ofScientific]
  have size : (decimalLength (m * 10 ^ j) : Int) + (e - j) = decimalLength m + e := by
    rw [decimalLength_mul_pow positive]
    push_cast
    ring
  have scaledNonzero : m * 10 ^ j ≠ 0 := by positivity
  simp only [ofScientific, size, Nat.pos_iff_ne_zero.mp positive, scaledNonzero, if_false]
  split_ifs with big small scaledWhole whole whole
  · rfl
  · rfl
  · -- both exponents non-negative: the same numerator
    congr 1
    rw [Nat.mul_assoc, ← Nat.pow_add]
    congr 2
    omega
  · omega
  · -- `e - j < 0 ≤ e`: the scaled form has the denominator `10^(j - e)`
    have split : 10 ^ j = 10 ^ e.toNat * 10 ^ (-(e - j)).toNat := by
      rw [← Nat.pow_add]
      congr 1
      omega
    have scaled := ofRatio_mul_mul negative (m * 10 ^ e.toNat) 1
      (show 0 < 10 ^ (-(e - j)).toNat by positivity)
    rw [Nat.one_mul] at scaled
    rw [split, ← Nat.mul_assoc, scaled]
  · -- both exponents negative: the same scale on both terms
    have split : (-(e - j)).toNat = (-e).toNat + j := by omega
    rw [split, Nat.pow_add, ofRatio_mul_mul negative m _ (by positivity)]

end Scaling

section Exact

variable {biased : Fin 2047} {fraction : Fin (2 ^ 52)}

theorem significandOf_lt (biased : Fin 2047) (fraction : Fin (2 ^ 52)) :
    significandOf biased fraction < 2 ^ 53 := by
  have := fraction.isLt
  unfold significandOf
  split <;> omega

theorem exponentOf_bounds (biased : Fin 2047) :
    -1074 ≤ exponentOf biased ∧ exponentOf biased ≤ 971 := by
  have := biased.isLt
  unfold exponentOf
  omega

/-- The exponent `ofRatio` settles on for the magnitude of a finite double is the double's own:
a normal significand has 53 bits, and a subnormal one sits at the least exponent. -/
theorem chosenExponent_eq (positive : 0 < significandOf biased fraction) :
    max ((Nat.log2 (significandOf biased fraction) : Int) + exponentOf biased - 52) (-1074) =
      exponentOf biased := by
  have bounded := fraction.isLt
  by_cases subnormal : biased.val = 0
  · simp only [significandOf, exponentOf, subnormal, if_true] at positive ⊢
    have short : Nat.log2 fraction.val < 52 := (Nat.log2_lt (by omega)).mpr bounded
    omega
  · have wide : Nat.log2 (2 ^ 52 + fraction.val) = 52 := by
      rw [Nat.log2_eq_iff (by positivity)]
      omega
    simp only [significandOf, exponentOf, subnormal, if_false, wide]
    omega

/-- Encoding the significand and exponent of a finite double gives back its fields. -/
theorem encode_fields (negative : Bool) :
    encode negative (significandOf biased fraction) (exponentOf biased) =
      finite negative biased fraction := by
  have bounded := fraction.isLt
  have exponent := (exponentOf_bounds biased).2
  unfold encode
  rw [if_neg (by omega)]
  by_cases subnormal : biased.val = 0
  · simp only [significandOf, subnormal, if_true, dif_pos bounded]
    congr 1
    exact (Fin.ext subnormal).symm
  · simp only [significandOf, exponentOf, subnormal, if_false,
      dif_neg (show ¬2 ^ 52 + fraction.val < 2 ^ 52 by omega)]
    have sameBiased : ((((max biased.val 1 : Nat) : Int) - 1075 + 1075).toNat % 2047) =
        biased.val := by
      have := biased.isLt
      omega
    have sameFraction : (2 ^ 52 + fraction.val - 2 ^ 52) % 2 ^ 52 = fraction.val := by
      rw [Nat.add_sub_cancel_left, Nat.mod_eq_of_lt bounded]
    exact congrArg₂ (finite negative) (Fin.ext sameBiased) (Fin.ext sameFraction)

/-- A ratio equal to the magnitude of a finite double reads as that double: its significand is
found again at its own exponent, with nothing to round. -/
theorem ofRatio_magnitude (negative : Bool) {num den : Nat} (numPos : 0 < num) (denPos : 0 < den)
    (exact : (num : ℚ) / den = magnitudeOf biased fraction) :
    ofRatio negative num den = finite negative biased fraction := by
  set m := significandOf biased fraction with hm
  set q := exponentOf biased with hq
  have positive : 0 < m := by
    rcases Nat.eq_zero_or_pos m with zero | positive
    · have : (0 : ℚ) < num / den := by positivity
      simp [exact, magnitudeOf, ← hm, zero] at this
    · exact positive
  have logarithm : floorLog2 num den = Nat.log2 m + q := by
    rw [floorLog2_eq_log numPos denPos, exact, magnitudeOf, ← hm, ← hq, log_mul_zpow positive]
  have denPos' : (0 : ℚ) < den := by exact_mod_cast denPos
  -- the quotient at the chosen exponent is the significand itself
  have whole : (if 0 ≤ q then roundHalfEven num (den * 2 ^ q.toNat)
      else roundHalfEven (num * 2 ^ (-q).toNat) den) = m := by
    rw [div_eq_iff denPos'.ne', magnitudeOf, ← hm, ← hq] at exact
    split
    · rename_i nonneg
      obtain ⟨n, hn⟩ := Int.eq_ofNat_of_zero_le nonneg
      have product : num = m * (den * 2 ^ q.toNat) := by
        rw [hn, zpow_natCast] at exact
        rw [hn, Int.toNat_natCast]
        have : (num : ℚ) = ((m * (den * 2 ^ n) : ℕ) : ℚ) := by
          rw [exact]
          push_cast
          ring
        exact_mod_cast this
      rw [product, roundHalfEven_exact m (by positivity)]
    · rename_i negativeExponent
      obtain ⟨n, hn⟩ := Int.exists_eq_neg_ofNat (by omega : q ≤ 0)
      have product : num * 2 ^ (-q).toNat = m * den := by
        rw [hn, zpow_neg, zpow_natCast] at exact
        rw [hn, neg_neg, Int.toNat_natCast]
        have : (num : ℚ) * 2 ^ n = m * den := by
          rw [exact]
          field_simp
        exact_mod_cast this
      rw [product, roundHalfEven_exact m denPos]
  have noCarry : m ≠ 2 ^ 53 := (significandOf_lt biased fraction).ne
  have chosen : max ((Nat.log2 m : Int) + q - 52) (-1074) = q := chosenExponent_eq positive
  simp only [ofRatio, if_neg (show ¬(num = 0 ∨ den = 0) by omega), logarithm, chosen, whole,
    if_neg noCarry]
  exact encode_fields negative

/-- The significand is zero only in the fields of a zero. -/
theorem significandOf_eq_zero : significandOf biased fraction = 0 ↔ biased = 0 ∧ fraction = 0 := by
  unfold significandOf
  split
  · rename_i zero
    constructor
    · exact fun fractionZero => ⟨Fin.ext zero, Fin.ext fractionZero⟩
    · rintro ⟨-, rfl⟩
      rfl
  · rename_i nonzero
    constructor
    · intro sumZero
      omega
    · rintro ⟨rfl, -⟩
      exact absurd rfl nonzero

theorem magnitudeOf_eq_zero : magnitudeOf biased fraction = 0 ↔ significandOf biased fraction = 0 := by
  simp only [magnitudeOf, mul_eq_zero, Nat.cast_eq_zero, zpow_ne_zero _ (two_ne_zero : (2 : ℚ) ≠ 0),
    or_false]

theorem magnitudeOf_nonneg : 0 ≤ magnitudeOf biased fraction :=
  mul_nonneg (Nat.cast_nonneg _) (zpow_nonneg (by norm_num) _)

/-- Every finite double is below `2^1024` in magnitude. -/
theorem magnitudeOf_lt : magnitudeOf biased fraction < 2 ^ 1024 := by
  have significand : (significandOf biased fraction : ℚ) < 2 ^ 53 := by
    exact_mod_cast significandOf_lt biased fraction
  have exponent : (2 : ℚ) ^ exponentOf biased ≤ 2 ^ (971 : Int) :=
    zpow_le_zpow_right₀ (by norm_num) (exponentOf_bounds biased).2
  calc magnitudeOf biased fraction
      = significandOf biased fraction * (2 : ℚ) ^ exponentOf biased := rfl
    _ ≤ significandOf biased fraction * 2 ^ (971 : Int) :=
      mul_le_mul_of_nonneg_left exponent (Nat.cast_nonneg _)
    _ < 2 ^ 53 * 2 ^ (971 : Int) := mul_lt_mul_of_pos_right significand (zpow_pos two_pos _)
    _ = 2 ^ 1024 := by
      rw [← zpow_natCast, ← zpow_natCast, ← zpow_add₀ two_ne_zero]
      rfl

/-- A number below `2^1024`, past every finite double, has at most 310 digits. -/
theorem decimalLength_le_of_lt {k : Nat} (below : k < 2 ^ 1024) : decimalLength k ≤ 310 := by
  refine (Nat.length_toDigits_le_iff (by norm_num) (by norm_num)).mpr ?_
  -- the powers are split so that each stays below the threshold of evaluated exponents
  calc k < 2 ^ 1024 := below
    _ = (2 ^ 256) ^ 4 := by rw [← pow_mul]
    _ < (10 ^ 155) ^ 2 := by norm_num
    _ = 10 ^ 310 := by rw [← pow_mul]

/-- A positive whole number that is the magnitude of a finite double is read back, as a
numeral without fraction or exponent, as that double. -/
theorem ofScientific_magnitude (negative : Bool) {k : Nat} (positive : 0 < k)
    (exact : (k : ℚ) = magnitudeOf biased fraction) :
    ofScientific negative k 0 = finite negative biased fraction := by
  -- a double has at most 309 integer digits, far from the cutoff to infinity
  have short : decimalLength k ≤ 310 := by
    have below : (k : ℚ) < 2 ^ 1024 := exact ▸ magnitudeOf_lt
    exact decimalLength_le_of_lt (by exact_mod_cast below)
  have notInfinite : ¬(310 : Int) < decimalLength k + 0 := by omega
  have notZero : ¬(decimalLength k : Int) + 0 < -330 := by omega
  simp only [ofScientific, Nat.pos_iff_ne_zero.mp positive, if_false, notInfinite, notZero,
    le_refl, if_true, Int.toNat_zero, pow_zero, Nat.mul_one]
  exact ofRatio_magnitude negative positive Nat.one_pos (by rw [Nat.cast_one, div_one, exact])

end Exact

section Integers

variable {x : Binary64} {n : Int}

/-- The integer that `toInt?` finds is the exact value of the double. -/
theorem toRat?_of_toInt? (found : x.toInt? = some n) : x.toRat? = some (n : ℚ) := by
  cases x with
  | nan => simp [toInt?, magnitude?] at found
  | infinite negative => simp [toInt?, magnitude?] at found
  | finite negative biased fraction =>
    -- the magnitude as a natural number, found by `toInt?` when it is whole
    obtain ⟨k, whole, signed⟩ : ∃ k : Nat, magnitudeOf biased fraction = k ∧
        n = if negative then -(k : Int) else k := by
      simp only [toInt?, magnitude?, isNegative] at found
      by_cases nonneg : 0 ≤ exponentOf biased
      · obtain ⟨e, he⟩ := Int.eq_ofNat_of_zero_le nonneg
        rw [if_pos nonneg, he, Int.toNat_natCast] at found
        simp only [bind, Option.bind_some, pure, Option.map_some, Option.some.injEq] at found
        refine ⟨significandOf biased fraction * 2 ^ e, ?_, found.symm⟩
        rw [magnitudeOf, he, zpow_natCast]
        norm_cast
      · obtain ⟨e, he⟩ := Int.exists_eq_neg_ofNat (by omega : exponentOf biased ≤ 0)
        rw [if_neg nonneg, he, neg_neg, Int.toNat_natCast] at found
        by_cases divides : significandOf biased fraction % 2 ^ e = 0
        · simp only [if_pos divides, bind, Option.bind_some, pure, Option.map_some,
            Option.some.injEq] at found
          refine ⟨significandOf biased fraction / 2 ^ e, ?_, found.symm⟩
          rw [magnitudeOf, he, zpow_neg, zpow_natCast,
            Nat.cast_div (Nat.dvd_of_mod_eq_zero divides) (by positivity)]
          norm_cast
        · simp [if_neg divides] at found
    simp only [toRat?, whole, signed]
    cases negative <;> simp

/-- A double whose exact value is an integer is read as that integer by `toInt?`. -/
theorem toInt?_of_toRat? (exact : x.toRat? = some (n : ℚ)) : x.toInt? = some n := by
  -- whatever integer `toInt?` finds is the value, so only its finding one needs an argument
  obtain ⟨k, found⟩ : ∃ k, x.toInt? = some k := by
    cases x with
    | nan => simp [toRat?] at exact
    | infinite negative => simp [toRat?] at exact
    | finite negative biased fraction =>
      have whole : ∃ j : Int, magnitudeOf biased fraction = j := by
        simp only [toRat?, Option.some.injEq] at exact
        cases negative
        · exact ⟨n, by simpa using exact⟩
        · exact ⟨-n, by simp [← exact]⟩
      obtain ⟨j, whole⟩ := whole
      simp only [toInt?, magnitude?]
      by_cases nonneg : 0 ≤ exponentOf biased
      · simp [if_pos nonneg]
      · obtain ⟨e, he⟩ := Int.exists_eq_neg_ofNat (by omega : exponentOf biased ≤ 0)
        -- a negative exponent leaves an integer only when its power of two divides the significand
        have scaled : (significandOf biased fraction : ℚ) = j * 2 ^ e := by
          rw [magnitudeOf, he, zpow_neg, zpow_natCast] at whole
          rw [← whole, inv_mul_cancel_right₀ (by positivity)]
        have divides : 2 ^ e ∣ significandOf biased fraction := by
          have inInt : (significandOf biased fraction : Int) = j * 2 ^ e := by exact_mod_cast scaled
          exact Int.natCast_dvd_natCast.mp ⟨j, by rw [inInt, mul_comm]; push_cast; rfl⟩
        rw [if_neg nonneg, he, neg_neg, Int.toNat_natCast, if_pos (Nat.mod_eq_zero_of_dvd divides)]
        simp
  have same := toRat?_of_toInt? found
  rw [exact, Option.some.injEq, Int.cast_inj] at same
  rw [found, same]

section Finite

variable {negative : Bool} {biased : Fin 2047} {fraction : Fin (2 ^ 52)}

/-- Both zeros are the integer `0`. -/
theorem toInt?_of_significand_zero (zero : significandOf biased fraction = 0) :
    (finite negative biased fraction).toInt? = some 0 :=
  toInt?_of_toRat? (by simp [toRat?, magnitudeOf_eq_zero.mpr zero])

/-- A double with a nonzero significand is no integer zero. -/
theorem toInt?_ne_zero (nonzero : significandOf biased fraction ≠ 0)
    (found : (finite negative biased fraction).toInt? = some n) : n ≠ 0 := by
  rintro rfl
  have exact := toRat?_of_toInt? found
  simp only [toRat?, Option.some.injEq, Int.cast_zero] at exact
  have zero : magnitudeOf biased fraction = 0 := by
    split at exact <;> simpa using exact
  exact nonzero (magnitudeOf_eq_zero.mp zero)

/-- A nonzero integer that `toInt?` finds has the sign of the double. -/
theorem toInt?_sign (found : (finite negative biased fraction).toInt? = some n) (nonzero : n ≠ 0) :
    decide (n < 0) = negative := by
  have exact := toRat?_of_toInt? found
  simp only [toRat?, Option.some.injEq] at exact
  have nonneg : 0 ≤ magnitudeOf biased fraction := magnitudeOf_nonneg
  cases negative
  · have atLeast : (0 : ℚ) ≤ n := by simpa [← exact] using nonneg
    have : 0 ≤ n := by exact_mod_cast atLeast
    simpa using this
  · have atMost : (n : ℚ) ≤ 0 := by simpa [← exact] using nonneg
    have : n ≤ 0 := by exact_mod_cast atMost
    simpa using lt_of_le_of_ne this nonzero

/-- An integer that `toInt?` finds, written as a numeral without fraction or exponent, is
read back as the double it came from, unless that double is negative zero: both zeros are the
integer `0`, which reads as positive zero. -/
theorem ofScientific_of_toInt? (found : (finite negative biased fraction).toInt? = some n)
    (notNegZero : finite negative biased fraction ≠ finite true 0 0) :
    ofScientific (decide (n < 0)) n.natAbs 0 = finite negative biased fraction := by
  by_cases zero : significandOf biased fraction = 0
  · have isZero : n = 0 := by
      rw [toInt?_of_significand_zero zero, Option.some.injEq] at found
      exact found.symm
    obtain ⟨rfl, rfl⟩ := significandOf_eq_zero.mp zero
    subst isZero
    cases negative
    · simp [ofScientific]
    · exact absurd rfl notNegZero
  · have nonzero := toInt?_ne_zero zero found
    rw [toInt?_sign found nonzero]
    refine ofScientific_magnitude negative (Int.natAbs_pos.mpr nonzero) ?_
    have exact := toRat?_of_toInt? found
    simp only [toRat?, Option.some.injEq] at exact
    rw [Nat.cast_natAbs, Int.cast_abs, ← exact]
    split <;> simp [abs_of_nonneg magnitudeOf_nonneg]

end Finite

end Integers

end Binary64

end VieCompiler
