import VieCompiler.Proofs.ShortestDecimal
import VieCompiler.Proofs.WholeDoubles

/-!
# Large doubles read back from their shortest decimal

A finite double from `2^53` on is a whole number `m · 2^q` with `q ≥ 0`, so its rounding
interval (`Binary64.Interval.ofMagnitude`) is measured in units of one. The decimal that
`Binary64.Interval.shortest` chooses is, in those units, a whole number that the interval
admits (`Interval.Admits`, `Interval.shortest_admits`): the value itself, or a neighbour of it
among the decimals of some length, no farther than half the spacing of the doubles, and no
farther than a quarter of it below a power of two, where the doubles below are twice as dense.

Half-even rounding takes every such number back to the double's significand
(`Binary64.roundHalfEven_of_near`); below a power of two it rounds up to `2^53` at the exponent
below, which carries into the power of two itself. So the shortest decimal of such a double,
read as `Binary64.ofScientific` reads a numeral, is the double again
(`Binary64.ofScientific_shortestOf`): this is what generated code relies on when it writes a
number from `10^21` on with an exponent.
-/

namespace VieCompiler

namespace Decimal

/-- Normalizing a decimal with a whole exponent keeps the exponent whole and the value. -/
theorem normalize_whole (digits e : Nat) :
    0 ≤ (normalize digits (e : Int)).exponent ∧
      (normalize digits (e : Int)).digits * 10 ^ (normalize digits (e : Int)).exponent.toNat =
        digits * 10 ^ e := by
  obtain ⟨j, scaled, shifted⟩ := normalize_shift digits (e : Int)
  refine ⟨by omega, ?_⟩
  rw [shifted, show ((e : Int) + j).toNat = j + e by omega, Nat.pow_add, ← Nat.mul_assoc, ← scaled]

end Decimal

namespace Binary64

/-- Half-even rounding of `num / den` gives `m` when `num` is within half of `den` from
`m · den`, and an exact half only when `m` is even. -/
theorem roundHalfEven_of_near {num den m : Nat} (denPos : 0 < den)
    (above : 2 * (m * den) ≤ 2 * num + den) (below : 2 * num ≤ 2 * (m * den) + den)
    (tie : 2 * num + den = 2 * (m * den) ∨ 2 * num = 2 * (m * den) + den → m % 2 = 0) :
    roundHalfEven num den = m := by
  unfold roundHalfEven
  by_cases atLeast : m * den ≤ num
  · -- the quotient is `m` and the remainder at most half of `den`
    obtain ⟨quotient, remainder⟩ := (Nat.div_mod_unique denPos).mpr
      (⟨by rw [Nat.mul_comm den m]; omega, by omega⟩ :
        num - m * den + den * m = num ∧ num - m * den < den)
    simp only [quotient, remainder]
    split_ifs with up
    · have even := tie (.inr (by omega))
      omega
    · rfl
  · -- the quotient is `m - 1` and the remainder at least half of `den`
    have positive : 0 < m := by
      rcases Nat.eq_zero_or_pos m with zero | positive
      · simp [zero] at atLeast
      · exact positive
    have lower : (m - 1) * den = m * den - den := Nat.sub_one_mul m den
    have fits : den ≤ m * den := Nat.le_mul_of_pos_left den positive
    obtain ⟨quotient, remainder⟩ := (Nat.div_mod_unique denPos).mpr
      (⟨by rw [Nat.mul_comm den (m - 1), lower]; omega, by omega⟩ :
        num - (m * den - den) + den * (m - 1) = num ∧ num - (m * den - den) < den)
    simp only [quotient, remainder]
    split_ifs with up
    · omega
    · have even := tie (.inl (by omega))
      omega

namespace Interval

variable {i : Interval} {point : Nat}

/-- The interval holds the whole number `point`, in its units: at or below the value by a
distance it admits below, or above it by one it admits above. -/
def Admits (i : Interval) (point : Nat) : Prop :=
  if point ≤ i.value then i.admitsBelow (i.value - point) = true
  else i.admitsAbove (point - i.value) = true

theorem admitsBelow_iff {distance : Nat} : i.admitsBelow distance = true ↔
    (if i.narrowBelow then 4 * distance else 2 * distance) < i.spacing ∨
      (i.closed = true ∧ (if i.narrowBelow then 4 * distance else 2 * distance) = i.spacing) := by
  simp [admitsBelow]

theorem admitsAbove_iff {distance : Nat} : i.admitsAbove distance = true ↔
    2 * distance < i.spacing ∨ (i.closed = true ∧ 2 * distance = i.spacing) := by
  simp [admitsAbove]

/-- What admitting a point says in numbers: it is within half a spacing of the value, an
exact half only when the ends belong to the interval, and within a quarter below a narrow
gap. -/
theorem Admits.near (admits : i.Admits point) :
    2 * i.value ≤ 2 * point + i.spacing ∧ 2 * point ≤ 2 * i.value + i.spacing ∧
      (2 * point + i.spacing = 2 * i.value ∨ 2 * point = 2 * i.value + i.spacing →
        i.closed = true) ∧
      (i.narrowBelow = true → point < i.value → 4 * (i.value - point) ≤ i.spacing) := by
  unfold Admits at admits
  split_ifs at admits with atMost
  · rw [admitsBelow_iff] at admits
    cases narrow : i.narrowBelow <;> cases ends : i.closed <;>
      simp only [narrow, ends, if_true, if_false, Bool.false_eq_true, false_and, or_false,
        true_and, false_implies, implies_true, and_true, true_implies] at admits ⊢ <;> omega
  · rw [admitsAbove_iff] at admits
    cases ends : i.closed <;>
      simp only [ends, Bool.false_eq_true, false_and, or_false, true_and, implies_true] at admits ⊢ <;>
      omega

theorem admits_value (spacing : 0 < i.spacing) : i.Admits i.value := by
  unfold Admits admitsBelow
  simp only [le_refl, if_true, Nat.sub_self, Nat.mul_zero, ite_self, spacing, decide_true,
    Bool.true_or]

/-- The neighbour of the value below it among the multiples of `unit`. -/
theorem admits_below {unit : Nat} (spacing : 0 < i.spacing)
    (lowOk : i.value % unit = 0 ∨ i.admitsBelow (i.value % unit) = true) :
    i.Admits (i.value / unit * unit) := by
  have split := Nat.div_add_mod' i.value unit
  rcases lowOk with exact | lowOk
  · rw [show i.value / unit * unit = i.value by omega]
    exact admits_value spacing
  · unfold Admits
    rw [if_pos (by omega), show i.value - i.value / unit * unit = i.value % unit by omega]
    exact lowOk

/-- The neighbour of the value above it among the multiples of `unit`. -/
theorem admits_above {unit : Nat} (positive : 0 < unit)
    (highOk : i.admitsAbove (unit - i.value % unit) = true) :
    i.Admits ((i.value / unit + 1) * unit) := by
  have split := Nat.div_add_mod' i.value unit
  have less := Nat.mod_lt i.value positive
  unfold Admits
  rw [Nat.add_one_mul, if_neg (by omega),
    show i.value / unit * unit + unit - i.value = unit - i.value % unit by omega]
  exact highOk

variable {length n : Nat} {d : Decimal}

/-- A candidate with `n` of the value's `length` digits is one of the two neighbours of the
value among the multiples of `10^(length - n)`, normalized: the one below when it is the value
or the interval admits it, the one above when the interval admits that. -/
theorem candidate_cases (found : i.candidate length n = some d) :
    (d = Decimal.normalize (i.value / 10 ^ (length - n)) (i.scale + (length - n : Nat)) ∧
        (i.value % 10 ^ (length - n) = 0 ∨
          i.admitsBelow (i.value % 10 ^ (length - n)) = true)) ∨
      (d = Decimal.normalize (i.value / 10 ^ (length - n) + 1) (i.scale + (length - n : Nat)) ∧
        i.admitsAbove (10 ^ (length - n) - i.value % 10 ^ (length - n)) = true) := by
  simp only [candidate] at found
  split_ifs at found with exact both nearer farther even lowOk highOk <;>
    obtain rfl := Option.some.inj found
  · exact .inl ⟨rfl, .inl exact⟩
  all_goals simp only [Bool.and_eq_true] at both
  · exact .inl ⟨rfl, .inr both.1⟩
  · exact .inr ⟨rfl, both.2⟩
  · exact .inl ⟨rfl, .inr both.1⟩
  · exact .inr ⟨rfl, both.2⟩
  · exact .inl ⟨rfl, .inr lowOk⟩
  · exact .inr ⟨rfl, highOk⟩

/-- A candidate is a whole number of units that the interval admits, normalized. -/
theorem candidate_admits (spacing : 0 < i.spacing) (found : i.candidate length n = some d) :
    ∃ digits k, d = Decimal.normalize digits (i.scale + (k : Nat)) ∧ i.Admits (digits * 10 ^ k) := by
  rcases candidate_cases found with ⟨rfl, lowOk⟩ | ⟨rfl, highOk⟩
  · exact ⟨_, _, rfl, admits_below spacing lowOk⟩
  · exact ⟨_, _, rfl, admits_above (by positivity) highOk⟩

/-- The shortest decimal is a whole number of units that the interval admits, normalized. -/
theorem shortest_admits (spacing : 0 < i.spacing) :
    ∃ digits k, i.shortest = Decimal.normalize digits (i.scale + (k : Nat)) ∧
      i.Admits (digits * 10 ^ k) := by
  simp only [shortest]
  cases search : (List.range (decimalLength i.value)).findSome?
      (fun k => i.candidate (decimalLength i.value) (k + 1)) with
  | none =>
    -- with all its digits the value is its own candidate
    refine ⟨i.value, 0, by simp, ?_⟩
    rw [Nat.pow_zero, Nat.mul_one]
    exact admits_value spacing
  | some d =>
    obtain ⟨k, -, found⟩ := List.exists_of_findSome?_eq_some search
    exact candidate_admits spacing found

end Interval

section Whole

variable {biased : Fin 2047} {fraction : Fin (2 ^ 52)} {Q : Nat}

/-- A whole exponent belongs to a normal double, whose significand has 53 bits. -/
theorem significandOf_normal (fraction : Fin (2 ^ 52)) (whole : exponentOf biased = Q) :
    2 ^ 52 ≤ significandOf biased fraction := by
  have normal : biased.val ≠ 0 := by
    unfold exponentOf at whole
    omega
  simp [significandOf, normal]

/-- At a whole exponent the interval of a double is measured in units of one. -/
theorem ofMagnitude_whole (whole : exponentOf biased = Q) (narrow : Bool) :
    Interval.ofMagnitude (significandOf biased fraction) (exponentOf biased) narrow =
      ⟨significandOf biased fraction * 2 ^ Q, 0, 2 ^ Q, narrow,
        decide (significandOf biased fraction % 2 = 0)⟩ := by
  simp [Interval.ofMagnitude, whole]

/-- The shortest decimal of a double at a whole exponent is a whole number that the double's
interval admits. -/
theorem shortestOf_whole (fraction : Fin (2 ^ 52)) (whole : exponentOf biased = Q) :
    0 ≤ (shortestOf biased fraction).exponent ∧
      (Interval.ofMagnitude (significandOf biased fraction) (exponentOf biased)
        (fraction.val = 0 && 1 < biased.val)).Admits
        ((shortestOf biased fraction).digits * 10 ^ (shortestOf biased fraction).exponent.toNat) := by
  have nonzero : significandOf biased fraction ≠ 0 := by
    have := significandOf_normal fraction whole
    omega
  obtain ⟨digits, k, chosen, admits⟩ := Interval.shortest_admits
    (i := Interval.ofMagnitude (significandOf biased fraction) (exponentOf biased)
      (fraction.val = 0 && 1 < biased.val))
    (by rw [ofMagnitude_whole whole]; positivity)
  have unitScale : (Interval.ofMagnitude (significandOf biased fraction) (exponentOf biased)
      (fraction.val = 0 && 1 < biased.val)).scale = 0 := by
    rw [ofMagnitude_whole whole]
  rw [unitScale, Int.zero_add] at chosen
  obtain ⟨nonneg, value⟩ := Decimal.normalize_whole digits k
  simp only [shortestOf, if_neg nonzero]
  rw [chosen, value]
  exact ⟨nonneg, admits⟩

/-- The double nearest to a whole number that the interval of a double at a whole exponent
admits is that double: the significand is found again at its own exponent, and below a power
of two the rounding at the exponent below carries into it. -/
theorem ofRatio_of_admits (whole : exponentOf biased = Q) {point : Nat}
    (admits : (Interval.ofMagnitude (significandOf biased fraction) (exponentOf biased)
      (fraction.val = 0 && 1 < biased.val)).Admits point) :
    ofRatio false point 1 = finite false biased fraction := by
  have low := significandOf_normal fraction whole
  have high := significandOf_lt biased fraction
  rw [ofMagnitude_whole whole] at admits
  obtain ⟨lower, upper, tie, quarter⟩ := admits.near
  simp only at lower upper tie quarter
  -- the products with the spacing `2^Q`, as omega sees them
  have spacing : 0 < 2 ^ Q := by positivity
  have top : significandOf biased fraction * 2 ^ Q + 2 ^ Q ≤ 2 ^ 53 * 2 ^ Q := by
    rw [← Nat.add_one_mul]
    exact Nat.mul_le_mul_right _ high
  have bottom : 2 ^ 52 * 2 ^ Q ≤ significandOf biased fraction * 2 ^ Q :=
    Nat.mul_le_mul_right _ low
  have double : 2 ^ 53 * 2 ^ Q = 2 * (2 ^ 52 * 2 ^ Q) := by ring
  have positive : 0 < point := by omega
  unfold ofRatio
  rw [if_neg (by omega), floorLog2_one positive]
  by_cases wide : 2 ^ 52 * 2 ^ Q ≤ point
  · -- the significand is rounded at the double's own exponent
    have log : Nat.log2 point = 52 + Q := by
      rw [Nat.log2_eq_iff (by omega), show 2 ^ (52 + Q) = 2 ^ 52 * 2 ^ Q by ring,
        show 2 ^ (52 + Q + 1) = 2 ^ 53 * 2 ^ Q by ring]
      omega
    have rounded : roundHalfEven point (1 * 2 ^ Q) = significandOf biased fraction := by
      rw [Nat.one_mul]
      exact roundHalfEven_of_near spacing lower upper fun half => by simpa using tie half
    simp only [log, show max (((52 + Q : Nat) : Int) - 52) (-1074) = (Q : Int) by omega,
      show (0 : Int) ≤ Q by omega, if_true, Int.toNat_natCast, rounded, if_neg high.ne]
    rw [← whole]
    exact encode_fields false
  · -- below the power of two `2^52 · 2^Q`, the double is that power, with a narrow gap below
    have power : significandOf biased fraction = 2 ^ 52 := by
      by_contra other
      have beyond : (2 ^ 52 + 1) * 2 ^ Q ≤ significandOf biased fraction * 2 ^ Q :=
        Nat.mul_le_mul_right _ (by omega)
      rw [Nat.add_one_mul] at beyond
      omega
    have narrow : (fraction.val = 0 && 1 < biased.val) = true := by
      have normal : biased.val ≠ 0 := by
        unfold exponentOf at whole
        omega
      simp only [significandOf, normal, if_false] at power
      have : 1 < biased.val := by
        unfold exponentOf at whole
        omega
      simp [this]
      omega
    rw [power] at lower upper quarter
    have near := quarter narrow (by omega)
    -- a quarter of the spacing is a whole number of units, so `Q ≥ 2`
    obtain ⟨R, hR⟩ : ∃ R, Q = R + 1 := ⟨Q - 1, by
      rcases Nat.eq_zero_or_pos Q with zero | _
      · subst zero
        omega
      · omega⟩
    subst hR
    have shift : 2 ^ 52 * 2 ^ (R + 1) = 2 * (2 ^ 52 * 2 ^ R) := by ring
    have halves : 2 ^ (R + 1) = 2 * 2 ^ R := by ring
    have small : 2 ^ R ≤ 2 ^ 52 * 2 ^ R := Nat.le_mul_of_pos_left _ (by positivity)
    rw [shift] at wide
    rw [shift, halves] at lower near
    have log : Nat.log2 point = 52 + R := by
      rw [Nat.log2_eq_iff (by omega), show 2 ^ (52 + R) = 2 ^ 52 * 2 ^ R by ring,
        show 2 ^ (52 + R + 1) = 2 * (2 ^ 52 * 2 ^ R) by ring]
      omega
    have rounded : roundHalfEven point (1 * 2 ^ R) = 2 ^ 53 := by
      have carry : 2 ^ 53 * 2 ^ R = 2 * (2 ^ 52 * 2 ^ R) := by ring
      rw [Nat.one_mul]
      refine roundHalfEven_of_near (by positivity) ?_ ?_ fun _ => by norm_num
      · rw [carry]
        omega
      · rw [carry]
        omega
    simp only [log, show max (((52 + R : Nat) : Int) - 52) (-1074) = (R : Int) by omega,
      show (0 : Int) ≤ R by omega, if_true, Int.toNat_natCast, rounded, if_true]
    rw [show (R : Int) + 1 = ((R + 1 : Nat) : Int) by push_cast; rfl, ← whole, ← power]
    exact encode_fields false

/-- A double at a whole exponent reads back from its shortest decimal. -/
theorem ofScientific_shortestOf (whole : exponentOf biased = Q) :
    ofScientific false (shortestOf biased fraction).digits (shortestOf biased fraction).exponent =
      finite false biased fraction := by
  obtain ⟨nonneg, admits⟩ := shortestOf_whole fraction whole
  -- the numeral with the zeros of its exponent written out is the whole number it admits
  have spelled := ofScientific_mul_pow false (shortestOf biased fraction).digits
    (shortestOf biased fraction).exponent (shortestOf biased fraction).exponent.toNat
  rw [show (shortestOf biased fraction).exponent -
    ((shortestOf biased fraction).exponent.toNat : Int) = 0 by omega] at spelled
  rw [← spelled]
  generalize (shortestOf biased fraction).digits *
    10 ^ (shortestOf biased fraction).exponent.toNat = point at admits ⊢
  have reads := ofRatio_of_admits whole admits
  rw [ofMagnitude_whole whole] at admits
  obtain ⟨lower, upper, -, -⟩ := admits.near
  simp only at lower upper
  -- the number is positive and below `2^1024`, so it is read through `ofRatio`
  have low := significandOf_normal fraction whole
  have high := significandOf_lt biased fraction
  have top : significandOf biased fraction * 2 ^ Q + 2 ^ Q ≤ 2 ^ 53 * 2 ^ Q := by
    rw [← Nat.add_one_mul]
    exact Nat.mul_le_mul_right _ high
  have bottom : 2 ^ Q ≤ significandOf biased fraction * 2 ^ Q :=
    Nat.le_mul_of_pos_left _ (by omega)
  have spacing : 0 < 2 ^ Q := by positivity
  have cap : 2 ^ 53 * 2 ^ Q ≤ 2 ^ 1024 := by
    have within : 53 + Q ≤ 1024 := by
      have := (exponentOf_bounds biased).2
      omega
    have raised := Nat.pow_le_pow_right (n := 2) (by norm_num) within
    rwa [Nat.pow_add] at raised
  have below : point < 2 ^ 53 * 2 ^ Q := by omega
  exact (ofNat_eq_ofRatio (by omega) (decimalLength_le_of_lt (below.trans_le cap))).trans reads

end Whole

end Binary64

end VieCompiler
