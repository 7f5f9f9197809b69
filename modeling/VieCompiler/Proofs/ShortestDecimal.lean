import VieCompiler.Proofs.NearestDouble
import VieCompiler.Number.Shortest

/-!
# The digits of the shortest decimal

`Decimal.normalize` moves the trailing zeros of the digits into the exponent: of positive
digits it makes a `Decimal.Normal` decimal, one whose digits are positive and do not end in a
zero, and it takes away a power of ten that the exponent gains (`Decimal.normalize_shift`).
Every decimal that `Binary64.Interval.shortest` can return comes from `normalize`, and of
positive digits when the value is positive: a candidate keeps at least one leading digit of
the value, so the digits it rounds are never zero. The shortest decimal of a double with a
nonzero significand is therefore normal (`Binary64.shortestOf_normal`), and that of zero is
`0 · 10^0`.
-/

namespace VieCompiler

namespace Decimal

/-- A decimal whose digits are positive and do not end in zero: the one way of writing a
nonzero value. -/
structure Normal (d : Decimal) : Prop where
  positive : 0 < d.digits
  lastNonzero : d.digits % 10 ≠ 0

theorem normalize_normal {digits : Nat} (positive : 0 < digits) (exponent : Int) :
    (normalize digits exponent).Normal := by
  fun_induction normalize digits exponent with
  | case1 digits exponent strip ih => exact ih (by omega)
  | case2 digits exponent stop =>
    refine ⟨positive, ?_⟩
    dsimp only
    omega

/-- Normalizing divides the digits by the power of ten that it adds to the exponent. -/
theorem normalize_shift (digits : Nat) (exponent : Int) :
    ∃ j : Nat, digits = (normalize digits exponent).digits * 10 ^ j ∧
      (normalize digits exponent).exponent = exponent + j := by
  fun_induction normalize digits exponent with
  | case1 digits exponent strip ih =>
    obtain ⟨j, scaled, shifted⟩ := ih
    refine ⟨j + 1, ?_, by rw [shifted]; push_cast; ring⟩
    rw [pow_succ, ← Nat.mul_assoc, ← scaled]
    omega
  | case2 digits exponent stop => exact ⟨0, by simp, by simp⟩

end Decimal

namespace Binary64

/-- A positive number has no more digits than its leading power of ten allows. -/
theorem pow_decimalLength_le {v : Nat} (positive : 0 < v) : 10 ^ (decimalLength v - 1) ≤ v := by
  by_contra below
  have nonempty : 0 < decimalLength v := List.length_pos_iff.mpr Nat.toDigits_ne_nil
  by_cases single : decimalLength v = 1
  · rw [single] at below
    omega
  · -- fewer digits than `decimalLength v` would already suffice
    have shorter : decimalLength v ≤ decimalLength v - 1 :=
      (Nat.length_toDigits_le_iff (by norm_num) (by omega)).mpr (by omega)
    omega

namespace Interval

variable {i : Interval}

/-- A candidate with `n` of the value's digits rounds digits that are not all zero. -/
theorem candidate_normal (positive : 0 < i.value) {n : Nat} (least : 0 < n)
    (atMost : n ≤ decimalLength i.value) {d : Decimal}
    (found : i.candidate (decimalLength i.value) n = some d) : d.Normal := by
  have kept : 0 < i.value / 10 ^ (decimalLength i.value - n) := by
    have unitLe : 10 ^ (decimalLength i.value - n) ≤ 10 ^ (decimalLength i.value - 1) :=
      Nat.pow_le_pow_right (by norm_num) (by omega)
    exact Nat.div_pos (unitLe.trans (pow_decimalLength_le positive)) (by positivity)
  simp only [candidate] at found
  split_ifs at found <;>
    first
    | exact Option.some.inj found ▸ Decimal.normalize_normal kept _
    | exact Option.some.inj found ▸ Decimal.normalize_normal (Nat.succ_pos _) _

/-- The shortest decimal of a positive value is normal. -/
theorem shortest_normal (positive : 0 < i.value) : i.shortest.Normal := by
  simp only [shortest]
  cases search : (List.range (decimalLength i.value)).findSome?
      (fun k => i.candidate (decimalLength i.value) (k + 1)) with
  | none => exact Decimal.normalize_normal positive _
  | some d =>
    obtain ⟨k, member, found⟩ := List.exists_of_findSome?_eq_some search
    exact candidate_normal positive (Nat.succ_pos k) (List.mem_range.mp member) found

end Interval

theorem shortestOf_normal {biased : Fin 2047} {fraction : Fin (2 ^ 52)}
    (nonzero : significandOf biased fraction ≠ 0) : (shortestOf biased fraction).Normal := by
  simp only [shortestOf, if_neg nonzero]
  apply Interval.shortest_normal
  simp only [Interval.ofMagnitude]
  split <;> positivity

theorem shortestOf_zero {biased : Fin 2047} {fraction : Fin (2 ^ 52)}
    (zero : significandOf biased fraction = 0) : shortestOf biased fraction = ⟨0, 0⟩ := by
  simp [shortestOf, zero]

end Binary64

end VieCompiler
