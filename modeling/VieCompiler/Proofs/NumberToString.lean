import VieCompiler.Proofs.WrittenNumbers

/-!
# Generated numbers against ECMAScript's Number::toString

ECMAScript writes a finite nonzero double from its shortest digits `s`, `k` of them, and the
place `n` of the decimal point among them, so that the value is `s · 10^(n - k)`: positionally
when `-5 ≤ n ≤ 21` and with an exponent otherwise (`Script.numberToString`, which follows the
steps of Number::toString with the shortest decimal that reads back as the double).

Generated code (`formatNumber`) takes the same shortest digits, but writes an integral value
below `10^21` exactly and every other value positionally only when `-3 ≤ n ≤ 16`. The two
agree exactly where `Script.writtenApart` is false (`formatNumber_eq_numberToString_iff`):
they differ on an integer whose shortest digits, padded with zeros, are not the integer itself
(`2^60` is written `1152921504606846976`, where ECMAScript writes `1152921504606847000`), and
on the other values whose shortest decimal ECMAScript writes positionally and generated code
with an exponent, those with `n` in `-5 … -4` or in `17 … 21` (`0.00001` is written `1e-5`).
In every other case the two texts are the same.
-/

namespace VieCompiler

namespace Script

/-- The text of `s · 10^(n - k)` for the `k` digits `s` of a positive value, as steps 6 to 11 of
Number::toString write it in radix 10. -/
def decimalString (s : List Char) (n : Int) : List Char :=
  let k : Int := s.length
  if -5 ≤ n ∧ n ≤ 21 then
    if k ≤ n then s ++ List.replicate (n - k).toNat '0'
    else if 0 < n then s.take n.toNat ++ '.' :: s.drop n.toNat
    else '0' :: '.' :: List.replicate (-n).toNat '0' ++ s
  else
    let exponentSign := if n < 0 then '-' else '+'
    let exponent := Nat.toDigits 10 (n - 1).natAbs
    if k = 1 then s ++ 'e' :: exponentSign :: exponent
    else s.take 1 ++ '.' :: s.drop 1 ++ 'e' :: exponentSign :: exponent

/-- Number::toString of ECMAScript in radix 10: `NaN`, the infinities, `0` for both zeros, and
otherwise the sign and the text of the shortest decimal that reads back as the double. -/
def numberToString : Binary64 → String
  | .nan => "NaN"
  | .infinite negative => if negative then "-Infinity" else "Infinity"
  | .finite negative biased fraction =>
    if Binary64.significandOf biased fraction = 0 then "0"
    else
      let d := Binary64.shortestOf biased fraction
      String.ofList ((if negative then ['-'] else []) ++
        decimalString d.digitList (d.exponent + d.digitList.length))

/-- Whether generated code writes a double otherwise than Number::toString: an integral value
below `10^21` whose shortest decimal is not the integer itself, or another finite value whose
shortest decimal has its leading digit at `10^-6`, `10^-5` or `10^16` to `10^20`. -/
def writtenApart : Binary64 → Bool
  | .finite negative biased fraction =>
    let d := Binary64.shortestOf biased fraction
    match scriptFormat.fullInteger? (.finite negative biased fraction) with
    | some i => !decide (0 ≤ d.exponent ∧ d.digits * 10 ^ d.exponent.toNat = i.natAbs)
    | none =>
      decide (-6 ≤ d.leadingExponent ∧ d.leadingExponent ≤ -5 ∨
        16 ≤ d.leadingExponent ∧ d.leadingExponent ≤ 20)
  | _ => false

section Texts

variable {s : List Char} {n : Int}

/-- A positional text is made of digits and a point. -/
theorem decimalString_positional_chars (digits : ∀ c ∈ s, c.isDigit)
    (positional : -5 ≤ n ∧ n ≤ 21) : ∀ c ∈ decimalString s n, c.isDigit ∨ c = '.' := by
  have zeros : ∀ (j : Nat), ∀ c ∈ List.replicate j '0', c.isDigit ∨ c = '.' := fun j c member => by
    rw [List.eq_of_mem_replicate member]
    exact Or.inl rfl
  intro c member
  simp only [decimalString, if_pos positional] at member
  split_ifs at member
  · rcases List.mem_append.mp member with inDigits | inZeros
    · exact Or.inl (digits c inDigits)
    · exact zeros _ c inZeros
  · rcases List.mem_append.mp member with inFront | inRest
    · exact Or.inl (digits c (List.mem_of_mem_take inFront))
    · rcases List.mem_cons.mp inRest with point | inBack
      · exact Or.inr point
      · exact Or.inl (digits c (List.mem_of_mem_drop inBack))
  · rcases List.mem_cons.mp member with zero | member
    · exact Or.inl (zero ▸ rfl)
    rcases List.mem_cons.mp member with point | member
    · exact Or.inr point
    rcases List.mem_append.mp member with inZeros | inDigits
    · exact zeros _ c inZeros
    · exact Or.inl (digits c inDigits)

theorem e_not_mem_decimalString (digits : ∀ c ∈ s, c.isDigit) (positional : -5 ≤ n ∧ n ≤ 21) :
    'e' ∉ decimalString s n := fun member => by
  rcases decimalString_positional_chars digits positional 'e' member with digit | point
  · exact absurd digit (by decide)
  · exact absurd point (by decide)

/-- A text that is not positional has a point or an exponent, which the digits of a whole
number have not. -/
theorem decimalString_ne_toDigits {N : Nat}
    (notInteger : ¬((s.length : Int) ≤ n ∧ -5 ≤ n ∧ n ≤ 21)) :
    decimalString s n ≠ Nat.toDigits 10 N := by
  intro same
  have onlyDigits : ∀ c ∈ decimalString s n, c.isDigit := fun c member =>
    Nat.isDigit_of_mem_toDigits (by decide) (by decide) (same ▸ member)
  simp only [decimalString] at onlyDigits
  split_ifs at onlyDigits with positional atLeast
  · exact notInteger ⟨atLeast, positional⟩
  all_goals
    have point := onlyDigits '.'
    have exponent := onlyDigits 'e'
    simp [isDigit_point, isDigit_e] at point exponent

end Texts

end Script

namespace Script

variable {d : Decimal}

/-- ECMAScript writes a normal decimal with the digits of a whole number below `10^21` exactly
when the decimal is that number. -/
theorem decimalString_eq_toDigits_iff (normal : d.Normal) {N : Nat} (small : N < 10 ^ 21) :
    decimalString d.digitList (d.exponent + d.digitList.length) = Nat.toDigits 10 N ↔
      0 ≤ d.exponent ∧ d.digits * 10 ^ d.exponent.toNat = N := by
  have digits := NumberFormat.digitList_digits d
  constructor
  · intro same
    -- only the positional text of a whole number is made of digits alone
    have integer : (d.digitList.length : Int) ≤ d.exponent + d.digitList.length ∧
        -5 ≤ d.exponent + d.digitList.length ∧ d.exponent + d.digitList.length ≤ 21 := by
      by_contra notInteger
      exact decimalString_ne_toDigits notInteger same
    have nonneg : 0 ≤ d.exponent := by omega
    refine ⟨nonneg, ?_⟩
    simp only [decimalString, if_pos integer.2, if_pos integer.1,
      show d.exponent + d.digitList.length - d.digitList.length = d.exponent by omega] at same
    rw [Decimal.digitList, ← Binary64.toDigits_mul_pow normal.positive] at same
    simpa using congrArg Binary64.digitValue same
  · rintro ⟨nonneg, rfl⟩
    -- the whole number has the digits of the decimal and its zeros, at most 21 of them
    have length : Binary64.decimalLength (d.digits * 10 ^ d.exponent.toNat) ≤ 21 :=
      (Nat.length_toDigits_le_iff (by norm_num) (by norm_num)).mpr small
    rw [Binary64.decimalLength_mul_pow normal.positive] at length
    have integer : (d.digitList.length : Int) ≤ d.exponent + d.digitList.length ∧
        -5 ≤ d.exponent + d.digitList.length ∧ d.exponent + d.digitList.length ≤ 21 := by
      simp only [Binary64.decimalLength] at length
      simp only [Decimal.digitList]
      omega
    simp only [decimalString, if_pos integer.2, if_pos integer.1,
      show d.exponent + d.digitList.length - d.digitList.length = d.exponent by omega]
    rw [Decimal.digitList, Binary64.toDigits_mul_pow normal.positive]

/-- Where generated code writes a value with an exponent, its text has an `e`. -/
theorem e_mem_decimalText (format : NumberFormat)
    (notPositional : ¬(format.positionalFrom ≤ d.leadingExponent ∧
      d.leadingExponent < format.positionalUntil)) :
    'e' ∈ format.decimalText d := by
  simp [NumberFormat.decimalText, if_neg notPositional]

/-- Generated code and ECMAScript write a decimal with positive digits alike, except where
ECMAScript writes it positionally and generated code with an exponent. -/
theorem decimalText_eq_decimalString_iff :
    scriptFormat.decimalText d = decimalString d.digitList (d.exponent + d.digitList.length) ↔
      ¬(-6 ≤ d.leadingExponent ∧ d.leadingExponent ≤ -5 ∨
        16 ≤ d.leadingExponent ∧ d.leadingExponent ≤ 20) := by
  have filled : d.digitList ≠ [] := Nat.toDigits_ne_nil
  have length := List.length_pos_iff.mpr filled
  have lead : d.leadingExponent = d.exponent + d.digitList.length - 1 := rfl
  by_cases codePositional : -4 ≤ d.leadingExponent ∧ d.leadingExponent < 16
  · -- both positional, with the same three cases
    simp only [show ¬(-6 ≤ d.leadingExponent ∧ d.leadingExponent ≤ -5 ∨
      16 ≤ d.leadingExponent ∧ d.leadingExponent ≤ 20) by omega, not_false_eq_true, iff_true]
    simp only [NumberFormat.decimalText, scriptFormat, if_pos codePositional, decimalString,
      if_pos (show -5 ≤ d.exponent + d.digitList.length ∧ d.exponent + d.digitList.length ≤ 21
        by omega), Bool.false_eq_true, if_false, List.append_nil, NumberFormat.zeros,
      show (d.digitList.length : Int) ≤ d.exponent + d.digitList.length ↔ 0 ≤ d.exponent by omega,
      show 0 < d.exponent + d.digitList.length ↔ 0 ≤ d.leadingExponent by omega,
      show d.exponent + d.digitList.length - d.digitList.length = d.exponent by omega,
      show (-(d.exponent + d.digitList.length)).toNat = (-d.leadingExponent - 1).toNat by omega]
    split_ifs with nonneg leadNonneg
    · rfl
    · rw [show (d.exponent + d.digitList.length).toNat = d.leadingExponent.toNat + 1 by omega]
    · rfl
  · by_cases scriptPositional : -5 ≤ d.exponent + d.digitList.length ∧
      d.exponent + d.digitList.length ≤ 21
    · -- ECMAScript positional, generated code with an exponent
      simp only [show -6 ≤ d.leadingExponent ∧ d.leadingExponent ≤ -5 ∨
        16 ≤ d.leadingExponent ∧ d.leadingExponent ≤ 20 by omega, not_true_eq_false, iff_false]
      intro same
      have inCode := e_mem_decimalText scriptFormat (d := d) codePositional
      rw [same] at inCode
      exact e_not_mem_decimalString (NumberFormat.digitList_digits d) scriptPositional inCode
    · -- both with an exponent
      simp only [show ¬(-6 ≤ d.leadingExponent ∧ d.leadingExponent ≤ -5 ∨
        16 ≤ d.leadingExponent ∧ d.leadingExponent ≤ 20) by omega, not_false_eq_true, iff_true]
      -- the exponent is written alike, and neither pads it
      have noPad : NumberFormat.zeros (1 - (Nat.toDigits 10 d.leadingExponent.natAbs).length) = [] := by
        have := List.length_pos_iff.mpr (Nat.toDigits_ne_nil (n := d.leadingExponent.natAbs) (b := 10))
        simp only [NumberFormat.zeros, List.replicate_eq_nil_iff]
        omega
      simp only [NumberFormat.decimalText, scriptFormat, if_neg codePositional, decimalString,
        if_neg scriptPositional, noPad,
        show d.exponent + d.digitList.length < 0 ↔ d.leadingExponent < 0 by omega,
        show d.exponent + d.digitList.length - 1 = d.leadingExponent by omega]
      obtain ⟨first, rest, spelled⟩ := List.exists_cons_of_ne_nil filled
      rw [spelled]
      cases rest with
      | nil => simp
      | cons second more =>
        simp
        omega

end Script

section Agreement

/-- Generated code writes a double exactly as Number::toString does, unless it is an integral
value below `10^21` whose shortest decimal is not that integer, or another finite value whose
shortest decimal ECMAScript writes positionally and generated code with an exponent. -/
theorem formatNumber_eq_numberToString_iff (x : Binary64) :
    formatNumber x = Script.numberToString x ↔ Script.writtenApart x = false := by
  cases x with
  | nan => simp [formatNumber, NumberFormat.render, scriptFormat, Script.numberToString,
      Script.writtenApart]
  | infinite negative =>
    cases negative <;> simp [formatNumber, NumberFormat.render, scriptFormat,
      Script.numberToString, Script.writtenApart]
  | finite negative biased fraction =>
    by_cases zero : Binary64.significandOf biased fraction = 0
    · -- both write the zeros as `0`, the integer they are
      have full : scriptFormat.fullInteger? (.finite negative biased fraction) = some 0 :=
        NumberFormat.scriptFormat_fullInteger?.mpr
          ⟨Binary64.toInt?_of_significand_zero zero, by norm_num⟩
      simp [formatNumber, NumberFormat.render, full, Script.numberToString, zero,
        Script.writtenApart, Binary64.shortestOf_zero zero]
      rfl
    · have normal := Binary64.shortestOf_normal zero
      have script : Script.numberToString (.finite negative biased fraction) =
          String.ofList ((if negative then ['-'] else []) ++
            Script.decimalString (Binary64.shortestOf biased fraction).digitList
              ((Binary64.shortestOf biased fraction).exponent +
                (Binary64.shortestOf biased fraction).digitList.length)) := by
        simp [Script.numberToString, zero]
      cases full : scriptFormat.fullInteger? (.finite negative biased fraction) with
      | some i =>
        -- an integer: its digits against the shortest digits padded with zeros
        obtain ⟨found, small⟩ := NumberFormat.scriptFormat_fullInteger?.mp full
        have written : formatNumber (.finite negative biased fraction) = toString i := by
          simp [formatNumber, NumberFormat.render, full]
        rw [written, script, ← String.toList_inj, String.toList_ofList, toString_int_toList,
          Binary64.toInt?_sign found (Binary64.toInt?_ne_zero zero found), List.append_right_inj,
          eq_comm, Script.decimalString_eq_toDigits_iff normal small]
        simp [Script.writtenApart, full]
      | none =>
        rw [formatNumber, NumberFormat.render_shortest scriptFormat full, script, String.ofList_inj,
          List.append_right_inj, Script.decimalText_eq_decimalString_iff]
        simp [Script.writtenApart, full]

example : formatNumber (Binary64.ofNat (2 ^ 60)) = "1152921504606846976" ∧
    Script.numberToString (Binary64.ofNat (2 ^ 60)) = "1152921504606847000" := by
  decide +kernel

/-- A hundred-thousandth, which generated code writes with an exponent and ECMAScript
positionally. -/
theorem hundredThousandth_written_apart :
    formatNumber (Binary64.ofScientific false 1 (-5)) = "1e-5" ∧
      Script.numberToString (Binary64.ofScientific false 1 (-5)) = "0.00001" := by
  decide +kernel

end Agreement

end VieCompiler
