import VieCompiler.Proofs.Numerals
import VieCompiler.Proofs.ShortestDecimal
import VieCompiler.Proofs.ShortestRoundTrip

/-!
# Numbers in generated code keep their value

`formatNumber` writes every double but NaN as a script numeral (`Script.numeral?`): an
optional minus sign and then `Infinity` or a decimal literal. An integral value below `10^21`
is written in full by `toString`, and that numeral has exactly the value of the double and
stands for it, save negative zero, which is written `0`. Every other finite value is written
from the shortest decimal that the dumps write too: the two numerals differ only in where the
point goes and in how the exponent is spelled, so they have the same exact value, and the
double that generated code reads from its numeral is the one that the dump's text reads as
(`formatNumber_numeral_value`). Where that text reads back as the value, which is what the
shortest decimal is chosen for, generated code reads back the value too.
-/

namespace VieCompiler

section Integers

/-- `toString` writes an integer as its sign and the digits of its magnitude. -/
theorem toString_int_toList (i : Int) :
    (toString i).toList = (if decide (i < 0) then ['-'] else []) ++ Nat.toDigits 10 i.natAbs := by
  simp only [Int.toString_eq_repr, Int.repr_eq_if]
  split
  · have natural : i.toNat = i.natAbs := by omega
    simp [Nat.toList_repr, natural, show ¬i < 0 by omega]
  · have natural : (-i).toNat = i.natAbs := by omega
    simp [String.toList_append, Nat.toList_repr, natural, show i < 0 by omega]

/-- An integer as `toString` writes it is a script numeral of its value. -/
theorem numeral?_toString (i : Int) :
    Script.numeral? (toString i).toList = some (.decimal (decide (i < 0)) ⟨i.natAbs, 0⟩) := by
  let p : NumeralParts := ⟨Nat.toDigits 10 i.natAbs, [], none⟩
  have valid : p.Valid := NumeralParts.valid_toDigits i.natAbs
  have spelled : p.decimal = ⟨i.natAbs, 0⟩ := by
    simp [p, NumeralParts.decimal, NumeralParts.exponentValue]
  have written : (toString i).toList = (if decide (i < 0) then ['-'] else []) ++ p.text := by
    rw [toString_int_toList]
    simp [p, NumeralParts.text, NumeralParts.fractionText, NumeralParts.exponentText]
  rw [written, p.numeral?_text valid, spelled]

end Integers

namespace NumberFormat

variable {x : Binary64} {i : Int}

/-- Generated code writes in full the integers below `10^21`. -/
theorem scriptFormat_fullInteger? :
    scriptFormat.fullInteger? x = some i ↔ x.toInt? = some i ∧ i.natAbs < 10 ^ 21 := by
  simp only [fullInteger?, scriptFormat]
  cases x.toInt? with
  | none => simp
  | some n =>
    show (if n.natAbs < 10 ^ 21 then some n else none) = some i ↔ _
    by_cases small : n.natAbs < 10 ^ 21
    · simp only [if_pos small, Option.some.injEq]
      constructor
      · rintro rfl
        exact ⟨rfl, small⟩
      · rintro ⟨rfl, -⟩
        rfl
    · simp only [if_neg small, reduceCtorEq, false_iff, not_and, Option.some.injEq]
      rintro rfl
      exact small

/-- The dumps write no integer in full. -/
theorem dumpFormat_fullInteger? : JsonValue.dumpFormat.fullInteger? x = none := by
  simp [fullInteger?, JsonValue.dumpFormat]

/-- A finite double that a format does not write in full is its sign and the shortest
decimal. -/
theorem render_shortest (format : NumberFormat) {negative : Bool} {biased : Fin 2047}
    {fraction : Fin (2 ^ 52)} (notFull : format.fullInteger? (.finite negative biased fraction) = none) :
    format.render (.finite negative biased fraction) =
      String.ofList ((if negative then ['-'] else []) ++
        format.decimalText (Binary64.shortestOf biased fraction)) := by
  simp [render, notFull]

end NumberFormat

section Written

/-- The numeral of an infinity. -/
theorem numeral?_formatNumber_infinite (negative : Bool) :
    Script.numeral? (formatNumber (.infinite negative)).toList = some (.infinity negative) := by
  cases negative <;> rfl

/-- An integral value below `10^21` is written as a numeral of exactly its value, which stands
for it unless it is negative zero. -/
theorem formatNumber_integer {negative : Bool} {biased : Fin 2047} {fraction : Fin (2 ^ 52)}
    {i : Int} (full : scriptFormat.fullInteger? (.finite negative biased fraction) = some i)
    (notNegZero : Binary64.finite negative biased fraction ≠ .finite true 0 0) :
    ∃ n, Script.numeral? (formatNumber (.finite negative biased fraction)).toList = some n ∧
      n.value? = some (i : ℚ) ∧ n.denotes = .finite negative biased fraction := by
  have found := (NumberFormat.scriptFormat_fullInteger?.mp full).1
  refine ⟨.decimal (decide (i < 0)) ⟨i.natAbs, 0⟩, ?_, ?_, ?_⟩
  · simp only [formatNumber, NumberFormat.render, full]
    exact numeral?_toString i
  · simp only [Script.Numeral.value?, Decimal.value, zpow_zero, mul_one, Option.some.injEq]
    split
    · rename_i below
      have : i < 0 := by simpa using below
      rw [Nat.cast_natAbs, Int.cast_abs, abs_of_neg (by exact_mod_cast this), neg_neg]
    · rename_i notBelow
      have : 0 ≤ i := by simpa using notBelow
      rw [Nat.cast_natAbs, Int.cast_abs, abs_of_nonneg (by exact_mod_cast this)]
  · exact Binary64.ofScientific_of_toInt? found notNegZero

/-- A finite value that generated code does not write in full is written from the shortest
decimal, as the dumps write it: the two numerals have one value, and generated code reads
from its numeral the double that the dump's text reads as. -/
theorem formatNumber_shortest {negative : Bool} {biased : Fin 2047} {fraction : Fin (2 ^ 52)}
    (notFull : scriptFormat.fullInteger? (.finite negative biased fraction) = none) :
    ∃ n repr, Script.numeral? (formatNumber (.finite negative biased fraction)).toList = some n ∧
      Script.numeral? (JsonValue.dumpFormat.render (.finite negative biased fraction)).toList =
        some repr ∧
      n.value? = repr.value? ∧
      Binary64.ofText? (JsonValue.dumpFormat.render (.finite negative biased fraction)) =
        some n.denotes := by
  -- a zero would be the integer `0`, which is written in full
  have nonzero : Binary64.significandOf biased fraction ≠ 0 := by
    intro zero
    have full : scriptFormat.fullInteger? (.finite negative biased fraction) = some 0 :=
      NumberFormat.scriptFormat_fullInteger?.mpr
        ⟨Binary64.toInt?_of_significand_zero zero, by norm_num⟩
    rw [notFull] at full
    cases full
  have positive := (Binary64.shortestOf_normal nonzero).positive
  obtain ⟨literal, written, sameValue, sameDouble⟩ :=
    NumberFormat.numeral?_decimalText scriptFormat positive negative
  obtain ⟨dumped, dumpWritten, dumpValue, -⟩ :=
    NumberFormat.numeral?_decimalText JsonValue.dumpFormat positive negative
  have script := NumberFormat.render_shortest scriptFormat notFull
  have dump := NumberFormat.render_shortest JsonValue.dumpFormat
    (NumberFormat.dumpFormat_fullInteger? (x := .finite negative biased fraction))
  refine ⟨.decimal negative literal, .decimal negative dumped, ?_, ?_, ?_, ?_⟩
  · rw [formatNumber, script, String.toList_ofList, written]
  · rw [dump, String.toList_ofList, dumpWritten]
  · simp [Script.Numeral.value?, sameValue, dumpValue]
  · rw [dump, NumberFormat.ofText?_decimalText JsonValue.dumpFormat positive negative,
      Script.Numeral.denotes, sameDouble]

/-- Every double but NaN and negative zero is written as a numeral: the numeral of an infinity
is `Infinity` with its sign; an integral value below `10^21` is written as a numeral of
exactly its value, standing for the double itself; and any other finite value as a numeral
of the value of the dumps' text, standing for the double that this text reads as. -/
theorem formatNumber_numeral_value (x : Binary64) (notNaN : x ≠ .nan)
    (notNegZero : x ≠ .finite true 0 0) :
    ∃ n, Script.numeral? (formatNumber x).toList = some n ∧
      (∀ negative, x = .infinite negative → n = .infinity negative) ∧
      ∀ r, x.toRat? = some r →
        ((∃ i : Int, r = i ∧ i.natAbs < 10 ^ 21) → n.value? = some r ∧ n.denotes = x) ∧
        ((¬∃ i : Int, r = i ∧ i.natAbs < 10 ^ 21) →
          ∃ repr, Script.numeral? (JsonValue.dumpFormat.render x).toList = some repr ∧
            n.value? = repr.value? ∧
            Binary64.ofText? (JsonValue.dumpFormat.render x) = some n.denotes) := by
  cases x with
  | nan => exact absurd rfl notNaN
  | infinite negative =>
    refine ⟨.infinity negative, numeral?_formatNumber_infinite negative, ?_, ?_⟩
    · intro other same
      cases same
      rfl
    · intro r exact
      simp [Binary64.toRat?] at exact
  | finite negative biased fraction =>
    cases full : scriptFormat.fullInteger? (.finite negative biased fraction) with
    | some i =>
      obtain ⟨n, written, value, denotes⟩ := formatNumber_integer full notNegZero
      refine ⟨n, written, fun _ infinite => Binary64.noConfusion infinite, fun r exact => ?_⟩
      -- the value is the integer written, so it is the one below `10^21`
      have whole := Binary64.toRat?_of_toInt? (NumberFormat.scriptFormat_fullInteger?.mp full).1
      rw [exact, Option.some.injEq] at whole
      refine ⟨fun _ => ⟨whole ▸ value, denotes⟩, fun notWhole => ?_⟩
      exact absurd ⟨i, whole, (NumberFormat.scriptFormat_fullInteger?.mp full).2⟩ notWhole
    | none =>
      obtain ⟨n, repr, written, dumped, sameValue, reads⟩ := formatNumber_shortest full
      refine ⟨n, written, fun _ infinite => Binary64.noConfusion infinite, fun r exact => ?_⟩
      refine ⟨fun integral => ?_, fun _ => ⟨repr, dumped, sameValue, reads⟩⟩
      obtain ⟨i, whole, small⟩ := integral
      -- an integral value below `10^21` would have been written in full
      have found := Binary64.toInt?_of_toRat? (whole ▸ exact)
      have writtenFull := NumberFormat.scriptFormat_fullInteger?.mpr ⟨found, small⟩
      rw [full] at writtenFull
      cases writtenFull

/-- One tenth is a double that generated code writes as a numeral. -/
theorem tenth_written_as_numeral :
    Binary64.ofScientific false 1 (-1) ≠ .nan ∧ Binary64.ofScientific false 1 (-1) ≠ .finite true 0 0 ∧
      ∃ n, Script.numeral? (formatNumber (Binary64.ofScientific false 1 (-1))).toList = some n :=
  ⟨by decide, by decide,
    (formatNumber_numeral_value _ (by decide) (by decide)).imp
      fun _ written => written.1⟩

example : formatNumber (Binary64.ofScientific true 25 (-1)) = "-2.5" ∧
    formatNumber (Binary64.ofScientific false 1 21) = "1e+21" := by
  decide +kernel

/-- A whole double of at least `2^53` sits at a whole exponent: at a negative one its value
would be at most its significand. -/
theorem Binary64.exponentOf_nonneg {negative : Bool} {biased : Fin 2047} {fraction : Fin (2 ^ 52)}
    {n : Int} (found : (Binary64.finite negative biased fraction).toInt? = some n)
    (large : 2 ^ 53 ≤ n.natAbs) : 0 ≤ Binary64.exponentOf biased := by
  by_contra negativeExponent
  have high := Binary64.significandOf_lt biased fraction
  simp only [Binary64.toInt?, Binary64.magnitude?, if_neg negativeExponent] at found
  by_cases divides : Binary64.significandOf biased fraction %
      2 ^ (-Binary64.exponentOf biased).toNat = 0
  · have quotient := Int.ediv_le_self (2 ^ (-Binary64.exponentOf biased).toNat)
      (Int.natCast_nonneg (Binary64.significandOf biased fraction))
    have nonneg := Int.ediv_nonneg (Int.natCast_nonneg (Binary64.significandOf biased fraction))
      (by positivity : (0 : Int) ≤ 2 ^ (-Binary64.exponentOf biased).toNat)
    cases negative <;> simp [if_pos divides, Binary64.isNegative] at found <;> omega
  · simp [if_neg divides] at found

/-- A whole number from `10^21` on is written with an exponent, in valid parts that spell a
decimal which reads back as the number: its shortest decimal, whose leading digit stands for
at least `10^16`. -/
theorem formatNumber_exponent {v : Binary64} {n : Nat} (found : v.toInt? = some (n : Int))
    (large : 10 ^ 21 ≤ n) :
    ∃ p : NumeralParts, p.Valid ∧ p.exponent ≠ none ∧ (formatNumber v).toList = p.text ∧
      Binary64.ofScientific false p.decimal.digits p.decimal.exponent = v := by
  obtain ⟨negative, biased, fraction, rfl⟩ : ∃ negative biased fraction,
      v = .finite negative biased fraction := by
    cases v with
    | finite negative biased fraction => exact ⟨negative, biased, fraction, rfl⟩
    | _ => simp [Binary64.toInt?, Binary64.magnitude?] at found
  -- a positive whole number, too large to be written in full
  have positiveSign : negative = false := by
    have sign := Binary64.toInt?_sign found (by omega)
    rw [decide_eq_false (by omega)] at sign
    exact sign.symm
  subst positiveSign
  have notFull : scriptFormat.fullInteger? (.finite false biased fraction) = none := by
    cases full : scriptFormat.fullInteger? (.finite false biased fraction) with
    | none => rfl
    | some i =>
      obtain ⟨same, small⟩ := NumberFormat.scriptFormat_fullInteger?.mp full
      rw [found, Option.some.injEq] at same
      subst same
      simp only [Int.natAbs_natCast] at small
      omega
  obtain ⟨Q, whole⟩ := Int.eq_ofNat_of_zero_le
    (Binary64.exponentOf_nonneg found (by simp only [Int.natAbs_natCast]; omega))
  have value : Binary64.significandOf biased fraction * 2 ^ Q = n := by
    simp [Binary64.toInt?, Binary64.magnitude?, whole, Binary64.isNegative] at found
    exact_mod_cast found
  -- the shortest decimal is near the number, so at least `10^16`
  obtain ⟨nonneg, admits⟩ := Binary64.shortestOf_whole fraction whole
  rw [Binary64.ofMagnitude_whole whole] at admits
  obtain ⟨lower, -, -, -⟩ := admits.near
  simp only at lower
  have spacing : 2 ^ Q ≤ Binary64.significandOf biased fraction * 2 ^ Q :=
    Nat.le_mul_of_pos_left _ (by have := Binary64.significandOf_normal fraction whole; omega)
  set d := Binary64.shortestOf biased fraction
  have positive : 0 < d.digits := by
    rcases Nat.eq_zero_or_pos d.digits with zero | positive
    · rw [zero, Nat.zero_mul] at lower
      omega
    · exact positive
  have bound : d.digits < 10 ^ d.digitList.length :=
    (Nat.length_toDigits_le_iff (by norm_num) (List.length_pos_iff.mpr Nat.toDigits_ne_nil)).mp le_rfl
  have wide : 16 ≤ d.leadingExponent := by
    by_contra narrow
    have short : d.digitList.length + d.exponent.toNat ≤ 16 := by
      unfold Decimal.leadingExponent at narrow
      omega
    have below : d.digits * 10 ^ d.exponent.toNat < 10 ^ 16 :=
      calc d.digits * 10 ^ d.exponent.toNat
          < 10 ^ d.digitList.length * 10 ^ d.exponent.toNat :=
            Nat.mul_lt_mul_of_pos_right bound (by positivity)
        _ = 10 ^ (d.digitList.length + d.exponent.toNat) := (Nat.pow_add _ _ _).symm
        _ ≤ 10 ^ 16 := Nat.pow_le_pow_right (by norm_num) short
    omega
  obtain ⟨p, valid, written, j, spelled⟩ := NumberFormat.decimalText_parts scriptFormat positive
  have text : (formatNumber (.finite false biased fraction)).toList = p.text := by
    rw [formatNumber, NumberFormat.render_shortest scriptFormat notFull, String.toList_ofList,
      if_neg Bool.false_ne_true, List.nil_append, written]
  refine ⟨p, valid, ?_, text, ?_⟩
  · -- a leading exponent from `16` on is written with an exponent
    have inText : 'e' ∈ scriptFormat.decimalText d := by
      simp [NumberFormat.decimalText, scriptFormat, show ¬d.leadingExponent < 16 by omega]
    exact NumeralParts.exponent_ne_none valid (written ▸ inText)
  · rw [spelled, Binary64.ofScientific_mul_pow]
    exact Binary64.ofScientific_shortestOf whole

end Written

end VieCompiler
