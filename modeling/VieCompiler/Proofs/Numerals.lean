import VieCompiler.Proofs.NearestDouble
import VieCompiler.Proofs.Script.Lexer
import VieCompiler.Code.Emit
import VieCompiler.Json.Tree
import VieCompiler.Proofs.TokenShapes

/-!
# Written numerals and their values

A number that generated code writes is an optional minus sign followed by `Infinity` or by a
decimal literal of ECMAScript. `Script.numeral?` reads such a text as a `Script.Numeral`,
which keeps the literal as the digits it spells and its power of ten, so that both its exact
value (`Script.Numeral.value?`) and the double it stands for in a script
(`Script.Numeral.denotes`, the double nearest to that value) can be read off.

Every way of writing a decimal that the library has (`NumberFormat.decimalText`, for the
generated code and for the dumps alike) writes it in parts (`NumeralParts`): integer digits,
fraction digits after a point, and an exponent. A text made of such parts reads back, as an
ECMAScript literal and with `Binary64.ofText?` alike, as the digits of both parts together
scaled by the exponent less the number of fraction digits (`NumeralParts.decimalLiteral?_text`,
`NumeralParts.ofText?_text`), and the parts of `decimalText` spell the decimal they were
written from, up to zeros that the digits gain and the exponent loses
(`NumberFormat.decimalText_parts`).
-/

namespace VieCompiler

namespace Decimal

/-- The exact value `digits · 10^exponent`. -/
def value (d : Decimal) : ℚ :=
  d.digits * 10 ^ d.exponent

/-- Zeros moved from the exponent into the digits leave the value alone. -/
theorem value_shift (d : Decimal) (j : Nat) :
    (⟨d.digits * 10 ^ j, d.exponent - j⟩ : Decimal).value = d.value := by
  simp only [value, Nat.cast_mul, Nat.cast_pow, Nat.cast_ofNat,
    zpow_sub₀ (by norm_num : (10 : ℚ) ≠ 0), zpow_natCast]
  field_simp

end Decimal

/-- A decimal numeral by its parts: the integer digits, the fraction digits (written after a
point when there are any) and the exponent, as its sign and digits, when there is one. -/
structure NumeralParts where
  /-- The digits before the point. -/
  whole : List Char
  /-- The digits after the point; no point is written when there are none. -/
  fraction : List Char
  /-- Whether the exponent is negative, and its digits, when there is an exponent. -/
  exponent : Option (Bool × List Char)

namespace NumeralParts

/-- The fraction digits after a point, or nothing when there are none. -/
def fractionText (fraction : List Char) : List Char :=
  if fraction = [] then [] else '.' :: fraction

/-- The exponent as `e`, an explicit sign and its digits, or nothing. -/
def exponentText : Option (Bool × List Char) → List Char
  | none => []
  | some (negative, digits) => 'e' :: (if negative then '-' else '+') :: digits

/-- The text of the numeral. -/
def text (p : NumeralParts) : List Char :=
  p.whole ++ fractionText p.fraction ++ exponentText p.exponent

/-- The value of the exponent, zero when there is none. -/
def exponentValue (p : NumeralParts) : Int :=
  match p.exponent with
  | none => 0
  | some (negative, digits) =>
    if negative then -(Binary64.digitValue digits : Int) else Binary64.digitValue digits

/-- The decimal the numeral spells: all its digits, scaled by the exponent less the number of
fraction digits. -/
def decimal (p : NumeralParts) : Decimal :=
  ⟨Binary64.digitValue (p.whole ++ p.fraction), p.exponentValue - p.fraction.length⟩

/-- The parts are digits, the integer digits are not empty and start with `0` only when they
are that one digit, and an exponent has digits. -/
structure Valid (p : NumeralParts) : Prop where
  whole_digits : ∀ c ∈ p.whole, c.isDigit
  whole_nonempty : p.whole ≠ []
  single_zero : p.whole.head? = some '0' → p.whole.length = 1
  fraction_digits : ∀ c ∈ p.fraction, c.isDigit
  exponent_digits : ∀ e ∈ p.exponent, e.2 ≠ [] ∧ ∀ c ∈ e.2, c.isDigit

end NumeralParts

namespace Script

/-- The decimal literal that makes up all of `chars`, as the digits it spells and its power of
ten: what `numericLiteral` reads, with nothing after it. -/
def decimalLiteral? (chars : List Char) : Option Decimal :=
  let whole := chars.takeWhile Char.isDigit
  let fraction := fractionPart (chars.dropWhile Char.isDigit)
  let exponent := (exponentPart? fraction.2).getD (0, fraction.2)
  if whole.isEmpty ∧ fraction.1.isEmpty then none
  else if whole.head? = some '0' ∧ 1 < whole.length then none
  else if exponent.2 = [] then
    some ⟨Binary64.digitValue (whole ++ fraction.1), exponent.1 - fraction.1.length⟩
  else none

/-- A number as a script writes it: an optional minus sign before `Infinity` or before a
decimal literal, kept as the digits it spells and its power of ten. -/
inductive Numeral where
  | infinity (negative : Bool)
  | decimal (negative : Bool) (literal : Decimal)
deriving DecidableEq, Repr

/-- The numeral of a text without its sign. -/
def unsignedNumeral? (negative : Bool) (body : List Char) : Option Numeral :=
  if body = "Infinity".toList then some (.infinity negative)
  else (decimalLiteral? body).map (.decimal negative)

/-- The numeral that makes up all of `chars`: a minus sign, when there is one, and then
`Infinity` or a decimal literal. -/
def numeral? : List Char → Option Numeral
  | '-' :: body => unsignedNumeral? true body
  | body => unsignedNumeral? false body

/-- A text that does not start with a minus sign is read without a sign. -/
theorem numeral?_unsigned {chars : List Char} (noMinus : chars.head? ≠ some '-') :
    numeral? chars = unsignedNumeral? false chars := by
  unfold numeral?
  split
  · simp at noMinus
  · rfl

namespace Numeral

/-- The exact value of a decimal numeral, its sign included; `none` for infinity. -/
def value? : Numeral → Option ℚ
  | infinity _ => none
  | decimal negative literal => some (if negative then -literal.value else literal.value)

/-- The double a numeral stands for in a script: the double nearest to the literal's value,
negated after a minus sign (which `Binary64.ofScientific` does by its sign argument), or an
infinity. -/
def denotes : Numeral → Binary64
  | infinity negative => .infinite negative
  | decimal negative literal => Binary64.ofScientific negative literal.digits literal.exponent

end Numeral

end Script

section Characters

theorem isDigit_point : '.'.isDigit = false := by decide
theorem isDigit_e : 'e'.isDigit = false := by decide

/-- A digit run followed by a character that is no digit reads as the run. -/
theorem takeWhile_digits_append {digits rest : List Char} (all : ∀ c ∈ digits, c.isDigit)
    (stops : ∀ c ∈ rest.head?, c.isDigit = false) :
    (digits ++ rest).takeWhile Char.isDigit = digits ∧
      (digits ++ rest).dropWhile Char.isDigit = rest := by
  rw [List.takeWhile_append_of_pos all, List.dropWhile_append_of_pos all]
  cases rest with
  | nil => simp
  | cons c more =>
    have stop : c.isDigit = false := stops c rfl
    simp [stop]

end Characters

namespace NumeralParts

variable {p : NumeralParts}

theorem exponentText_head (exponent : Option (Bool × List Char)) :
    ∀ c ∈ (exponentText exponent).head?, c = 'e' := by
  cases exponent with
  | none => simp [exponentText]
  | some e => simp [exponentText]

/-- What may follow the text of the parts without joining their literal: no digit, and, where
the parts have no exponent, neither a point nor the letter of an exponent. -/
def Stops (p : NumeralParts) (ys : List Char) : Prop :=
  ∀ c ∈ ys.head?, c.isDigit = false ∧ (p.exponent = none → c ≠ '.' ∧ c ≠ 'e' ∧ c ≠ 'E')

variable {ys : List Char}

theorem stops_nil (p : NumeralParts) : p.Stops [] := fun _ none => by cases none

/-- Where the exponent stands, or after the parts when there is none, no digit comes first. -/
theorem exponentTail_stops (stop : p.Stops ys) :
    ∀ c ∈ (exponentText p.exponent ++ ys).head?, c.isDigit = false := by
  cases exponent : p.exponent with
  | none => simpa [exponentText] using fun c first => (stop c first).1
  | some e =>
    obtain ⟨negative, digits⟩ := e
    simp [exponentText, isDigit_e]

/-- What follows the integer digits starts with the point, the exponent's `e`, or no digit. -/
theorem tail_stops (stop : p.Stops ys) :
    ∀ c ∈ (fractionText p.fraction ++ (exponentText p.exponent ++ ys)).head?,
      c.isDigit = false := by
  by_cases empty : p.fraction = []
  · simpa [fractionText, empty] using exponentTail_stops stop
  · simp [fractionText, empty, isDigit_point]

/-- The exponent read, and what follows it; zero with nothing read when there is none. -/
theorem exponentPart?_getD (valid : p.Valid) (stop : p.Stops ys) :
    (Script.exponentPart? (exponentText p.exponent ++ ys)).getD (0, exponentText p.exponent ++ ys) =
      (p.exponentValue, ys) := by
  unfold exponentValue
  cases exponent : p.exponent with
  | none =>
    -- no `e` follows the parts
    cases ys with
    | nil => rfl
    | cons c more =>
      obtain ⟨-, notE, notBigE⟩ := (stop c rfl).2 exponent
      simp [exponentText, Script.exponentPart?, notE, notBigE]
  | some e =>
    obtain ⟨negative, digits⟩ := e
    obtain ⟨nonempty, all⟩ := valid.exponent_digits (negative, digits) (by simp [exponent])
    have run := takeWhile_digits_append all fun c first => (stop c first).1
    cases negative <;>
      simp [exponentText, Script.exponentPart?, Script.exponentSign, run.1, run.2, nonempty]

theorem fractionPart_text (valid : p.Valid) (stop : p.Stops ys) :
    Script.fractionPart (fractionText p.fraction ++ (exponentText p.exponent ++ ys)) =
      (p.fraction, exponentText p.exponent ++ ys) := by
  by_cases empty : p.fraction = []
  · simp only [fractionText, empty, if_true, List.nil_append]
    cases exponent : p.exponent with
    | some e => simp [exponentText, Script.fractionPart]
    | none =>
      -- no point follows the parts
      cases ys with
      | nil => rfl
      | cons c more =>
        have notPoint := ((stop c rfl).2 exponent).1
        simp [exponentText, Script.fractionPart, notPoint]
  · have run := takeWhile_digits_append valid.fraction_digits (exponentTail_stops stop)
    simp [fractionText, empty, Script.fractionPart, run.1, run.2]

/-- A text made of valid parts is one ECMAScript decimal literal, which spells the parts'
decimal. -/
theorem decimalLiteral?_text (valid : p.Valid) : Script.decimalLiteral? p.text = some p.decimal := by
  have run := takeWhile_digits_append valid.whole_digits (tail_stops (stops_nil p))
  have fraction := fractionPart_text valid (stops_nil p)
  have exponent := exponentPart?_getD valid (stops_nil p)
  simp only [List.append_nil] at run fraction exponent
  have nonempty : p.whole.isEmpty = false := List.isEmpty_eq_false_iff.mpr valid.whole_nonempty
  have noLeadingZero : ¬(p.whole.head? = some '0' ∧ 1 < p.whole.length) := fun ⟨zero, long⟩ => by
    have := valid.single_zero zero
    omega
  simp only [Script.decimalLiteral?, text, List.append_assoc, run.1, run.2, fraction, exponent,
    nonempty, Bool.false_eq_true, false_and, if_false, noLeadingZero, if_true]
  rfl

/-- A text made of valid parts, before what stops it and no letter of a name, is one numeric
literal of the script, read as the double nearest to the parts' decimal. -/
theorem numericLiteral_text (valid : p.Valid) (stop : p.Stops ys)
    (notName : ∀ c ∈ ys.head?, Script.isIdentifierStart c = false) :
    Script.numericLiteral (p.text ++ ys) =
      .ok (Binary64.ofScientific false p.decimal.digits p.decimal.exponent, ys) := by
  have run := takeWhile_digits_append valid.whole_digits (tail_stops stop)
  have nonempty : p.whole.isEmpty = false := List.isEmpty_eq_false_iff.mpr valid.whole_nonempty
  have noLeadingZero : ¬(p.whole.head? = some '0' ∧ 1 < p.whole.length) := fun ⟨zero, long⟩ => by
    have := valid.single_zero zero
    omega
  have ends : ys.head?.any (fun c => Script.isIdentifierStart c || c.isDigit) = false := by
    cases ys with
    | nil => rfl
    | cons c more => simp [notName c rfl, (stop c rfl).1]
  simp only [Script.numericLiteral, text, List.append_assoc, run.1, run.2,
    fractionPart_text valid stop, exponentPart?_getD valid stop, nonempty, Bool.false_eq_true,
    false_and, if_false, noLeadingZero, ends]
  rfl

/-- Only an exponent puts an `e` in the text of valid parts. -/
theorem exponent_ne_none (valid : p.Valid) (member : 'e' ∈ p.text) : p.exponent ≠ none := by
  intro none
  simp only [text, none, exponentText, List.append_nil, List.mem_append] at member
  rcases member with inWhole | inFraction
  · exact absurd (valid.whole_digits 'e' inWhole) (by decide)
  · by_cases empty : p.fraction = []
    · simp [fractionText, empty] at inFraction
    · simp only [fractionText, empty, if_false, List.mem_cons] at inFraction
      rcases inFraction with isPoint | digit
      · exact absurd isPoint (by decide)
      · exact absurd (valid.fraction_digits 'e' digit) (by decide)

/-- A text made of valid parts, after an optional minus sign, is one script numeral. -/
theorem numeral?_text (valid : p.Valid) (negative : Bool) :
    Script.numeral? ((if negative then ['-'] else []) ++ p.text) =
      some (.decimal negative p.decimal) := by
  obtain ⟨first, more, starts⟩ := List.exists_cons_of_ne_nil valid.whole_nonempty
  have firstDigit : first.isDigit := valid.whole_digits first (by simp [starts])
  have textStart : p.text = first :: (more ++ fractionText p.fraction ++ exponentText p.exponent) := by
    simp [text, starts]
  -- a digit comes first, where `Infinity` has a letter and a sign has `-`
  have notInfinity : p.text ≠ "Infinity".toList := fun same => by
    have heads := congrArg List.head? same
    rw [textStart] at heads
    rw [show first = 'I' by simpa using heads] at firstDigit
    exact absurd firstDigit (by decide)
  have notMinus : first ≠ '-' := by
    rintro rfl
    exact absurd firstDigit (by decide)
  have unsigned : Script.unsignedNumeral? negative p.text = some (.decimal negative p.decimal) := by
    simp only [Script.unsignedNumeral?, if_neg notInfinity, decimalLiteral?_text valid,
      Option.map_some]
  cases negative
  · rw [if_neg Bool.false_ne_true, List.nil_append,
      Script.numeral?_unsigned (by simpa [textStart] using notMinus), unsigned]
  · exact unsigned

end NumeralParts

namespace Binary64

section Digits

variable {digits rest : List Char}

theorem digitValue_append (digits rest : List Char) :
    digitValue (digits ++ rest) = digitValue digits * 10 ^ rest.length + digitValue rest := by
  change Nat.ofDigitChars 10 (digits ++ rest) 0 = Nat.ofDigitChars 10 digits 0 * 10 ^ rest.length +
    Nat.ofDigitChars 10 rest 0
  rw [Nat.ofDigitChars_append, Nat.ofDigitChars_eq_ofDigitChars_zero, Nat.mul_comm]

@[simp] theorem digitValue_toDigits (n : Nat) : digitValue (Nat.toDigits 10 n) = n :=
  Nat.ofDigitChars_ten_toDigits

@[simp] theorem digitValue_zeros (count : Nat) : digitValue (NumberFormat.zeros count) = 0 := by
  change Nat.ofDigitChars 10 (List.replicate count '0') 0 = 0
  simp

theorem digitValue_zero_cons (digits : List Char) : digitValue ('0' :: digits) = digitValue digits := by
  have zero : digitValue ['0'] = 0 := rfl
  simpa [zero] using digitValue_append ['0'] digits

/-- The decimal digits of a positive number do not start with `0`. -/
theorem toDigits_head_ne_zero {n : Nat} (positive : 0 < n) : (Nat.toDigits 10 n).head? ≠ some '0' := by
  induction n using Nat.strong_induction_on with
  | _ n ih =>
    rw [Nat.toDigits_eq_if (by decide)]
    split
    · rename_i small
      have digitChar_ne : ∀ k, k < 10 → 0 < k → Nat.digitChar k ≠ '0' := by decide
      simpa using digitChar_ne n small positive
    · rename_i large
      have := ih (n / 10) (by omega) (by omega)
      rwa [List.head?_append_of_ne_nil _ Nat.toDigits_ne_nil]

end Digits

section Reading

variable {digits rest : List Char}

/-- A run of digits followed by neither a digit nor an underscore reads as that run. -/
theorem runTail_append (all : ∀ c ∈ digits, c.isDigit)
    (stops : ∀ c ∈ rest.head?, c.isDigit = false ∧ c ≠ '_') :
    runTail (digits ++ rest) = (digits, rest) := by
  induction digits with
  | nil =>
    cases rest with
    | nil => rfl
    | cons c more =>
      obtain ⟨notDigit, notUnderscore⟩ := stops c rfl
      rw [List.nil_append, runTail.eq_2 c more (by simp [notUnderscore]), if_neg (by simp [notDigit])]
  | cons d ds ih =>
    have isDigit := all d List.mem_cons_self
    have notUnderscore : d ≠ '_' := by
      rintro rfl
      simp at isDigit
    rw [List.cons_append, runTail.eq_2 d (ds ++ rest) (by simp [notUnderscore]), if_pos isDigit,
      ih fun c mem => all c (List.mem_cons_of_mem d mem)]

theorem digitRun_append (nonempty : digits ≠ []) (all : ∀ c ∈ digits, c.isDigit)
    (stops : ∀ c ∈ rest.head?, c.isDigit = false ∧ c ≠ '_') :
    digitRun (digits ++ rest) = some (digits, rest) := by
  obtain ⟨d, ds, rfl⟩ := List.exists_cons_of_ne_nil nonempty
  have later := runTail_append (fun c mem => all c (List.mem_cons_of_mem d mem)) stops
  simp [digitRun, all d List.mem_cons_self, later]

theorem stripSpaces_of_forall {chars : List Char} (noSpace : ∀ c ∈ chars, isAsciiSpace c = false) :
    stripSpaces chars = chars := by
  have kept : ∀ {xs : List Char}, (∀ c ∈ xs, isAsciiSpace c = false) → xs.dropWhile isAsciiSpace = xs :=
    fun {xs} none => List.dropWhile_eq_self_iff.mpr fun _ => by
      simp [none _ (List.getElem_mem _)]
  rw [stripSpaces, kept noSpace, kept fun c mem => noSpace c (List.mem_reverse.mp mem),
    List.reverse_reverse]

theorem spellsIgnoringCase_of_digit {c : Char} (isDigit : c.isDigit) (word : String)
    (letter : (word.toList.head?.all fun w => !w.isDigit) = true) :
    spellsIgnoringCase (c :: rest) word = false := by
  simp only [spellsIgnoringCase, List.map_cons, toLower_of_isDigit isDigit, beq_eq_false_iff_ne]
  intro same
  rw [← same] at letter
  simp [isDigit] at letter

end Reading

end Binary64

namespace NumeralParts

variable {p : NumeralParts}

/-- The digits of a natural number are valid parts, without fraction or exponent. -/
theorem valid_toDigits (n : Nat) : (⟨Nat.toDigits 10 n, [], none⟩ : NumeralParts).Valid := by
  refine ⟨fun _ member => Nat.isDigit_of_mem_toDigits (by decide) (by decide) member,
    Nat.toDigits_ne_nil, fun zeroFirst => ?_, by simp, by simp⟩
  -- only zero is written with a leading `0`, as that one digit
  rcases Nat.eq_zero_or_pos n with zero | positive
  · simp [zero]
  · exact absurd zeroFirst (Binary64.toDigits_head_ne_zero positive)

theorem mem_text {c : Char} (valid : p.Valid) (member : c ∈ p.text) :
    c.isDigit ∨ c = '.' ∨ c = 'e' ∨ c = '+' ∨ c = '-' := by
  simp only [text, fractionText, List.mem_append] at member
  rcases member with (inWhole | inFraction) | inExponent
  · exact .inl (valid.whole_digits c inWhole)
  · split at inFraction
    · simp at inFraction
    · rcases List.mem_cons.mp inFraction with rfl | digit
      · simp
      · exact .inl (valid.fraction_digits c digit)
  · unfold exponentText at inExponent
    split at inExponent
    · simp at inExponent
    · rename_i negative ds exponent
      have all := (valid.exponent_digits (negative, ds) (by simp [exponent])).2
      simp only [List.mem_cons] at inExponent
      rcases inExponent with rfl | sign | digit
      · simp
      · cases negative <;> simp_all
      · exact .inl (all c digit)

theorem numeralParts_text (valid : p.Valid) :
    Binary64.numeralParts p.text = some (p.whole, p.fraction, exponentText p.exponent) := by
  have stopsExponent : ∀ c ∈ (exponentText p.exponent).head?, c.isDigit = false ∧ c ≠ '_' :=
    fun c first => by
      rw [exponentText_head p.exponent c first]
      decide
  unfold text fractionText
  split
  · rename_i empty
    simp only [List.append_nil, Binary64.numeralParts,
      Binary64.digitRun_append valid.whole_nonempty valid.whole_digits stopsExponent, empty]
    cases exponent : p.exponent <;> simp [exponentText]
  · rename_i filled
    have stopsPoint : ∀ c ∈ ('.' :: (p.fraction ++ exponentText p.exponent)).head?,
        c.isDigit = false ∧ c ≠ '_' := by
      simp only [List.head?_cons, Option.mem_def, Option.some.injEq, forall_eq']
      decide
    simp only [List.append_assoc, List.cons_append, Binary64.numeralParts,
      Binary64.digitRun_append valid.whole_nonempty valid.whole_digits stopsPoint,
      Binary64.digitRun_append filled valid.fraction_digits stopsExponent]

theorem exponentPart_exponentText (valid : p.Valid) :
    Binary64.exponentPart (exponentText p.exponent) = some p.exponentValue := by
  unfold exponentValue
  cases exponent : p.exponent with
  | none => rfl
  | some e =>
    obtain ⟨negative, digits⟩ := e
    obtain ⟨nonempty, all⟩ := valid.exponent_digits (negative, digits) (by simp [exponent])
    have run : Binary64.digitRun digits = some (digits, []) := by
      simpa using Binary64.digitRun_append nonempty all
        (by simp : ∀ c ∈ ([] : List Char).head?, c.isDigit = false ∧ c ≠ '_')
    cases negative <;> simp [exponentText, Binary64.exponentPart, Binary64.splitSign, run]

/-- A text made of valid parts, after an optional minus sign, reads with `Binary64.ofText?`
as the double nearest to the parts' decimal. -/
theorem ofText?_text (valid : p.Valid) (negative : Bool) :
    Binary64.ofText? (String.ofList ((if negative then ['-'] else []) ++ p.text)) =
      some (Binary64.ofScientific negative p.decimal.digits p.decimal.exponent) := by
  obtain ⟨first, more, starts⟩ := List.exists_cons_of_ne_nil valid.whole_nonempty
  have firstDigit : first.isDigit := valid.whole_digits first (by simp [starts])
  have textStart : p.text = first :: (more ++ fractionText p.fraction ++ exponentText p.exponent) := by
    simp [text, starts]
  have small : ∀ c ∈ (if negative then ['-'] else []) ++ p.text, c.toNat < 128 ∧
      Binary64.isAsciiSpace c = false := by
    intro c member
    have kinds : c.isDigit ∨ c = '.' ∨ c = 'e' ∨ c = '+' ∨ c = '-' := by
      rcases List.mem_append.mp member with sign | inText
      · split at sign <;> simp_all
      · exact mem_text valid inText
    rcases kinds with digit | rfl | rfl | rfl | rfl
    · exact ⟨by have := Binary64.toNat_le_of_isDigit digit; omega,
        Binary64.isAsciiSpace_of_isDigit digit⟩
    all_goals decide
  have ascii : Binary64.asciiForm ((if negative then ['-'] else []) ++ p.text) =
      some ((if negative then ['-'] else []) ++ p.text) := by
    simp only [Binary64.asciiForm, List.all_eq_true, decide_eq_true_eq]
    rw [if_pos fun c member => (small c member).1]
  have stripped := Binary64.stripSpaces_of_forall fun c member => (small c member).2
  have signed : Binary64.splitSign ((if negative then ['-'] else []) ++ p.text) = (negative, p.text) := by
    have notSign : first ≠ '-' ∧ first ≠ '+' := by
      have := Binary64.toNat_le_of_isDigit firstDigit
      constructor <;> rintro rfl <;> simp at this
    cases negative <;> simp [Binary64.splitSign, textStart, notSign.1, notSign.2]
  have letters : ∀ word : String, (word.toList.head?.all fun w => !w.isDigit) = true →
      Binary64.spellsIgnoringCase p.text word = false := fun word letter => by
    rw [textStart]
    exact Binary64.spellsIgnoringCase_of_digit firstDigit word letter
  simp only [Binary64.ofText?, String.toList_ofList, ascii, stripped, signed, Option.bind_eq_bind,
    Option.bind_some, letters "inf" rfl, letters "infinity" rfl,
    letters "nan" rfl, Bool.or_false, numeralParts_text valid,
    exponentPart_exponentText valid, Option.map_some]
  rfl

end NumeralParts

namespace NumberFormat

variable {d : Decimal}

@[simp] theorem length_zeros (count : Nat) : (zeros count).length = count :=
  List.length_replicate

theorem zeros_digits (count : Nat) : ∀ c ∈ zeros count, c.isDigit := fun c member => by
  rw [List.eq_of_mem_replicate (show c ∈ List.replicate count '0' from member)]
  rfl

theorem digitList_digits (d : Decimal) : ∀ c ∈ d.digitList, c.isDigit :=
  fun _ member => Nat.isDigit_of_mem_toDigits (by decide) (by decide) member

theorem digitList_ne_nil (d : Decimal) : d.digitList ≠ [] := Nat.toDigits_ne_nil

theorem digitList_head?_ne_zero (positive : 0 < d.digits) : d.digitList.head? ≠ some '0' :=
  Binary64.toDigits_head_ne_zero positive

theorem digitValue_digitList (d : Decimal) : Binary64.digitValue d.digitList = d.digits :=
  Binary64.digitValue_toDigits _

/-- The digits split after the first `k`, for positive `k`, are valid parts. -/
theorem valid_take_drop (positive : 0 < d.digits) {k : Nat} (split : 0 < k)
    {exponent : Option (Bool × List Char)}
    (exponentDigits : ∀ e ∈ exponent, e.2 ≠ [] ∧ ∀ c ∈ e.2, c.isDigit) :
    (⟨d.digitList.take k, d.digitList.drop k, exponent⟩ : NumeralParts).Valid := by
  refine ⟨fun c member => digitList_digits d c (List.mem_of_mem_take member), ?_, ?_,
    fun c member => digitList_digits d c (List.mem_of_mem_drop member), exponentDigits⟩
  · simp [digitList_ne_nil, Nat.pos_iff_ne_zero.mp split]
  · rw [List.head?_take, if_neg (by omega)]
    exact fun zero => absurd zero (digitList_head?_ne_zero positive)

/-- An integer written positionally: its digits, the zeros of its exponent and possibly `.0`. -/
theorem decimalText_parts_integer (format : NumberFormat) (positive : 0 < d.digits)
    (positional : format.positionalFrom ≤ d.leadingExponent ∧
      d.leadingExponent < format.positionalUntil) (integral : 0 ≤ d.exponent) :
    ∃ p : NumeralParts, p.Valid ∧ format.decimalText d = p.text ∧
      ∃ j : Nat, p.decimal = ⟨d.digits * 10 ^ j, d.exponent - j⟩ := by
  unfold decimalText
  dsimp only
  rw [if_pos positional, if_pos integral]
  have wholeDigits : ∀ c ∈ d.digitList ++ zeros d.exponent.toNat, c.isDigit :=
    List.forall_mem_append.mpr ⟨digitList_digits d, zeros_digits _⟩
  have wholeFilled : d.digitList ++ zeros d.exponent.toNat ≠ [] := by simp [digitList_ne_nil]
  have wholeStart : (d.digitList ++ zeros d.exponent.toNat).head? = some '0' →
      (d.digitList ++ zeros d.exponent.toNat).length = 1 := by
    rw [List.head?_append_of_ne_nil _ (digitList_ne_nil d)]
    exact fun zero => absurd zero (digitList_head?_ne_zero positive)
  have value : Binary64.digitValue (d.digitList ++ zeros d.exponent.toNat) =
      d.digits * 10 ^ d.exponent.toNat := by
    simp [Binary64.digitValue_append, digitValue_digitList]
  cases point : format.pointZero with
  | false =>
    refine ⟨⟨d.digitList ++ zeros d.exponent.toNat, [], none⟩,
      ⟨wholeDigits, wholeFilled, wholeStart, by simp, by simp⟩, ?_, d.exponent.toNat, ?_⟩
    · simp [NumeralParts.text, NumeralParts.fractionText, NumeralParts.exponentText]
    · simp only [NumeralParts.decimal, NumeralParts.exponentValue, List.append_nil, value,
        List.length_nil, Nat.cast_zero, sub_zero, Decimal.mk.injEq, true_and]
      omega
  | true =>
    -- `.0` adds a zero digit and takes one from the exponent
    refine ⟨⟨d.digitList ++ zeros d.exponent.toNat, ['0'], none⟩,
      ⟨wholeDigits, wholeFilled, wholeStart, ?_, by simp⟩, ?_, d.exponent.toNat + 1, ?_⟩
    · intro c member
      rw [List.mem_singleton.mp member]
      rfl
    · simp [NumeralParts.text, NumeralParts.fractionText, NumeralParts.exponentText]
    · have zero : Binary64.digitValue ['0'] = 0 := rfl
      simp only [NumeralParts.decimal, NumeralParts.exponentValue, Binary64.digitValue_append,
        value, zero, List.length_singleton, Nat.add_zero, Nat.pow_succ,
        Nat.mul_assoc, Decimal.mk.injEq, true_and]
      omega

/-- A decimal with a fraction and a digit before the point, written positionally: the point
stands inside its digits. -/
theorem decimalText_parts_point (format : NumberFormat) (positive : 0 < d.digits)
    (positional : format.positionalFrom ≤ d.leadingExponent ∧
      d.leadingExponent < format.positionalUntil) (fractional : ¬0 ≤ d.exponent)
    (above : 0 ≤ d.leadingExponent) :
    ∃ p : NumeralParts, p.Valid ∧ format.decimalText d = p.text ∧
      ∃ j : Nat, p.decimal = ⟨d.digits * 10 ^ j, d.exponent - j⟩ := by
  unfold decimalText
  dsimp only
  rw [if_pos positional, if_neg fractional, if_pos above]
  have lead : d.leadingExponent = d.exponent + d.digitList.length - 1 := rfl
  have dropped : (d.digitList.drop (d.leadingExponent.toNat + 1)).length =
      (-d.exponent).toNat := by
    simp only [List.length_drop]
    omega
  have after : d.digitList.drop (d.leadingExponent.toNat + 1) ≠ [] := by
    rw [← List.length_pos_iff, dropped]
    omega
  refine ⟨⟨d.digitList.take (d.leadingExponent.toNat + 1),
    d.digitList.drop (d.leadingExponent.toNat + 1), none⟩,
    valid_take_drop positive (Nat.succ_pos _) (by simp), ?_, 0, ?_⟩
  · simp [NumeralParts.text, NumeralParts.fractionText, NumeralParts.exponentText, after]
  · simp only [NumeralParts.decimal, NumeralParts.exponentValue, List.take_append_drop,
      digitValue_digitList, dropped, Nat.pow_zero, Nat.mul_one, Nat.cast_zero, sub_zero]
    congr 1
    omega

/-- A decimal below one, written positionally: `0.`, zeros, then its digits. -/
theorem decimalText_parts_small (format : NumberFormat)
    (positional : format.positionalFrom ≤ d.leadingExponent ∧
      d.leadingExponent < format.positionalUntil) (fractional : ¬0 ≤ d.exponent)
    (below : ¬0 ≤ d.leadingExponent) :
    ∃ p : NumeralParts, p.Valid ∧ format.decimalText d = p.text ∧
      ∃ j : Nat, p.decimal = ⟨d.digits * 10 ^ j, d.exponent - j⟩ := by
  unfold decimalText
  dsimp only
  rw [if_pos positional, if_neg fractional, if_neg below]
  have lead : d.leadingExponent = d.exponent + d.digitList.length - 1 := rfl
  have length := List.length_pos_iff.mpr (digitList_ne_nil d)
  refine ⟨⟨['0'], zeros (-d.leadingExponent - 1).toNat ++ d.digitList, none⟩,
    ⟨by simp, by simp, by simp, List.forall_mem_append.mpr ⟨zeros_digits _, digitList_digits d⟩,
      by simp⟩, ?_, 0, ?_⟩
  · simp [NumeralParts.text, NumeralParts.fractionText, NumeralParts.exponentText,
      digitList_ne_nil]
  · simp only [NumeralParts.decimal, NumeralParts.exponentValue, List.singleton_append,
      Binary64.digitValue_zero_cons, Binary64.digitValue_append, Binary64.digitValue_zeros,
      digitValue_digitList, List.length_append, length_zeros, Nat.pow_zero, Nat.mul_one,
      Nat.zero_mul, Nat.zero_add, Nat.cast_zero, sub_zero]
    congr 1
    omega

/-- A decimal outside the positional range: the first digit, the others after a point, then
the exponent, padded with zeros to the format's width. -/
theorem decimalText_parts_scientific (format : NumberFormat) (positive : 0 < d.digits)
    (positional : ¬(format.positionalFrom ≤ d.leadingExponent ∧
      d.leadingExponent < format.positionalUntil)) :
    ∃ p : NumeralParts, p.Valid ∧ format.decimalText d = p.text ∧
      ∃ j : Nat, p.decimal = ⟨d.digits * 10 ^ j, d.exponent - j⟩ := by
  unfold decimalText
  dsimp only
  rw [if_neg positional]
  have lead : d.leadingExponent = d.exponent + d.digitList.length - 1 := rfl
  have length := List.length_pos_iff.mpr (digitList_ne_nil d)
  have drop : (d.digitList.drop 1).length = d.digitList.length - 1 := List.length_drop
  have exponentDigits : ∀ c ∈ zeros (format.exponentWidth -
      (Nat.toDigits 10 d.leadingExponent.natAbs).length) ++
        Nat.toDigits 10 d.leadingExponent.natAbs, c.isDigit :=
    List.forall_mem_append.mpr
      ⟨zeros_digits _, fun c member => Nat.isDigit_of_mem_toDigits (by decide) (by decide) member⟩
  refine ⟨⟨d.digitList.take 1, d.digitList.drop 1,
    some (decide (d.leadingExponent < 0),
      zeros (format.exponentWidth - (Nat.toDigits 10 d.leadingExponent.natAbs).length) ++
        Nat.toDigits 10 d.leadingExponent.natAbs)⟩,
    valid_take_drop positive Nat.one_pos (by simpa using exponentDigits), ?_, 0, ?_⟩
  · -- the point is written exactly when there are digits after the first
    simp only [NumeralParts.text, NumeralParts.exponentText, List.append_assoc, List.drop_one,
      List.append_cancel_left_eq, decide_eq_true_eq]
    unfold NumeralParts.fractionText
    split <;> simp_all
  · simp only [NumeralParts.decimal, NumeralParts.exponentValue, List.take_append_drop,
      digitValue_digitList, Binary64.digitValue_append, Binary64.digitValue_zeros,
      Binary64.digitValue_toDigits, Nat.zero_mul, Nat.zero_add, drop, Nat.pow_zero, Nat.mul_one,
      Nat.cast_zero, sub_zero, decide_eq_true_eq]
    congr 1
    split <;> omega

/-- Every way of writing a decimal writes it in valid parts, which spell the decimal up to
zeros that the digits gain and the exponent loses. -/
theorem decimalText_parts (format : NumberFormat) (positive : 0 < d.digits) :
    ∃ p : NumeralParts, p.Valid ∧ format.decimalText d = p.text ∧
      ∃ j : Nat, p.decimal = ⟨d.digits * 10 ^ j, d.exponent - j⟩ := by
  by_cases positional : format.positionalFrom ≤ d.leadingExponent ∧
      d.leadingExponent < format.positionalUntil
  · by_cases integral : 0 ≤ d.exponent
    · exact decimalText_parts_integer format positive positional integral
    by_cases above : 0 ≤ d.leadingExponent
    · exact decimalText_parts_point format positive positional integral above
    · exact decimalText_parts_small format positional integral above
  · exact decimalText_parts_scientific format positive positional

variable (format : NumberFormat) (positive : 0 < d.digits) (negative : Bool)
include positive

/-- A decimal with positive digits, written in any format after an optional minus sign, is a
script numeral of the same value that stands for the same double. -/
theorem numeral?_decimalText :
    ∃ literal : Decimal,
      Script.numeral? ((if negative then ['-'] else []) ++ format.decimalText d) =
        some (.decimal negative literal) ∧ literal.value = d.value ∧
      Binary64.ofScientific negative literal.digits literal.exponent =
        Binary64.ofScientific negative d.digits d.exponent := by
  obtain ⟨p, valid, written, j, spelled⟩ := decimalText_parts format positive
  refine ⟨p.decimal, by rw [written, p.numeral?_text valid], ?_, ?_⟩
  · rw [spelled, Decimal.value_shift]
  · rw [spelled, Binary64.ofScientific_mul_pow]

/-- A decimal with positive digits, written in any format after an optional minus sign, reads
back with `Binary64.ofText?` as the double nearest to it. -/
theorem ofText?_decimalText :
    Binary64.ofText? (String.ofList ((if negative then ['-'] else []) ++ format.decimalText d)) =
      some (Binary64.ofScientific negative d.digits d.exponent) := by
  obtain ⟨p, valid, written, j, spelled⟩ := decimalText_parts format positive
  rw [written, p.ofText?_text valid, spelled, Binary64.ofScientific_mul_pow]

end NumberFormat

end VieCompiler
