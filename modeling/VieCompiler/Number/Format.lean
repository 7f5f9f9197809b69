import VieCompiler.Number.Shortest

/-!
# Writing numbers

A `NumberFormat` collects the decisions of one way of writing doubles: which integers are
written in full, which decimal exponents are written positionally, whether a positional
integer keeps a `.0`, how wide a written exponent is at least, and the texts of the
non-finite values. Everything else is shared: the digits are the shortest decimal that reads
back, a negative value gets a leading `-`, and an exponent is written `e`, its sign, then its
digits.
-/

namespace VieCompiler

-- Powers of naturals are `Nat.pow`, as in `Binary64`.
attribute [local instance (high)] instPowNat

/-- The decisions of one way of writing doubles. -/
structure NumberFormat where
  /-- Integral values of magnitude below `10^k` are written in full, when this is `some k`. -/
  integerBelow : Option Nat
  /-- The least leading exponent written positionally. -/
  positionalFrom : Int
  /-- The leading exponents from here on are written with an exponent. -/
  positionalUntil : Int
  /-- Whether a positionally written integral value ends in `.0`. -/
  pointZero : Bool
  /-- The least number of digits of a written exponent. -/
  exponentWidth : Nat
  /-- The text of a value that is not a number. -/
  nanText : String
  /-- The text of positive infinity. -/
  infinityText : String

namespace NumberFormat

/-- A run of `count` zeros. -/
def zeros (count : Nat) : List Char :=
  List.replicate count '0'

/-- The text of a decimal in this format, without a sign. -/
def decimalText (format : NumberFormat) (d : Decimal) : List Char :=
  let digits := d.digitList
  let lead := d.leadingExponent
  if format.positionalFrom ≤ lead ∧ lead < format.positionalUntil then
    if 0 ≤ d.exponent then
      digits ++ zeros d.exponent.toNat ++ (if format.pointZero then ['.', '0'] else [])
    else if 0 ≤ lead then
      digits.take (lead.toNat + 1) ++ '.' :: digits.drop (lead.toNat + 1)
    else '0' :: '.' :: zeros (-lead - 1).toNat ++ digits
  else
    let exponentDigits := Nat.toDigits 10 lead.natAbs
    let fractionPart := match digits.drop 1 with
      | [] => []
      | rest => '.' :: rest
    digits.take 1 ++ fractionPart ++ 'e' :: (if lead < 0 then '-' else '+') ::
      zeros (format.exponentWidth - exponentDigits.length) ++ exponentDigits

/-- The integer to write in full for `x`, if this format writes it so. -/
def fullInteger? (format : NumberFormat) (x : Binary64) : Option Int :=
  match format.integerBelow, x.toInt? with
  | some k, some n => if n.natAbs < 10 ^ k then some n else none
  | _, _ => none

/-- The text of a double in this format. -/
def render (format : NumberFormat) (x : Binary64) : String :=
  match x with
  | .nan => format.nanText
  | .infinite negative => (if negative then "-" else "") ++ format.infinityText
  | .finite negative biased fraction =>
    match format.fullInteger? x with
    | some n => toString n
    | none =>
      String.ofList ((if negative then ['-'] else []) ++
        format.decimalText (Binary64.shortestOf biased fraction))

end NumberFormat

end VieCompiler
