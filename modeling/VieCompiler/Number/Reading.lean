import VieCompiler.Number.Binary64
import VieCompiler.Text.Blank
import VieCompiler.Text.Digits

/-!
# Reading numbers from text

`Binary64.ofText?` reads the decimal text of a double: ASCII spaces around it, an optional
sign, then `inf`, `infinity` or `nan` in any case, or a decimal numeral with an optional
exponent. A numeral has digits before or after a point, or both; an underscore may stand
between two digits. The exponent is `e` or `E`, an optional sign and digits. The value is the
double nearest to the numeral.

A text with a character beyond ASCII is read in its ASCII form: such a character counts as a
space when it is blank and as its digit when it is a decimal digit of some script, and no
other one can be read. A text of ASCII characters only is read as it is, so that the
information separators U+001C to U+001F, which are blank, are not spaces in it.
-/

namespace VieCompiler

namespace Binary64

/-- The digits that continue a run after a digit, each possibly after one underscore,
and the rest of the text. -/
def runTail : List Char → List Char × List Char
  | '_' :: d :: after =>
    if d.isDigit then (d :: (runTail after).1, (runTail after).2) else ([], '_' :: d :: after)
  | d :: after => if d.isDigit then (d :: (runTail after).1, (runTail after).2) else ([], d :: after)
  | [] => ([], [])

/-- A run of digits in which an underscore may separate two digits: the digits without the
underscores and the rest of the text; `none` unless the text starts with a digit. -/
def digitRun : List Char → Option (List Char × List Char)
  | c :: rest => if c.isDigit then some (c :: (runTail rest).1, (runTail rest).2) else none
  | [] => none

/-- The sign at the head of the text, if any, and the text after it. -/
def splitSign : List Char → Bool × List Char
  | '-' :: rest => (true, rest)
  | '+' :: rest => (false, rest)
  | rest => (false, rest)

/-- The exponent of a numeral: `e` or `E`, an optional sign and digits, ending the text. -/
def exponentPart : List Char → Option Int
  | [] => some 0
  | c :: rest =>
    if c = 'e' ∨ c = 'E' then
      let (negative, unsigned) := splitSign rest
      match digitRun unsigned with
      | some (digits, []) =>
        let value : Int := digitValue digits
        some (if negative then -value else value)
      | _ => none
    else none

/-- The integer part, fraction digits and the rest of a numeral. -/
def numeralParts (chars : List Char) : Option (List Char × List Char × List Char) :=
  match digitRun chars with
  | some (whole, '.' :: afterPoint) =>
    match digitRun afterPoint with
    | some (fraction, rest) => some (whole, fraction, rest)
    | none => some (whole, [], afterPoint)
  | some (whole, rest) => some (whole, [], rest)
  | none =>
    match chars with
    | '.' :: afterPoint =>
      match digitRun afterPoint with
      | some (fraction, rest) => some ([], fraction, rest)
      | none => none
    | _ => none

/-- The ASCII form of a text, `none` when it has a character that has none. -/
def asciiForm (chars : List Char) : Option (List Char) :=
  if chars.all (·.toNat < 128) then some chars
  else chars.mapM fun c =>
    if c.toNat < 127 then some c
    else if Text.isBlank c then some ' '
    else (Text.decimalValue? c).map fun d => Char.ofNat (48 + d)

/-- Whether `c` is one of the six ASCII spaces allowed around a number. -/
def isAsciiSpace (c : Char) : Bool :=
  c = ' ' || c = '\t' || c = '\n' || c = '\x0b' || c = '\x0c' || c = '\r'

/-- The characters without their leading and trailing ASCII spaces. -/
def stripSpaces (chars : List Char) : List Char :=
  ((chars.dropWhile isAsciiSpace).reverse.dropWhile isAsciiSpace).reverse

/-- Whether the text spells `word`, ignoring the case of ASCII letters. -/
def spellsIgnoringCase (chars : List Char) (word : String) : Bool :=
  chars.map Char.toLower == word.toList

/-- The double that the text denotes, or `none` when it is no number. -/
def ofText? (text : String) : Option Binary64 := do
  let chars ← asciiForm text.toList
  let (negative, body) := splitSign (stripSpaces chars)
  bif spellsIgnoringCase body "inf" || spellsIgnoringCase body "infinity" then
    some (infinite negative)
  else bif spellsIgnoringCase body "nan" then some nan
  else
    match numeralParts body with
    | none => none
    | some (whole, fraction, rest) =>
      (exponentPart rest).map fun exponent =>
        ofScientific negative (digitValue (whole ++ fraction)) (exponent - fraction.length)

example : ofText? "2.5" = some (ofScientific false 25 (-1)) ∧ ofText? " -1_0e+1 " = some (ofScientific true 10 1) := by
  decide +kernel

example : ofText? "1." = some (ofNat 1) ∧ ofText? ".5" = some (ofScientific false 5 (-1)) ∧ ofText? "1_" = none ∧ ofText? "e5" = none := by
  decide +kernel

example : ofText? "-Infinity" = some (infinite true) ∧ ofText? "NaN" = some nan := by
  decide +kernel

example : ofText? "١٢" = some (ofNat 12) ∧ ofText? "\x1c1" = none ∧ ofText? "\x85 1\u2028" = some (ofNat 1) := by
  decide +kernel

end Binary64

end VieCompiler
