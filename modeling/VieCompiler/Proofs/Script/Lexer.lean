import VieCompiler.Syntax.Lexer
import VieCompiler.Number.Binary64
import Mathlib

/-!
# The lexical grammar of ECMAScript

Generated code is ECMAScript, read as a script. This file gives the part of the lexical
grammar of the language that such code can use, as a function from characters to tokens:
white space and line terminators, both kinds of comment, identifier names, every
punctuator, decimal numeric literals and string literals with their escape sequences.

Each token records whether a line terminator stands between it and the token before, which
is what the rules of automatic semicolon insertion look at. A numeric literal is read as the
double it denotes, a string literal as its string value.

What the model does not cover makes the lexer fail rather than read something else: regular
expression and template literals, numeric literals in other bases or with separators, escapes
in identifier names, identifier characters beyond ASCII letters, `$`, `_` and the
lowercase Vietnamese letters of the Vie lexer (all of which are `ID_Start` in Unicode), and
the HTML-like comments `<!--` and `-->` of scripts. So
whenever the lexer succeeds, an ECMAScript lexer reads the same tokens. In particular the
rule that no identifier start or digit may directly follow a numeric literal is kept, so
`5.x` is no sequence of tokens: `5.` is a numeric literal and `x` may not follow it.
-/

namespace VieCompiler.Script

/-- Whether `c` is a line terminator: line feed, carriage return, line or paragraph
separator. -/
def isLineTerminator (c : Char) : Bool :=
  c = '\n' || c = '\r' || c = '\u2028' || c = '\u2029'

/-- Whether `c` is white space: tab, vertical tab, form feed, the byte order mark, or a space
separator (general category Zs). -/
def isWhiteSpace (c : Char) : Bool :=
  c = '\t' || c = '\x0b' || c = '\x0c' || c = '\uFEFF' || c = ' ' || c = '\xa0' ||
    c = '\u1680' || (0x2000 ≤ c.toNat && c.toNat ≤ 0x200a) || c = '\u202f' ||
    c = '\u205f' || c = '\u3000'

/-- Whether `c` may start an identifier name in this model. -/
def isIdentifierStart (c : Char) : Bool :=
  c.isAlpha || c = '$' || c = '_' || accentedLetters.contains c

/-- Whether `c` may continue an identifier name in this model. -/
def isIdentifierPart (c : Char) : Bool :=
  isIdentifierStart c || c.isDigit

/-- Outside the blocks of the accented letters, an identifier part is an ASCII letter or
digit, a dollar sign or an underscore. -/
theorem isIdentifierPart_of_outside {c : Char} (outside : c.toNat < 0xE0 ∨ 0x1EF9 < c.toNat) :
    isIdentifierPart c = (c.isAlpha || c = '$' || c = '_' || c.isDigit) := by
  simp [isIdentifierPart, isIdentifierStart, not_mem_accentedLetters outside]

/-- Whether a text is an identifier name: an identifier start, then identifier parts. -/
def isIdentifierName (text : String) : Bool :=
  match text.toList with
  | [] => false
  | c :: cs => isIdentifierStart c && cs.all isIdentifierPart

/-- The punctuators of the language, the division punctuators and the closing brace
included, longest first, so that the first one that fits is the longest. -/
def punctuators : List String :=
  [">>>=", "...", "===", "!==", "**=", "<<=", ">>=", ">>>", "&&=", "||=", "??=", "<=", ">=",
    "==", "!=", "**", "++", "--", "<<", ">>", "&&", "||", "??", "?.", "+=", "-=", "*=", "%=",
    "&=", "|=", "^=", "=>", "/=", "\x7b", "(", ")", "[", "]", ".", ";", ",", "<", ">", "+", "-",
    "*", "%", "&", "|", "^", "!", "~", "?", ":", "=", "/", "\x7d"]

/-- Whether the punctuator `p` may be read at the head of `chars`: it is a prefix, and `?.`
is not followed by a digit, where `?` and a numeric literal are read instead. -/
def punctuatorFits (chars p : List Char) : Bool :=
  p.isPrefixOf chars && !(p == ['?', '.'] && ((chars.drop 2).head?.map Char.isDigit).getD false)

/-- The longest punctuator at the head of `chars`, if any. -/
def punctuator? (chars : List Char) : Option (List Char) :=
  (punctuators.map String.toList).find? (punctuatorFits chars)

theorem punctuators_longest_first :
    (punctuators.map fun p => p.length).Pairwise (· ≥ ·) := by
  decide

/-- What a token is. -/
inductive Token.Kind where
  /-- An identifier name, reserved word or not. -/
  | name (text : String)
  /-- A punctuator. -/
  | punctuator (text : String)
  /-- A numeric literal, by the double it denotes. -/
  | number (value : Binary64)
  /-- A string literal, by its string value. -/
  | string (value : String)
deriving DecidableEq, Repr

/-- A token, and whether a line terminator comes between it and the token before. -/
structure Token where
  /-- What the token is. -/
  kind : Token.Kind
  /-- Whether a line terminator stands between the previous token and this one. -/
  afterLineBreak : Bool
deriving DecidableEq, Repr

/-- Why characters are not a sequence of tokens. -/
inductive LexError where
  /-- A string literal or a comment runs to the end of the input, or a string literal to the
  end of its line. -/
  | unterminated
  /-- An escape sequence this model does not read. -/
  | escape
  /-- A numeric literal directly followed by an identifier start or a digit, or one this
  model does not read. -/
  | numeral
  /-- A character that starts no token. -/
  | unexpected (char : Char)
  /-- `<!--`, or `-->`, which start comments in some positions of a script; this model
  reads them in none. -/
  | htmlComment
deriving DecidableEq, Repr

/-- The value of a hexadecimal digit. -/
def hexValue? (c : Char) : Option Nat :=
  if c.isDigit then some (c.toNat - '0'.toNat)
  else if 'a' ≤ c ∧ c ≤ 'f' then some (c.toNat - 'a'.toNat + 10)
  else if 'A' ≤ c ∧ c ≤ 'F' then some (c.toNat - 'A'.toNat + 10)
  else none

/-- The character with the code point spelled by hexadecimal digits; surrogates, which are no
characters, are not read. -/
def hexChar? (digits : List Char) : Option Char := do
  let value ← digits.foldlM (fun acc d => (16 * acc + ·) <$> hexValue? d) 0
  if value.isValidChar then some (Char.ofNat value) else none

/-- The character that a single escape character stands for, after a backslash. -/
def singleEscape? : Char → Option Char
  | '\'' => some '\''
  | '"' => some '"'
  | '\\' => some '\\'
  | 'b' => some '\x08'
  | 'f' => some '\x0c'
  | 'n' => some '\n'
  | 'r' => some '\r'
  | 't' => some '\t'
  | 'v' => some '\x0b'
  | _ => none

/-- The characters that an escape sequence stands for, read just after its backslash, and the
characters after it. A line continuation stands for no character; `\x` and `\u` take two and
four hexadecimal digits. -/
def escape? : List Char → Except LexError (List Char × List Char)
  | [] => .error .unterminated
  | e :: rest =>
    if e = '\r' then .ok ([], if rest.head? = some '\n' then rest.tail else rest)
    else if isLineTerminator e then .ok ([], rest)
    else if e = 'x' ∨ e = 'u' then
      let width := if e = 'x' then 2 else 4
      if rest.length < width then .error .escape
      else match hexChar? (rest.take width) with
        | some c => .ok ([c], rest.drop width)
        | none => .error .escape
    else match singleEscape? e with
      | some c => .ok ([c], rest)
      | none =>
        if e = '0' then
          if rest.head?.any Char.isDigit then .error .escape else .ok (['\x00'], rest)
        else if e.isDigit then .error .escape
        else .ok ([e], rest)

theorem escape?_shorter {chars value after : List Char}
    (h : escape? chars = .ok (value, after)) : after.length < chars.length := by
  unfold escape? at h
  split at h <;> grind

/-- The string value of a string literal from just after its opening `quote`, and the
characters after its closing quote. -/
def stringBody (quote : Char) : List Char → Except LexError (List Char × List Char)
  | [] => .error .unterminated
  | '\\' :: rest =>
    match h : escape? rest with
    | .ok (value, after) =>
      have := escape?_shorter h
      (fun (more, close) => (value ++ more, close)) <$> stringBody quote after
    | .error e => .error e
  | c :: rest =>
    if c = quote then .ok ([], rest)
    else if c = '\n' ∨ c = '\r' then .error .unterminated
    else (fun (value, after) => (c :: value, after)) <$> stringBody quote rest
termination_by chars => chars.length
decreasing_by all_goals simp only [List.length_cons]; omega

/-- The characters after the end of a multi-line comment whose opening `/*` has been read,
and whether the comment holds a line terminator; `none` when it is not closed. -/
def blockComment : List Char → Option (Bool × List Char)
  | [] => none
  | '*' :: '/' :: rest => some (false, rest)
  | c :: rest => (blockComment rest).map fun (broke, after) => (broke || isLineTerminator c, after)

/-- The sign of an exponent, whether it is negative, and the characters after it. -/
def exponentSign : List Char → Bool × List Char
  | '+' :: more => (false, more)
  | '-' :: more => (true, more)
  | more => (false, more)

/-- The exponent part of a numeric literal at the head of `chars` (`e` or `E`, an optional
sign and at least one digit), and the characters after it. -/
def exponentPart? : List Char → Option (Int × List Char)
  | e :: rest =>
    if e = 'e' ∨ e = 'E' then
      let sign := exponentSign rest
      let digits := sign.2.takeWhile Char.isDigit
      if digits.isEmpty then none
      else
        let value : Int := Binary64.digitValue digits
        some (if sign.1 then -value else value, sign.2.dropWhile Char.isDigit)
    else none
  | [] => none

/-- The fraction digits after the integer part of a numeric literal, and the characters
after them: a point and any digits, or nothing at all. -/
def fractionPart : List Char → List Char × List Char
  | '.' :: afterPoint => (afterPoint.takeWhile Char.isDigit, afterPoint.dropWhile Char.isDigit)
  | chars => ([], chars)

/-- A decimal numeric literal at the head of `chars`, which starts with a digit or a point:
the double it denotes and the characters after it. An integer part of more than one digit may
not start with `0`, and no identifier start or digit may follow. -/
def numericLiteral (chars : List Char) : Except LexError (Binary64 × List Char) :=
  let whole := chars.takeWhile Char.isDigit
  let fraction := fractionPart (chars.dropWhile Char.isDigit)
  let exponent := (exponentPart? fraction.2).getD (0, fraction.2)
  if whole.isEmpty ∧ fraction.1.isEmpty then .error .numeral
  else if whole.head? = some '0' ∧ 1 < whole.length then .error .numeral
  else if exponent.2.head?.any (fun c => isIdentifierStart c || c.isDigit) then .error .numeral
  else
    .ok (Binary64.ofScientific false (Binary64.digitValue (whole ++ fraction.1))
      (exponent.1 - fraction.1.length), exponent.2)

theorem Except.map_eq_ok_iff {ε α β : Type} {f : α → β} {x : Except ε α} {b : β} :
    f <$> x = .ok b ↔ ∃ a, x = .ok a ∧ f a = b := by
  cases x <;> simp [Functor.map, Except.map]

theorem length_dropWhile_le {α : Type} (p : α → Bool) (items : List α) :
    (items.dropWhile p).length ≤ items.length :=
  (List.dropWhile_suffix p).length_le

theorem stringBody_shorter {quote : Char} {chars : List Char} :
    ∀ {value after : List Char}, stringBody quote chars = .ok (value, after) →
      after.length < chars.length := by
  fun_induction stringBody quote chars <;> intro value after h <;>
    simp_all [Except.map_eq_ok_iff] <;> grind

theorem blockComment_shorter {chars after : List Char} {broke : Bool}
    (h : blockComment chars = some (broke, after)) : after.length + 2 ≤ chars.length := by
  fun_induction blockComment chars generalizing broke with
  | case1 => cases h
  | case2 rest =>
    -- the comment closes with the `*/` in front of `rest`
    obtain ⟨-, rfl⟩ := Prod.mk.inj (Option.some.inj h)
    simp
  | case3 c rest _ ih =>
    obtain ⟨⟨broke', after'⟩, found, same⟩ := Option.map_eq_some_iff.mp h
    obtain ⟨-, rfl⟩ := Prod.mk.inj same
    have := ih found
    simp only [List.length_cons]
    omega

theorem exponentSign_shorter (chars : List Char) :
    (exponentSign chars).2.length ≤ chars.length := by
  fun_cases exponentSign chars <;> simp

theorem exponentPart_shorter {chars after : List Char} {exponent : Int}
    (h : exponentPart? chars = some (exponent, after)) : after.length < chars.length := by
  cases chars with
  | nil => simp [exponentPart?] at h
  | cons e rest =>
    have rests : after = (exponentSign rest).2.dropWhile Char.isDigit := by
      simp only [exponentPart?] at h
      split at h <;> simp_all
    have := exponentSign_shorter rest
    have := length_dropWhile_le Char.isDigit (exponentSign rest).2
    simp only [List.length_cons, rests]
    omega

theorem fractionPart_shorter (chars : List Char) :
    (fractionPart chars).2.length ≤ chars.length := by
  fun_cases fractionPart chars with
  | case1 afterPoint =>
    have := length_dropWhile_le Char.isDigit afterPoint
    simp only [List.length_cons]
    omega
  | case2 => simp

theorem fractionPart_shorter_of_digits {chars : List Char}
    (digits : (fractionPart chars).1 ≠ []) : (fractionPart chars).2.length < chars.length := by
  cases chars with
  | nil => simp [fractionPart] at digits
  | cons c rest =>
    by_cases point : c = '.'
    · subst point
      have := length_dropWhile_le Char.isDigit rest
      simp only [fractionPart, List.length_cons]
      omega
    · simp [fractionPart, point] at digits

theorem numericLiteral_shorter {chars after : List Char} {value : Binary64}
    (h : numericLiteral chars = .ok (value, after)) : after.length < chars.length := by
  simp only [numericLiteral] at h
  split_ifs at h with nothing
  obtain ⟨-, rfl⟩ := Prod.mk.inj (Except.ok.inj h)
  have parts : (chars.takeWhile Char.isDigit).length + (chars.dropWhile Char.isDigit).length =
      chars.length := by
    rw [← List.length_append, List.takeWhile_append_dropWhile]
  have fractionBound :
      (fractionPart (chars.dropWhile Char.isDigit)).2.length < chars.length := by
    by_cases whole : (chars.takeWhile Char.isDigit).isEmpty
    · have digits : (fractionPart (chars.dropWhile Char.isDigit)).1 ≠ [] := by
        simpa [whole] using nothing
      have := fractionPart_shorter_of_digits digits
      omega
    · have := fractionPart_shorter (chars.dropWhile Char.isDigit)
      have : 0 < (chars.takeWhile Char.isDigit).length :=
        List.length_pos_iff.mpr (fun empty => whole (by simp [empty]))
      omega
  cases exponent : exponentPart? (fractionPart (chars.dropWhile Char.isDigit)).2 with
  | none => simpa using fractionBound
  | some result =>
    obtain ⟨power, afterExponent⟩ := result
    have := exponentPart_shorter exponent
    simp only [Option.getD_some]
    omega

theorem punctuators_nonempty : ∀ p ∈ punctuators, p.toList ≠ [] := by
  decide

theorem punctuator?_shorter {chars p : List Char} (h : punctuator? chars = some p) :
    (chars.drop p.length).length < chars.length := by
  obtain ⟨q, member, rfl⟩ := List.mem_map.mp (List.mem_of_find?_eq_some h)
  have fits : punctuatorFits chars q.toList = true := List.find?_some h
  have leading : q.toList <+: chars := by
    simp only [punctuatorFits, Bool.and_eq_true] at fits
    exact List.isPrefixOf_iff_prefix.mp fits.1
  have := leading.length_le
  have := List.length_pos_iff.mpr (punctuators_nonempty q member)
  simp only [List.length_drop]
  omega

/-- The kinds of lexeme, told apart by their first character and the ones after it. -/
inductive Start where
  | lineBreak
  | blank
  | lineComment
  | blockComment
  | name
  | number
  | string
  | htmlComment
  | punctuator
deriving DecidableEq, Repr

/-- The kind of lexeme that starts with `c`, followed by `rest`. -/
def start (c : Char) (rest : List Char) : Start :=
  if isLineTerminator c then .lineBreak
  else if isWhiteSpace c then .blank
  else if c = '/' ∧ rest.head? = some '/' then .lineComment
  else if c = '/' ∧ rest.head? = some '*' then .blockComment
  else if isIdentifierStart c then .name
  else if c.isDigit ∨ (c = '.' ∧ rest.head?.any Char.isDigit) then .number
  else if c = '"' ∨ c = '\'' then .string
  else if ['<', '!', '-', '-'].isPrefixOf (c :: rest) ∨ ['-', '-', '>'].isPrefixOf (c :: rest) then
    .htmlComment
  else .punctuator

/-- The tokens of `chars`, the first of which comes after a line terminator when
`afterLineBreak` holds. -/
def lexFrom : Bool → List Char → Except LexError (List Token)
  | _, [] => .ok []
  | afterLineBreak, c :: rest =>
    match start c rest with
    | .lineBreak => lexFrom true rest
    | .blank => lexFrom afterLineBreak rest
    | .lineComment =>
      have := length_dropWhile_le (fun d => !isLineTerminator d) rest
      lexFrom afterLineBreak (rest.dropWhile fun d => !isLineTerminator d)
    | .blockComment =>
      match h : blockComment rest.tail with
      | some (broke, after) =>
        have := blockComment_shorter h
        have : rest.tail.length ≤ rest.length := by simp
        lexFrom (afterLineBreak || broke) after
      | none => .error .unterminated
    | .name =>
      have := length_dropWhile_le isIdentifierPart rest
      (⟨.name (String.ofList (c :: rest.takeWhile isIdentifierPart)), afterLineBreak⟩ :: ·) <$>
        lexFrom false (rest.dropWhile isIdentifierPart)
    | .number =>
      match h : numericLiteral (c :: rest) with
      | .ok (value, after) =>
        have := numericLiteral_shorter h
        (⟨.number value, afterLineBreak⟩ :: ·) <$> lexFrom false after
      | .error e => .error e
    | .string =>
      match h : stringBody c rest with
      | .ok (value, after) =>
        have := stringBody_shorter h
        (⟨.string (String.ofList value), afterLineBreak⟩ :: ·) <$> lexFrom false after
      | .error e => .error e
    | .htmlComment => .error .htmlComment
    | .punctuator =>
      match h : punctuator? (c :: rest) with
      | some p =>
        have := punctuator?_shorter h
        (⟨.punctuator (String.ofList p), afterLineBreak⟩ :: ·) <$>
          lexFrom false ((c :: rest).drop p.length)
      | none => .error (.unexpected c)
termination_by _ chars => chars.length
decreasing_by all_goals simp only [List.length_cons] at *; omega

/-- The tokens of a script text. -/
def lex (text : String) : Except LexError (List Token) :=
  lexFrom false text.toList

end VieCompiler.Script
