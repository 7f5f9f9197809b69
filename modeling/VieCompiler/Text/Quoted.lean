import VieCompiler.Text.Printable

/-!
# Quoted literals in diagnostics

Diagnostics show a character or a file name as a quoted literal. The text is put between
single quotes, unless it holds a single quote and no double quote, in which case double
quotes are used. Inside, the backslash and the chosen quote are escaped by a backslash; tab,
line feed and carriage return are written `\t`, `\n` and `\r`; any other character that is
not printable is written by its code point in lowercase hexadecimal, as `\xNN` below
U+0100, `\uNNNN` below U+10000 and `\UNNNNNNNN` above; all other characters stand for
themselves.
-/

namespace VieCompiler.Text

/-- The lowercase hexadecimal digits of `n`, padded on the left with zeros to `width`. -/
def hexPadded (width n : Nat) : List Char :=
  let digits := Nat.toDigits 16 n
  List.replicate (width - digits.length) '0' ++ digits

/-- How one character is written inside a literal delimited by `quote`. -/
def escapeChar (quote c : Char) : List Char :=
  if c = quote ∨ c = '\\' then ['\\', c]
  else if c = '\t' then ['\\', 't']
  else if c = '\n' then ['\\', 'n']
  else if c = '\r' then ['\\', 'r']
  else if isPrintable c then [c]
  else if c.toNat < 0x100 then '\\' :: 'x' :: hexPadded 2 c.toNat
  else if c.toNat < 0x10000 then '\\' :: 'u' :: hexPadded 4 c.toNat
  else '\\' :: 'U' :: hexPadded 8 c.toNat

/-- The quote that delimits the literal of `s`: double only when `s` holds a single quote
and no double quote. -/
def quoteFor (s : String) : Char :=
  if s.toList.contains '\'' && !s.toList.contains '"' then '"' else '\''

/-- The quoted literal of `s`. -/
def quoted (s : String) : String :=
  let q := quoteFor s
  String.ofList (q :: (s.toList.flatMap (escapeChar q) ++ [q]))

example : quoted "$" = "'$'" ∧ quoted "'" = "\"'\"" ∧ quoted "\\" = "'\\\\'" := by
  decide +kernel

example : quoted "\x00" = "'\\x00'" ∧ quoted "a\tb" = "'a\\tb'" := by
  decide +kernel

end VieCompiler.Text
