import VieCompiler.Text.Blank

/-!
# Diagnostics

How a compile error is shown to the user. Every error has a description and a line. An
error found while reading characters is shown on one line, as `line L: description`. An
error found at a token is shown as a banner: the description, the source line the token is
on, and under it a row of carets beneath the first place where the token's text, trimmed of
blanks, occurs on that line.

The banner never fails. A line number outside the source shows an empty line, and text that
does not occur on the line is underlined from the first column.
-/

namespace VieCompiler

/-- A compile error as it is reported. -/
structure Diagnostic where
  /-- What went wrong. -/
  message : String
  /-- The line the error is reported at, counted from 1. -/
  line : Int
  /-- For an error found at a token, the token's text. -/
  anchor : Option String
deriving DecidableEq, Repr

namespace Diagnostic

/-- The pieces of `chars` between the occurrences of `separator`; there is always one more
piece than there are separators. -/
def splitOn (separator : Char) : List Char → List (List Char)
  | [] => [[]]
  | c :: rest =>
    if c = separator then [] :: splitOn separator rest
    else match splitOn separator rest with
      | [] => [[c]]
      | piece :: pieces => (c :: piece) :: pieces

/-- The position of the first occurrence of `pattern` in `text`; the empty pattern occurs
at position 0. -/
def firstOccurrence (pattern : List Char) : List Char → Option Nat
  | [] => if pattern.isEmpty then some 0 else none
  | c :: rest =>
    if pattern.isPrefixOf (c :: rest) then some 0
    else (firstOccurrence pattern rest).map (· + 1)

/-- The source line numbered `line`, or the empty line when there is none. -/
def sourceLine (source : String) (line : Int) : List Char :=
  if line < 1 then [] else ((splitOn '\n' source.toList)[(line - 1).toNat]?).getD []

/-- The error with its line, as a one-line summary. -/
def summary (diagnostic : Diagnostic) : String :=
  diagnostic.message ++ " at line " ++ toString diagnostic.line

/-- The error as shown to the user, for the given source text. -/
def render (diagnostic : Diagnostic) (source : String) : String :=
  match diagnostic.anchor with
  | none => "line " ++ toString diagnostic.line ++ ": " ++ diagnostic.message
  | some lexeme =>
    let shown := sourceLine source diagnostic.line
    let target := (Text.trim lexeme).toList
    let column := (firstOccurrence target shown).getD 0
    let pointer := List.replicate column ' ' ++ List.replicate target.length '^'
    "\n--- Compile error ---\n" ++ diagnostic.message ++ "\n\nAt line " ++
      toString diagnostic.line ++ ":\n  " ++ String.ofList shown ++ "\n  " ++
      String.ofList pointer ++ "\n---------------------\n"

theorem length_splitOn (separator : Char) (chars : List Char) :
    (splitOn separator chars).length = chars.count separator + 1 := by
  induction chars with
  | nil => rfl
  | cons c rest ih =>
    by_cases hc : c = separator
    · simp [splitOn, hc, ih]
    · cases h : splitOn separator rest with
      | nil => simp [h] at ih
      | cons piece pieces =>
        rw [h] at ih
        simp [splitOn, hc, h, ← ih]

example : (⟨"unterminated string literal", 3, none⟩ : Diagnostic).render "" =
    "line 3: unterminated string literal" := by
  decide +kernel

example : (⟨"expected ')' after arguments", 1, some "\x7d"⟩ : Diagnostic).render "f(1 \x7d" =
    "\n--- Compile error ---\nexpected ')' after arguments\n\nAt line 1:\n  f(1 \x7d\n      ^\n---------------------\n" := by
  decide +kernel

end Diagnostic

end VieCompiler
