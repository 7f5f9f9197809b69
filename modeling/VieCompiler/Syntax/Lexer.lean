import VieCompiler.Syntax.Token
import VieCompiler.Text.Quoted
import VieCompiler.Diagnostic

/-!
# The lexer

`tokenize` turns a source text into its tokens, ending with an end-of-input token on the
last line. Between tokens it skips spaces, tabs, carriage returns, line feeds (which count
lines) and comments, which run from `#` to the end of the line.

At each token the longest reading wins: `==`, `!=`, `<=` and `>=` are one token, a number
is the whole run of digits and a word the whole run of word characters. A string runs to
the next quote of the same kind, across lines and without escapes. The lexer fails on a
string that is never closed, reporting the line where it began, and on a character that no
token can start with, reporting the line it stands on.
-/

namespace VieCompiler

/-- Why a source text is not a sequence of tokens. -/
inductive LexicalError where
  /-- A string opened on `line` is not closed before the end of the input. -/
  | unterminatedString (line : Nat)
  /-- No token starts with `char`, found on `line`. -/
  | unexpectedCharacter (char : Char) (line : Nat)
deriving DecidableEq, Repr

namespace LexicalError

/-- The line the error is reported at. -/
def line : LexicalError → Nat
  | unterminatedString line => line
  | unexpectedCharacter _ line => line

/-- The description of the error, without its line. -/
def message : LexicalError → String
  | unterminatedString _ => "unterminated string literal"
  | unexpectedCharacter char _ => "unexpected character: " ++ Text.quoted (String.singleton char)

/-- The error as it is reported: by line, with no token to underline. -/
def diagnostic (error : LexicalError) : Diagnostic :=
  ⟨error.message, error.line, none⟩

end LexicalError

namespace Token

/-- The token of a word: a reserved word if it spells one, a name otherwise. -/
def ofWord (word : String) (line : Nat) : Token :=
  match Keyword.ofWord? word with
  | some k => ⟨.keyword k, word, line⟩
  | none => ⟨.ident, word, line⟩

end Token

theorem length_dropWhile_lt_cons {α : Type} (p : α → Bool) (c : α) (cs : List α) :
    (cs.dropWhile p).length < (c :: cs).length := by
  induction cs with
  | nil => simp
  | cons d cs ih =>
    simp only [List.dropWhile]
    split
    · simp only [List.length_cons] at ih ⊢
      omega
    · exact Nat.lt_succ_self _

/-- The tokens of `chars`, which starts on `line`, followed by the end-of-input token. -/
def tokenizeFrom (line : Nat) : List Char → Except LexicalError (List Token)
  | [] => .ok [⟨.eof, "", line⟩]
  | c :: rest =>
    if c = '\n' then tokenizeFrom (line + 1) rest
    else if c = ' ' ∨ c = '\t' ∨ c = '\r' then tokenizeFrom line rest
    else if c = '#' then tokenizeFrom line (rest.dropWhile (· != '\n'))
    else match Token.Kind.ofSingle? c with
    | some kind => (⟨kind, String.singleton c, line⟩ :: ·) <$> tokenizeFrom line rest
    | none =>
      match Token.Kind.ofCompound? c with
      | some (withEqual, alone) =>
        if rest.head? = some '=' then
          (⟨withEqual, String.ofList [c, '='], line⟩ :: ·) <$> tokenizeFrom line rest.tail
        else (⟨alone, String.singleton c, line⟩ :: ·) <$> tokenizeFrom line rest
      | none =>
        if c = '"' ∨ c = '\'' then
          let body := rest.takeWhile (· != c)
          match h : rest.dropWhile (· != c) with
          | [] => .error (.unterminatedString line)
          | _ :: after =>
            have : after.length < (c :: rest).length := by
              have := length_dropWhile_lt_cons (· != c) c rest
              rw [h] at this
              simp only [List.length_cons] at this ⊢
              omega
            (⟨.string, String.ofList body, line⟩ :: ·) <$>
              tokenizeFrom (line + body.count '\n') after
        else if c.isDigit then
          (⟨.number, String.ofList (c :: rest.takeWhile Char.isDigit), line⟩ :: ·) <$>
            tokenizeFrom line (rest.dropWhile Char.isDigit)
        else if isWordStart c then
          (Token.ofWord (String.ofList (c :: rest.takeWhile isWordChar)) line :: ·) <$>
            tokenizeFrom line (rest.dropWhile isWordChar)
        else .error (.unexpectedCharacter c line)
termination_by chars => chars.length
decreasing_by
  · simp only [List.length_cons]; omega
  · simp only [List.length_cons]; omega
  · exact length_dropWhile_lt_cons _ c rest
  · simp only [List.length_cons]; omega
  · simp only [List.length_cons, List.length_tail]; omega
  · simp only [List.length_cons]; omega
  · exact this
  · exact length_dropWhile_lt_cons _ c rest
  · exact length_dropWhile_lt_cons _ c rest

/-- The tokens of a source text, ending with the end-of-input token. -/
def tokenize (source : String) : Except LexicalError (List Token) :=
  tokenizeFrom 1 source.toList

end VieCompiler
