import VieCompiler.Syntax.Lexer
import Mathlib

/-!
# The lexical grammar, and where lexing fails

A source text is lexically well formed when it splits, from left to right, into *gaps* and
*token texts*. A gap is made of spaces, tabs, carriage returns, line feeds and comments, a
comment running from `#` up to the next line feed or the end of the text. A token text is a
punctuation character, an operator with or without its `=`, a string between two equal
quotes with no such quote inside, a run of digits or a word; and it is the longest token
text that starts where it does: a run of digits is not followed by a digit, a word not by a
word character, and a lone `=`, `!`, `<` or `>` not by `=`.

`Reaches chars rest` says that this reading of `chars` arrives at its suffix `rest` between
two pieces, and `Lexes chars` that it arrives at the end. Nothing in these definitions
follows the lexer's loop: they say which splits are allowed, and the reading they describe
is deterministic only because the longest-match conditions leave one choice at each point.

The lexer fails on exactly the texts that do not lex (`tokenize_fails_exactly_where_stuck`).
When it fails, the reading has arrived at a character where it is stuck for good: a quote
that no later quote of the same kind closes, or a character that starts no piece at all. The
error names the line that character stands on, even for a string whose scan ran on to the
end of the text.
-/

namespace VieCompiler

namespace Lexical

/-- The characters that separate tokens on their own: space, tab, carriage return and line
feed. -/
def isSeparator (c : Char) : Bool :=
  c = ' ' || c = '\t' || c = '\r' || c = '\n'

/-- The two characters that open and close a string. -/
def isQuote (c : Char) : Bool :=
  c = '"' || c = '\''

/-- The characters that are tokens on their own. -/
def singleChars : List Char :=
  ['(', ')', '\x7b', '\x7d', '[', ']', ',', '.', '+', '-', '*', '/']

/-- The characters that make a token alone or together with a following `=`. -/
def compoundChars : List Char :=
  ['=', '!', '<', '>']

/-- Whether some piece of a text may start with `c`: a separator, a comment or a token. -/
def startsPiece (c : Char) : Bool :=
  isSeparator c || c = '#' || c ∈ singleChars || c ∈ compoundChars || isQuote c ||
    c.isDigit || isWordStart c

/-- `Munch text after`: `text` spells one token, and the characters `after` it do not make
a longer one. -/
inductive Munch : List Char → List Char → Prop
  /-- A character that is a token on its own. -/
  | single {c : Char} {after : List Char} : c ∈ singleChars → Munch [c] after
  /-- An operator character with its `=`. -/
  | compound {c : Char} {after : List Char} : c ∈ compoundChars → Munch [c, '='] after
  /-- An operator character without an `=` after it. -/
  | lone {c : Char} {after : List Char} :
      c ∈ compoundChars → after.head? ≠ some '=' → Munch [c] after
  /-- A string: a quote, text without that quote, and the quote again. -/
  | string {quote : Char} {body after : List Char} :
      isQuote quote → quote ∉ body → Munch (quote :: body ++ [quote]) after
  /-- A run of digits that no digit follows. -/
  | number {digit : Char} {digits after : List Char} : digit.isDigit →
      (∀ d ∈ digits, d.isDigit) → (∀ d ∈ after.head?, d.isDigit = false) →
      Munch (digit :: digits) after
  /-- A word that no word character follows. -/
  | word {first : Char} {letters after : List Char} : isWordStart first →
      (∀ d ∈ letters, isWordChar d) → (∀ d ∈ after.head?, isWordChar d = false) →
      Munch (first :: letters) after

/-- `Reaches chars rest`: reading `chars` from the left, one gap character, comment or token
at a time, arrives at its suffix `rest`. -/
inductive Reaches : List Char → List Char → Prop
  /-- Nothing read yet. -/
  | here (chars : List Char) : Reaches chars chars
  /-- A separator, read on its own. -/
  | separator {c : Char} {chars rest : List Char} :
      isSeparator c → Reaches chars rest → Reaches (c :: chars) rest
  /-- A comment, up to the next line feed or the end. -/
  | comment {body chars rest : List Char} : '\n' ∉ body → (∀ c ∈ chars.head?, c = '\n') →
      Reaches chars rest → Reaches ('#' :: (body ++ chars)) rest
  /-- A token, the longest one that starts here. -/
  | token {text chars rest : List Char} :
      Munch text chars → Reaches chars rest → Reaches (text ++ chars) rest

/-- The text splits into gaps and tokens up to its end. -/
def Lexes (chars : List Char) : Prop :=
  Reaches chars []

end Lexical

open Lexical

section Tables

variable {c : Char}

theorem mem_singleChars_of_ofSingle? {kind : Token.Kind}
    (h : Token.Kind.ofSingle? c = some kind) : c ∈ singleChars := by
  unfold Token.Kind.ofSingle? at h
  split at h <;> simp_all [singleChars]

theorem ofSingle?_eq_none (h : c ∉ singleChars) : Token.Kind.ofSingle? c = none := by
  cases found : Token.Kind.ofSingle? c with
  | none => rfl
  | some kind => exact absurd (mem_singleChars_of_ofSingle? found) h

theorem ofSingle?_isSome (h : c ∈ singleChars) : (Token.Kind.ofSingle? c).isSome := by
  simp only [singleChars, List.mem_cons, List.not_mem_nil, or_false] at h
  rcases h with rfl | rfl | rfl | rfl | rfl | rfl | rfl | rfl | rfl | rfl | rfl | rfl <;> rfl

theorem mem_compoundChars_of_ofCompound? {kinds : Token.Kind × Token.Kind}
    (h : Token.Kind.ofCompound? c = some kinds) : c ∈ compoundChars := by
  unfold Token.Kind.ofCompound? at h
  split at h <;> simp_all [compoundChars]

theorem ofCompound?_eq_none (h : c ∉ compoundChars) : Token.Kind.ofCompound? c = none := by
  cases found : Token.Kind.ofCompound? c with
  | none => rfl
  | some kinds => exact absurd (mem_compoundChars_of_ofCompound? found) h

theorem ofCompound?_isSome (h : c ∈ compoundChars) : (Token.Kind.ofCompound? c).isSome := by
  simp only [compoundChars, List.mem_cons, List.not_mem_nil, or_false] at h
  rcases h with rfl | rfl | rfl | rfl <;> rfl

/-- The tests that the lexer makes, in its order, before it reads a token of the kind that
`c` starts: `c` is no line feed, no blank, no `#`, and, for the later kinds, not of the
earlier ones. -/
structure PassesGaps (c : Char) : Prop where
  newline : c ≠ '\n'
  blank : ¬(c = ' ' ∨ c = '\t' ∨ c = '\r')
  hash : c ≠ '#'

theorem passesGaps_of_mem (h : c ∈ singleChars ++ compoundChars ++ ['"', '\'']) :
    PassesGaps c := by
  have all : ∀ x ∈ singleChars ++ compoundChars ++ ['"', '\''],
      x ≠ '\n' ∧ ¬(x = ' ' ∨ x = '\t' ∨ x = '\r') ∧ x ≠ '#' :=
    forall_mem_of_all_decide (by decide)
  obtain ⟨newline, blank, hash⟩ := all c h
  exact ⟨newline, blank, hash⟩

theorem not_mem_compoundChars_of_mem_singleChars (h : c ∈ singleChars) : c ∉ compoundChars := by
  have all : ∀ x ∈ singleChars, x ∉ compoundChars := forall_mem_of_all_decide (by decide)
  exact all c h

theorem not_mem_singleChars_of_mem_compoundChars (h : c ∈ compoundChars) : c ∉ singleChars :=
  fun single => not_mem_compoundChars_of_mem_singleChars single h

theorem quote_not_operator (h : isQuote c) : c ∉ singleChars ∧ c ∉ compoundChars := by
  simp only [isQuote, Bool.or_eq_true, decide_eq_true_eq] at h
  rcases h with rfl | rfl <;> decide

/-- Word starts come after the digits in the character set, so no word starts with a
digit. -/
theorem digits_below_of_isWordStart (h : isWordStart c) : 57 < c.toNat := by
  have toNat : c.toNat = c.val.toNat := rfl
  simp only [isWordStart, Bool.or_eq_true, beq_iff_eq, List.contains_iff_mem] at h
  rcases h with (alpha | rfl) | accented
  · simp only [Char.isAlpha, Char.isUpper, Char.isLower, Bool.or_eq_true, Bool.and_eq_true,
      decide_eq_true_eq, UInt32.le_iff_toNat_le, ge_iff_le] at alpha
    have : 'A'.val.toNat = 65 := rfl
    have : 'a'.val.toNat = 97 := rfl
    omega
  · decide
  · have blocks := accentedLetters_blocks accented
    omega

theorem isDigit_eq_false_of_isWordStart (h : isWordStart c) : c.isDigit = false := by
  have above := digits_below_of_isWordStart h
  have toNat : c.toNat = c.val.toNat := rfl
  have : '9'.val.toNat = 57 := rfl
  simp only [Char.isDigit, Bool.and_eq_false_iff, decide_eq_false_iff_not,
    UInt32.le_iff_toNat_le, ge_iff_le]
  omega

/-- What the lexer tests before it reads a number or a word: the character is no gap
character, no operator and no quote. -/
structure PassesMarks (c : Char) : Prop extends PassesGaps c where
  single : Token.Kind.ofSingle? c = none
  compound : Token.Kind.ofCompound? c = none
  quote : ¬(c = '"' ∨ c = '\'')

/-- A word character is none of the characters that the lexer tests before words and
numbers. -/
theorem wordChar_passes (h : isWordChar c) : PassesMarks c := by
  have excluded : ∀ x ∈ '\n' :: ' ' :: '\t' :: '\r' :: '#' :: '"' :: '\'' ::
      (singleChars ++ compoundChars), isWordChar x = false := by
    have ascii : ∀ x ∈ '\n' :: ' ' :: '\t' :: '\r' :: '#' :: '"' :: '\'' ::
        (singleChars ++ compoundChars),
        x.toNat < 0xE0 ∧ (x.isAlpha || x == '_' || x.isDigit) = false :=
      forall_mem_of_all_decide (by decide)
    intro x listed
    obtain ⟨below, notWord⟩ := ascii x listed
    rw [isWordChar_of_outside (.inl below), notWord]
  have outside : c ∉ '\n' :: ' ' :: '\t' :: '\r' :: '#' :: '"' :: '\'' ::
      (singleChars ++ compoundChars) := fun mem => by
    rw [excluded c mem] at h
    cases h
  simp only [List.mem_cons, List.mem_append, not_or] at outside
  obtain ⟨newline, space, tab, cr, hash, dquote, squote, single, compound⟩ := outside
  exact ⟨⟨newline, by simp [space, tab, cr], hash⟩, ofSingle?_eq_none single,
    ofCompound?_eq_none compound, by simp [dquote, squote]⟩

theorem isWordChar_of_isDigit (h : c.isDigit) : isWordChar c := by
  simp [isWordChar, h]

theorem isWordChar_of_isWordStart (h : isWordStart c) : isWordChar c := by
  simp [isWordChar, h]

end Tables

section Spans

variable {α : Type} {p : α → Bool} {body rest : List α}

/-- `takeWhile` stops exactly after a run of `p` that the rest does not continue. -/
theorem takeWhile_run (inside : ∀ x ∈ body, p x) (boundary : ∀ x ∈ rest.head?, p x = false) :
    (body ++ rest).takeWhile p = body := by
  rw [List.takeWhile_append_of_pos inside]
  cases rest with
  | nil => simp
  | cons x tail => simp [boundary x rfl]

/-- `dropWhile` stops exactly after a run of `p` that the rest does not continue. -/
theorem dropWhile_run (inside : ∀ x ∈ body, p x) (boundary : ∀ x ∈ rest.head?, p x = false) :
    (body ++ rest).dropWhile p = rest := by
  rw [List.dropWhile_append_of_pos inside]
  cases rest with
  | nil => rfl
  | cons x tail => simp [boundary x rfl]

/-- The first element that `dropWhile` keeps fails the test. -/
theorem head_dropWhile_stops (items : List α) : ∀ x ∈ (items.dropWhile p).head?, p x = false := by
  intro x mem
  have stops := List.head?_dropWhile_not p items
  rw [Option.mem_def] at mem
  rwa [mem] at stops

end Spans

section Steps

/-! Each piece of a split is read by one step of the lexer, which goes on after it. -/

variable (line : Nat) {chars : List Char}

theorem tokenizeFrom_nil : tokenizeFrom line [] = .ok [⟨.eof, "", line⟩] := by
  rw [tokenizeFrom]

theorem tokenizeFrom_separator {c : Char} (separator : isSeparator c) :
    tokenizeFrom line (c :: chars) = tokenizeFrom (line + [c].count '\n') chars := by
  by_cases newline : c = '\n'
  · subst newline
    rw [tokenizeFrom]
    simp
  · have blank : c = ' ' ∨ c = '\t' ∨ c = '\r' := by
      simpa [isSeparator, newline, or_assoc] using separator
    rw [tokenizeFrom]
    simp [newline, blank]

theorem tokenizeFrom_comment {body : List Char} (inside : '\n' ∉ body)
    (boundary : ∀ c ∈ chars.head?, c = '\n') :
    tokenizeFrom line ('#' :: (body ++ chars)) = tokenizeFrom line chars := by
  have run : (body ++ chars).dropWhile (· != '\n') = chars := by
    apply dropWhile_run
    · intro x mem
      have : x ≠ '\n' := fun same => inside (same ▸ mem)
      simpa using this
    · intro x head
      simp [boundary x head]
  rw [tokenizeFrom]
  simp [run]

/-- The lexer's step at a quote, when a closing quote follows. -/
theorem tokenizeFrom_quote {quote close : Char} {after : List Char} (isString : isQuote quote)
    (closed : chars.dropWhile (· != quote) = close :: after) :
    tokenizeFrom line (quote :: chars) =
      (⟨.string, String.ofList (chars.takeWhile (· != quote)), line⟩ :: ·) <$>
        tokenizeFrom (line + (chars.takeWhile (· != quote)).count '\n') after := by
  have gaps := passesGaps_of_mem (c := quote) (by
    simp only [isQuote, Bool.or_eq_true, decide_eq_true_eq] at isString
    rcases isString with rfl | rfl <;> decide)
  obtain ⟨notSingle, notCompound⟩ := quote_not_operator isString
  have pair : quote = '"' ∨ quote = '\'' := by simpa [isQuote] using isString
  rw [tokenizeFrom]
  simp only [gaps.newline, gaps.blank, gaps.hash, if_false, ofSingle?_eq_none notSingle,
    ofCompound?_eq_none notCompound, pair, if_true]
  split
  · simp_all
  · rename_i next rest found
    rw [closed] at found
    cases found
    rfl

/-! The step at each kind of token text, with the token it makes. -/

theorem tokenizeFrom_single {c : Char} {kind : Token.Kind}
    (found : Token.Kind.ofSingle? c = some kind) :
    tokenizeFrom line (c :: chars) =
      (⟨kind, String.singleton c, line⟩ :: ·) <$> tokenizeFrom line chars := by
  have gaps := passesGaps_of_mem
    (List.mem_append_left _ (List.mem_append_left _ (mem_singleChars_of_ofSingle? found)))
  rw [tokenizeFrom]
  simp [gaps.newline, gaps.blank, gaps.hash, found]

theorem tokenizeFrom_compound {c : Char} {withEqual alone : Token.Kind}
    (found : Token.Kind.ofCompound? c = some (withEqual, alone)) :
    tokenizeFrom line (c :: '=' :: chars) =
      (⟨withEqual, String.ofList [c, '='], line⟩ :: ·) <$> tokenizeFrom line chars := by
  have mem := mem_compoundChars_of_ofCompound? found
  have gaps := passesGaps_of_mem (List.mem_append_left _ (List.mem_append_right _ mem))
  rw [tokenizeFrom]
  simp [gaps.newline, gaps.blank, gaps.hash, found,
    ofSingle?_eq_none (not_mem_singleChars_of_mem_compoundChars mem)]

theorem tokenizeFrom_lone {c : Char} {withEqual alone : Token.Kind}
    (found : Token.Kind.ofCompound? c = some (withEqual, alone))
    (noEqual : chars.head? ≠ some '=') :
    tokenizeFrom line (c :: chars) =
      (⟨alone, String.singleton c, line⟩ :: ·) <$> tokenizeFrom line chars := by
  have mem := mem_compoundChars_of_ofCompound? found
  have gaps := passesGaps_of_mem (List.mem_append_left _ (List.mem_append_right _ mem))
  rw [tokenizeFrom]
  simp [gaps.newline, gaps.blank, gaps.hash, found, noEqual,
    ofSingle?_eq_none (not_mem_singleChars_of_mem_compoundChars mem)]

/-- A string runs to the first quote of its own kind; the line feeds in it count for what
follows. -/
theorem tokenizeFrom_string {quote : Char} {body : List Char} (isString : isQuote quote)
    (outside : quote ∉ body) :
    tokenizeFrom line (quote :: (body ++ quote :: chars)) =
      (⟨.string, String.ofList body, line⟩ :: ·) <$>
        tokenizeFrom (line + body.count '\n') chars := by
  have inside : ∀ x ∈ body, (x != quote) = true := by
    intro x mem
    have : x ≠ quote := fun same => outside (same ▸ mem)
    simpa using this
  have closing : ∀ x ∈ (quote :: chars).head?, (x != quote) = false := by simp
  rw [tokenizeFrom_quote line isString (dropWhile_run inside closing),
    takeWhile_run inside closing]

theorem tokenizeFrom_number {digit : Char} {digits : List Char} (isDigit : digit.isDigit)
    (digitsAll : ∀ d ∈ digits, d.isDigit) (boundary : ∀ d ∈ chars.head?, d.isDigit = false) :
    tokenizeFrom line (digit :: (digits ++ chars)) =
      (⟨.number, String.ofList (digit :: digits), line⟩ :: ·) <$> tokenizeFrom line chars := by
  have marks := wordChar_passes (isWordChar_of_isDigit isDigit)
  rw [tokenizeFrom]
  simp [marks.newline, marks.blank, marks.hash, marks.single, marks.compound, marks.quote,
    isDigit, takeWhile_run digitsAll boundary, dropWhile_run digitsAll boundary]

theorem tokenizeFrom_word {first : Char} {letters : List Char} (isStart : isWordStart first)
    (lettersAll : ∀ d ∈ letters, isWordChar d) (boundary : ∀ d ∈ chars.head?, isWordChar d = false) :
    tokenizeFrom line (first :: (letters ++ chars)) =
      (Token.ofWord (String.ofList (first :: letters)) line :: ·) <$> tokenizeFrom line chars := by
  have marks := wordChar_passes (isWordChar_of_isWordStart isStart)
  rw [tokenizeFrom]
  simp [marks.newline, marks.blank, marks.hash, marks.single, marks.compound, marks.quote,
    isDigit_eq_false_of_isWordStart isStart, isStart, takeWhile_run lettersAll boundary,
    dropWhile_run lettersAll boundary]

/-- A digit or word character is no line feed. -/
theorem count_newline_eq_zero {text : List Char} (words : ∀ d ∈ text, isWordChar d) :
    text.count '\n' = 0 :=
  List.count_eq_zero.mpr fun mem => (wordChar_passes (words _ mem)).1.newline rfl

/-- An operator text holds no line feed. -/
theorem count_newline_operator {c : Char} {text : List Char}
    (mem : c ∈ singleChars ++ compoundChars ++ ['"', '\'']) (short : text = [c] ∨ text = [c, '=']) :
    text.count '\n' = 0 := by
  have gaps := passesGaps_of_mem mem
  rcases short with rfl | rfl <;> simp [gaps.newline]

theorem tokenizeFrom_munch {text : List Char} (munch : Munch text chars) :
    ∃ token, tokenizeFrom line (text ++ chars) =
      (token :: ·) <$> tokenizeFrom (line + text.count '\n') chars := by
  cases munch with
  | @single c _ mem =>
    obtain ⟨kind, found⟩ := Option.isSome_iff_exists.mp (ofSingle?_isSome mem)
    have none := count_newline_operator (List.mem_append_left _ (List.mem_append_left _ mem))
      (.inl rfl)
    exact ⟨_, by rw [none, Nat.add_zero, List.singleton_append, tokenizeFrom_single line found]⟩
  | @compound c _ mem =>
    obtain ⟨⟨withEqual, alone⟩, found⟩ := Option.isSome_iff_exists.mp (ofCompound?_isSome mem)
    have none := count_newline_operator (List.mem_append_left _ (List.mem_append_right _ mem))
      (.inr rfl)
    exact ⟨_, by rw [none, Nat.add_zero, List.cons_append, List.singleton_append,
      tokenizeFrom_compound line found]⟩
  | @lone c _ mem noEqual =>
    obtain ⟨⟨withEqual, alone⟩, found⟩ := Option.isSome_iff_exists.mp (ofCompound?_isSome mem)
    have none := count_newline_operator (List.mem_append_left _ (List.mem_append_right _ mem))
      (.inl rfl)
    exact ⟨_, by rw [none, Nat.add_zero, List.singleton_append,
      tokenizeFrom_lone line found noEqual]⟩
  | @string quote body _ isString outside =>
    have quoteLine : quote ≠ '\n' := by
      simp only [isQuote, Bool.or_eq_true, decide_eq_true_eq] at isString
      rcases isString with rfl | rfl <;> decide
    refine ⟨⟨.string, String.ofList body, line⟩, ?_⟩
    simp only [List.cons_append, List.append_assoc]
    rw [tokenizeFrom_string line isString outside]
    simp [quoteLine]
  | @number digit digits _ isDigit digitsAll boundary =>
    have words : ∀ d ∈ digit :: digits, isWordChar d := by
      intro d mem
      rcases List.mem_cons.mp mem with rfl | mem
      · exact isWordChar_of_isDigit isDigit
      · exact isWordChar_of_isDigit (digitsAll d mem)
    exact ⟨_, by rw [count_newline_eq_zero words, Nat.add_zero, List.cons_append,
      tokenizeFrom_number line isDigit digitsAll boundary]⟩
  | @word first letters _ isStart lettersAll boundary =>
    have words : ∀ d ∈ first :: letters, isWordChar d := by
      intro d mem
      rcases List.mem_cons.mp mem with rfl | mem
      · exact isWordChar_of_isWordStart isStart
      · exact lettersAll d mem
    exact ⟨_, by rw [count_newline_eq_zero words, Nat.add_zero, List.cons_append,
      tokenizeFrom_word line isStart lettersAll boundary]⟩

/-- Wherever a split arrives, the lexer arrives too, with the line advanced by the line feeds
read: so if it goes on from there, it goes on from the start. -/
theorem tokenizeFrom_ok_of_reaches {chars rest : List Char} (reaches : Reaches chars rest)
    (goesOn : ∀ line, ∃ tokens, tokenizeFrom line rest = .ok tokens) :
    ∀ line, ∃ tokens, tokenizeFrom line chars = .ok tokens := by
  induction reaches with
  | here => exact goesOn
  | separator separator _ ih =>
    intro line
    rw [tokenizeFrom_separator line separator]
    exact ih goesOn _
  | comment inside boundary _ ih =>
    intro line
    rw [tokenizeFrom_comment line inside boundary]
    exact ih goesOn line
  | token munch _ ih =>
    intro line
    obtain ⟨token, step⟩ := tokenizeFrom_munch line munch
    obtain ⟨tokens, found⟩ := ih goesOn (line + _)
    exact ⟨token :: tokens, by rw [step, found]; rfl⟩

end Steps

section Reading

/-! What each step of the lexer reads is a piece of a split: a step from `chars` to `rest`
extends every reading of `rest` to one of `chars`. -/

variable {c : Char} {rest : List Char}

theorem reaches_comment (r : List Char) (next : Reaches (rest.dropWhile (· != '\n')) r) :
    Reaches ('#' :: rest) r := by
  have split := List.takeWhile_append_dropWhile (p := (· != '\n')) (l := rest)
  have inside : '\n' ∉ rest.takeWhile (· != '\n') := fun mem => by
    simpa using List.mem_takeWhile_imp mem
  have boundary : ∀ x ∈ (rest.dropWhile (· != '\n')).head?, x = '\n' := by
    intro x head
    simpa using head_dropWhile_stops rest x head
  rw [← split]
  exact Reaches.comment inside boundary next

/-- A string scan that finds a quote finds the closing one: the text is the string's body,
the quote, and what follows. -/
theorem split_of_closed {close : Char} {after : List Char}
    (closed : rest.dropWhile (· != c) = close :: after) :
    close = c ∧ rest = rest.takeWhile (· != c) ++ c :: after := by
  have closeIs : close = c := by
    have stops := head_dropWhile_stops (p := (· != c)) rest close (by simp [closed])
    simpa using stops
  subst closeIs
  refine ⟨rfl, ?_⟩
  have split := List.takeWhile_append_dropWhile (p := (· != close)) (l := rest)
  rw [closed] at split
  exact split.symm

theorem reaches_string {close : Char} {after : List Char} (isString : isQuote c)
    (closed : rest.dropWhile (· != c) = close :: after) (r : List Char) (next : Reaches after r) :
    Reaches (c :: rest) r := by
  have outside : c ∉ rest.takeWhile (· != c) := fun mem => by
    simpa using List.mem_takeWhile_imp mem
  rw [(split_of_closed closed).2]
  have munch : Munch _ after := Munch.string isString outside
  simpa using Reaches.token munch next

theorem reaches_number (isDigit : c.isDigit) (r : List Char)
    (next : Reaches (rest.dropWhile Char.isDigit) r) : Reaches (c :: rest) r := by
  have split := List.takeWhile_append_dropWhile (p := Char.isDigit) (l := rest)
  have munch : Munch (c :: rest.takeWhile Char.isDigit) (rest.dropWhile Char.isDigit) :=
    .number isDigit (fun _ mem => List.mem_takeWhile_imp mem) (head_dropWhile_stops rest)
  rw [← split]
  exact Reaches.token munch next

theorem reaches_word (isStart : isWordStart c) (r : List Char)
    (next : Reaches (rest.dropWhile isWordChar) r) : Reaches (c :: rest) r := by
  have split := List.takeWhile_append_dropWhile (p := isWordChar) (l := rest)
  have munch : Munch (c :: rest.takeWhile isWordChar) (rest.dropWhile isWordChar) :=
    .word isStart (fun _ mem => List.mem_takeWhile_imp mem) (head_dropWhile_stops rest)
  rw [← split]
  exact Reaches.token munch next

theorem reaches_compound (mem : c ∈ compoundChars) (equal : rest.head? = some '=') (r : List Char)
    (next : Reaches rest.tail r) : Reaches (c :: rest) r := by
  cases rest with
  | nil => cases equal
  | cons next' tail =>
    cases equal
    exact Reaches.token (Munch.compound mem) next

end Reading

section Soundness

/-- Where the reading of `chars`, started on `line`, is stuck for good, and that `error` says
so at the line of the character where it is stuck: a quote that nothing closes, or a
character that starts no piece. -/
def StuckAt (line : Nat) (chars : List Char) (error : LexicalError) : Prop :=
  ∃ before c after, chars = before ++ c :: after ∧ Reaches chars (c :: after) ∧
    error.line = line + before.count '\n' ∧
    ((isQuote c ∧ c ∉ after ∧ error = .unterminatedString error.line) ∨
      (startsPiece c = false ∧ error = .unexpectedCharacter c error.line))

/-- A step of the lexer that reads `consumed` keeps the point where the reading is stuck. -/
theorem StuckAt.extend {line line' : Nat} {chars rest : List Char} {error : LexicalError}
    (stuck : StuckAt line' rest error) (step : ∀ r, Reaches rest r → Reaches chars r)
    (consumed : List Char) (split : chars = consumed ++ rest)
    (lines : line' = line + consumed.count '\n') :
    StuckAt line chars error := by
  obtain ⟨before, c, after, restSplit, reaches, lineEq, kind⟩ := stuck
  refine ⟨consumed ++ before, c, after, by simp [split, restSplit], step _ reaches, ?_, kind⟩
  rw [lineEq, lines, List.count_append]
  omega

theorem Except.error_of_map {ε α β : Type} {f : α → β} {x : Except ε α} {e : ε}
    (h : f <$> x = .error e) : x = .error e := by
  cases x with
  | error e' => cases h; rfl
  | ok a => cases h

theorem Except.exists_ok_of_map {ε α β : Type} {f : α → β} {x : Except ε α} {b : β}
    (h : f <$> x = .ok b) : ∃ a, x = .ok a := by
  cases x with
  | error e => cases h
  | ok a => exact ⟨a, rfl⟩

/-- The lexer succeeds only on texts that lex: each of its steps reads one piece. -/
theorem lexes_of_tokenizeFrom {line : Nat} {chars : List Char} {tokens : List Token}
    (h : tokenizeFrom line chars = .ok tokens) : Lexes chars := by
  fun_induction tokenizeFrom line chars generalizing tokens with
  | case1 => exact .here []
  | case2 line rest ih => exact .separator (by decide) (ih h)
  | case3 line c rest _ blank ih =>
    have separator : isSeparator c := by
      simp only [isSeparator, Bool.or_eq_true, decide_eq_true_eq]
      exact .inl (or_assoc.mpr blank)
    exact .separator separator (ih h)
  | case4 line rest _ _ ih => exact reaches_comment [] (ih h)
  | case5 line c rest _ _ _ kind found ih =>
    obtain ⟨more, h'⟩ := Except.exists_ok_of_map h
    exact Reaches.token (Munch.single (mem_singleChars_of_ofSingle? found)) (ih h')
  | case6 line c rest _ _ _ _ withEqual alone found equal ih =>
    obtain ⟨more, h'⟩ := Except.exists_ok_of_map h
    exact reaches_compound (mem_compoundChars_of_ofCompound? found) equal [] (ih h')
  | case7 line c rest _ _ _ _ withEqual alone found notEqual ih =>
    obtain ⟨more, h'⟩ := Except.exists_ok_of_map h
    exact Reaches.token (Munch.lone (mem_compoundChars_of_ofCompound? found) notEqual) (ih h')
  | case8 => cases h
  | case9 line c rest _ _ _ _ _ isString body close after closed =>
    rename_i ih
    obtain ⟨more, h'⟩ := Except.exists_ok_of_map h
    exact reaches_string (by simpa [isQuote] using isString) closed [] (ih h')
  | case10 line c rest _ _ _ _ _ _ isDigit ih =>
    obtain ⟨more, h'⟩ := Except.exists_ok_of_map h
    exact reaches_number isDigit [] (ih h')
  | case11 line c rest _ _ _ _ _ _ _ isStart ih =>
    obtain ⟨more, h'⟩ := Except.exists_ok_of_map h
    exact reaches_word isStart [] (ih h')
  | case12 => cases h

/-- The lexer fails only where the reading is stuck: each step it takes before reads one
piece and counts the line feeds in it. -/
theorem stuckAt_of_tokenizeFrom {line : Nat} {chars : List Char} {error : LexicalError}
    (h : tokenizeFrom line chars = .error error) : StuckAt line chars error := by
  fun_induction tokenizeFrom line chars with
  | case1 => cases h
  | case2 line rest ih =>
    exact (ih h).extend (fun _ => .separator (by decide)) (['\n']) rfl rfl
  | case3 line c rest newline blank ih =>
    have separator : isSeparator c := by
      simp only [isSeparator, Bool.or_eq_true, decide_eq_true_eq]
      exact .inl (or_assoc.mpr blank)
    exact (ih h).extend (fun _ => .separator separator) ([c]) rfl (by simp [newline])
  | case4 line rest _ _ ih =>
    refine (ih h).extend (reaches_comment) ('#' :: rest.takeWhile (· != '\n'))
      (by simp) ?_
    have inside : '\n' ∉ rest.takeWhile (· != '\n') := fun mem => by
      simpa using List.mem_takeWhile_imp mem
    simp [List.count_eq_zero_of_not_mem inside]
  | case5 line c rest newline _ _ kind found ih =>
    exact (ih (Except.error_of_map h)).extend
      (fun _ => .token (.single (mem_singleChars_of_ofSingle? found))) ([c]) rfl
      (by simp [newline])
  | case6 line c rest newline _ _ _ withEqual alone found equal ih =>
    have split : c :: rest = [c, '='] ++ rest.tail := by
      cases rest with
      | nil => cases equal
      | cons next tail => cases equal; rfl
    exact (ih (Except.error_of_map h)).extend
      (reaches_compound (mem_compoundChars_of_ofCompound? found) equal) [c, '='] split
      (by simp [newline])
  | case7 line c rest newline _ _ _ withEqual alone found notEqual ih =>
    exact (ih (Except.error_of_map h)).extend
      (fun _ => .token (.lone (mem_compoundChars_of_ofCompound? found) notEqual))
      ([c]) rfl (by simp [newline])
  | case8 line c rest _ _ _ single compound isString unclosed =>
    cases h
    have outside : c ∉ rest := fun mem => by
      simpa using List.dropWhile_eq_nil_iff.mp unclosed c mem
    exact ⟨[], c, rest, rfl, .here _, rfl, .inl ⟨by simpa [isQuote] using isString, outside, rfl⟩⟩
  | case9 line c rest newline _ _ _ _ isString body close after closed =>
    rename_i ih
    obtain ⟨-, split⟩ := split_of_closed closed
    refine (ih (Except.error_of_map h)).extend
      (reaches_string (by simpa [isQuote] using isString) closed)
      (c :: (body ++ [c])) (by rw [split]; simp [body]) ?_
    simp [newline]
  | case10 line c rest _ _ _ _ _ _ isDigit ih =>
    have words : ∀ d ∈ c :: rest.takeWhile Char.isDigit, isWordChar d := by
      intro d mem
      rcases List.mem_cons.mp mem with rfl | mem
      · exact isWordChar_of_isDigit isDigit
      · exact isWordChar_of_isDigit (List.mem_takeWhile_imp mem)
    exact (ih (Except.error_of_map h)).extend (reaches_number isDigit)
      (c :: rest.takeWhile Char.isDigit) (by simp)
      (by rw [count_newline_eq_zero words]; rfl)
  | case11 line c rest _ _ _ _ _ _ _ isStart ih =>
    have words : ∀ d ∈ c :: rest.takeWhile isWordChar, isWordChar d := by
      intro d mem
      rcases List.mem_cons.mp mem with rfl | mem
      · exact isWordChar_of_isWordStart isStart
      · exact List.mem_takeWhile_imp mem
    exact (ih (Except.error_of_map h)).extend (reaches_word isStart)
      (c :: rest.takeWhile isWordChar) (by simp)
      (by rw [count_newline_eq_zero words]; rfl)
  | case12 line c rest newline blank hash single compound notString notDigit notStart =>
    cases h
    have noPiece : startsPiece c = false := by
      have notSingle : c ∉ singleChars := fun mem => by
        simpa [single] using ofSingle?_isSome mem
      have notCompound : c ∉ compoundChars := fun mem => by
        simpa [compound] using ofCompound?_isSome mem
      simp only [startsPiece, isSeparator, isQuote]
      simp_all
    exact ⟨[], c, rest, rfl, .here _, rfl, .inr ⟨noPiece, rfl⟩⟩

end Soundness

/-- Lexing fails exactly on the texts that do not split into gaps and longest tokens. When it
fails, the reading of the text is stuck for good at one character, after a part that does
split: a quote that no later quote of its kind closes, reported as an unterminated string,
or a character that starts no piece, reported as unexpected; either way at the line of that
character, one more than the line feeds before it. -/
theorem tokenize_fails_exactly_where_stuck (source : String) :
    ((∃ error, tokenize source = .error error) ↔ ¬ Lexes source.toList) ∧
    ∀ error, tokenize source = .error error →
      ∃ before c after, source.toList = before ++ c :: after ∧
        Reaches source.toList (c :: after) ∧ error.line = 1 + before.count '\n' ∧
        ((isQuote c ∧ c ∉ after ∧ error.message = "unterminated string literal") ∨
          (startsPiece c = false ∧
            error.message = "unexpected character: " ++ Text.quoted (String.singleton c))) := by
  refine ⟨⟨?_, ?_⟩, ?_⟩
  · rintro ⟨error, failed⟩ lexes
    obtain ⟨tokens, ok⟩ := tokenizeFrom_ok_of_reaches lexes (fun line => ⟨_, tokenizeFrom_nil line⟩) 1
    rw [tokenize, ok] at failed
    cases failed
  · intro notLexes
    cases result : tokenize source with
    | error error => exact ⟨error, rfl⟩
    | ok tokens => exact absurd (lexes_of_tokenizeFrom result) notLexes
  · intro error failed
    obtain ⟨before, c, after, split, reaches, line, kind⟩ := stuckAt_of_tokenizeFrom failed
    refine ⟨before, c, after, split, reaches, line, ?_⟩
    rcases kind with ⟨quote, outside, unterminated⟩ | ⟨noPiece, unexpected⟩
    · exact .inl ⟨quote, outside, by rw [unterminated]; rfl⟩
    · exact .inr ⟨noPiece, by rw [unexpected]; rfl⟩

/-- A string left open on the second line is reported on the second line, not on the third,
where the scan for its closing quote ends. -/
theorem unclosed_quote_reported_at_its_line :
    tokenize "a\n'b\nc" = .error (.unterminatedString 2) ∧
      ∃ before c after, "a\n'b\nc".toList = before ++ c :: after ∧
        Reaches "a\n'b\nc".toList (c :: after) ∧
        (LexicalError.unterminatedString 2).line = 1 + before.count '\n' ∧
        ((isQuote c ∧ c ∉ after ∧
            (LexicalError.unterminatedString 2).message = "unterminated string literal") ∨
          (startsPiece c = false ∧ (LexicalError.unterminatedString 2).message =
            "unexpected character: " ++ Text.quoted (String.singleton c))) :=
  have failed : tokenize "a\n'b\nc" = .error (.unterminatedString 2) := by cbv
  ⟨failed, (tokenize_fails_exactly_where_stuck _).2 _ failed⟩

end VieCompiler
