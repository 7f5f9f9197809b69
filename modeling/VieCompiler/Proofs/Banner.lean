import VieCompiler.Proofs.Confinement
import VieCompiler.Proofs.LexicalGrammar
import VieCompiler.Compile

/-!
# A syntax error's banner points at its token

The banner of a syntax error (`Diagnostic.render`) shows the source line that the error's
token is on, and carets under the first place where the token's text, trimmed of blanks,
occurs on that line. Two separate pieces of code have to agree for the carets to point at
the token: the lexer, which counts line feeds as it reads, and the banner, which splits the
source at its line feeds afresh.

They agree on every source (`Program.ofSourceAt_syntaxError_underlined`). Every token the
lexer reads stands on one of the source's lines, and its text, unless it holds a line feed
(a string that runs across lines), is part of that line (`tokenize_placed`). The parser
reports a syntax error at one of the tokens it was given (`Parser.parse_reads_within`). So
the line shown is a line of the source, never the empty line shown for a line number out of
range, and the carets stand under an occurrence of the trimmed text, never at the first
column for want of one.
-/

namespace VieCompiler

/-- The line of `chars` numbered `index`, counted from 0: the piece after `index` line
feeds, or the empty line when there are fewer. -/
def lineOf (chars : List Char) (index : Nat) : List Char :=
  ((Diagnostic.splitOn '\n' chars)[index]?).getD []

section Lines

variable {c : Char} {chars : List Char}

theorem splitOn_newline_ne_nil (chars : List Char) : Diagnostic.splitOn '\n' chars ≠ [] := by
  intro empty
  have pieces := Diagnostic.length_splitOn '\n' chars
  rw [empty] at pieces
  cases pieces

@[simp]
theorem lineOf_newline_zero : lineOf ('\n' :: chars) 0 = [] := by
  simp [lineOf, Diagnostic.splitOn]

@[simp]
theorem lineOf_newline_succ (index : Nat) : lineOf ('\n' :: chars) (index + 1) = lineOf chars index := by
  simp [lineOf, Diagnostic.splitOn]

theorem lineOf_cons_zero (other : c ≠ '\n') : lineOf (c :: chars) 0 = c :: lineOf chars 0 := by
  cases pieces : Diagnostic.splitOn '\n' chars with
  | nil => exact absurd pieces (splitOn_newline_ne_nil chars)
  | cons piece pieces' => simp [lineOf, Diagnostic.splitOn, other, pieces]

theorem lineOf_cons_succ (other : c ≠ '\n') (index : Nat) :
    lineOf (c :: chars) (index + 1) = lineOf chars (index + 1) := by
  cases pieces : Diagnostic.splitOn '\n' chars with
  | nil => exact absurd pieces (splitOn_newline_ne_nil chars)
  | cons piece pieces' => simp [lineOf, Diagnostic.splitOn, other, pieces]

/-- A character other than a line feed in front of a text only lengthens the text's first
line. -/
theorem lineOf_infix_cons (other : c ≠ '\n') (index : Nat) :
    lineOf chars index <:+: lineOf (c :: chars) index := by
  cases index with
  | zero =>
    rw [lineOf_cons_zero other]
    exact (List.suffix_cons c _).isInfix
  | succ index => simp only [lineOf_cons_succ other, List.infix_refl]

/-- A line of `post` is part of the line of `pre ++ post` that comes as many lines later as
`pre` has line feeds. -/
theorem lineOf_append (pre post : List Char) (index : Nat) :
    lineOf post index <:+: lineOf (pre ++ post) (pre.count '\n' + index) := by
  induction pre with
  | nil => simp
  | cons c pre ih =>
    by_cases newline : c = '\n'
    · subst newline
      have shifted : ('\n' :: pre).count '\n' + index = pre.count '\n' + index + 1 := by
        simp only [List.count_cons_self]
        omega
      rw [shifted, List.cons_append, lineOf_newline_succ]
      exact ih
    · rw [List.cons_append, List.count_cons_of_ne newline]
      exact ih.trans (lineOf_infix_cons newline _)

/-- A text without line feeds at the start of `chars` is part of its first line. -/
theorem prefix_lineOf_zero {text : List Char} (oneLine : '\n' ∉ text) (starts : text <+: chars) :
    text <+: lineOf chars 0 := by
  induction text generalizing chars with
  | nil => exact List.nil_prefix
  | cons d text ih =>
    obtain ⟨rest, rfl⟩ := starts
    have other : d ≠ '\n' := fun same => oneLine (same ▸ List.mem_cons_self)
    rw [List.cons_append, lineOf_cons_zero other]
    exact List.prefix_cons_inj d |>.mpr
      (ih (fun mem => oneLine (List.mem_cons_of_mem d mem)) (List.prefix_append text rest))

end Lines

/-- Where the lexer, reading `chars` from line `line` on, may put the token `t`: on one of
the lines of `chars`, and, when the token's text holds no line feed, with that text part of
its line. -/
structure Placed (line : Nat) (chars : List Char) (t : Token) : Prop where
  /-- The token is on the first line or later. -/
  from_start : line ≤ t.line
  /-- The token is on the last line or earlier. -/
  to_end : t.line ≤ line + chars.count '\n'
  /-- The token's text, when it stays on one line, is part of the token's line. -/
  on_line : '\n' ∉ t.lexeme.toList → t.lexeme.toList <:+: lineOf chars (t.line - line)

section Placement

variable {line : Nat} {t : Token}

/-- A token placed in what follows `pre` is placed in the whole text, `pre`'s line feeds
later. -/
theorem Placed.after (pre : List Char) {line' : Nat} {post : List Char}
    (placed : Placed line' post t) (lines : line' = line + pre.count '\n') :
    Placed line (pre ++ post) t := by
  subst lines
  have start := placed.from_start
  refine ⟨by omega, ?_, fun oneLine => ?_⟩
  · have last := placed.to_end
    rw [List.count_append]
    omega
  · have shifted : pre.count '\n' + (t.line - (line + pre.count '\n')) = t.line - line := by
      omega
    rw [← shifted]
    exact (placed.on_line oneLine).trans (lineOf_append pre post _)

/-- A token on the first line, whose text, when it stays on one line, is part of a text
without line feeds at the start of `chars`. -/
theorem placed_first {chars : List Char} (onLine : t.line = line)
    (within : '\n' ∉ t.lexeme.toList →
      ∃ text, t.lexeme.toList <:+: text ∧ text <+: chars ∧ '\n' ∉ text) :
    Placed line chars t := by
  refine ⟨onLine.ge, by omega, fun oneLine => ?_⟩
  obtain ⟨text, inText, starts, textOneLine⟩ := within oneLine
  rw [onLine, Nat.sub_self]
  exact inText.trans (prefix_lineOf_zero textOneLine starts).isInfix

/-- A token on the first line spelled by the characters `pre` that the lexer reads for it. -/
theorem placed_spelled {pre post : List Char} (onLine : t.line = line)
    (spelled : t.lexeme.toList = pre) : Placed line (pre ++ post) t :=
  placed_first onLine fun oneLine =>
    ⟨pre, spelled ▸ List.infix_refl _, List.prefix_append pre post, spelled ▸ oneLine⟩

/-- The lexer's step that reads `pre`, makes the token `tok` from it and goes on with
`post`. -/
theorem placed_of_map (pre post : List Char) {tok : Token} {tokens : List Token}
    {x : Except LexicalError (List Token)} (h : (tok :: ·) <$> x = .ok tokens)
    (head : Placed line (pre ++ post) tok)
    (tail : ∀ more, x = .ok more → ∀ t ∈ more, Placed (line + pre.count '\n') post t) :
    ∀ t ∈ tokens, Placed line (pre ++ post) t := by
  cases x with
  | error e => cases h
  | ok more =>
    cases h
    exact List.forall_mem_cons.mpr ⟨head, fun t mem => (tail more rfl t mem).after pre rfl⟩

theorem count_newline_takeWhile (chars : List Char) :
    (chars.takeWhile (· != '\n')).count '\n' = 0 :=
  List.count_eq_zero.mpr fun mem => by simpa using List.mem_takeWhile_imp mem

/-- A number or a word holds no line feed. -/
theorem count_newline_word {c : Char} {rest : List Char} {p : Char → Bool} (first : isWordChar c)
    (words : ∀ d, p d → isWordChar d) : (c :: rest.takeWhile p).count '\n' = 0 :=
  count_newline_eq_zero fun d mem => by
    rcases List.mem_cons.mp mem with rfl | mem
    · exact first
    · exact words d (List.mem_takeWhile_imp mem)

@[simp]
theorem Token.ofWord_lexeme (word : String) (line : Nat) : (Token.ofWord word line).lexeme = word := by
  unfold Token.ofWord
  split <;> rfl

@[simp]
theorem Token.ofWord_line (word : String) (line : Nat) : (Token.ofWord word line).line = line := by
  unfold Token.ofWord
  split <;> rfl

/-- Every token the lexer reads from `chars`, starting on line `line`, is placed in
`chars`: each step reads a token from the characters in front of it, on the line it is at,
and goes on with the line feeds it passed counted. -/
theorem tokenizeFrom_placed {chars : List Char} {tokens : List Token}
    (h : tokenizeFrom line chars = .ok tokens) : ∀ t ∈ tokens, Placed line chars t := by
  fun_induction tokenizeFrom line chars generalizing tokens with
  | case1 line =>
    cases h
    exact List.forall_mem_singleton.mpr (placed_first rfl fun _ => ⟨[], by simp, List.nil_prefix, by simp⟩)
  | case2 line rest ih => exact fun t mem => (ih h t mem).after ['\n'] (by simp)
  | case3 line c rest newline _ ih => exact fun t mem => (ih h t mem).after [c] (by simp [newline])
  | case4 line rest _ _ ih =>
    -- a comment: everything up to the next line feed is passed
    rw [← List.takeWhile_append_dropWhile (p := (· != '\n')) (l := rest), ← List.cons_append]
    exact fun t mem => (ih h t mem).after _ (by simp [count_newline_takeWhile])
  | case5 line c rest newline _ _ kind found ih =>
    exact placed_of_map [c] rest h (placed_spelled rfl (by simp)) fun _ => by
      simpa [newline] using ih
  | case6 line c rest newline _ _ _ withEqual alone found equal ih =>
    cases rest with
    | nil => cases equal
    | cons next after =>
      cases equal
      exact placed_of_map [c, '='] after h (placed_spelled rfl (by simp)) fun _ => by
        simpa [newline] using ih
  | case7 line c rest newline _ _ _ withEqual alone found notEqual ih =>
    exact placed_of_map [c] rest h (placed_spelled rfl (by simp)) fun _ => by
      simpa [newline] using ih
  | case8 => cases h
  | case9 line c rest newline _ _ _ _ isString body close after closed =>
    rename_i ih
    obtain ⟨closeIs, split⟩ := split_of_closed closed
    subst closeIs
    have quoteOther : close ≠ '\n' := by rcases isString with rfl | rfl <;> decide
    -- the body is read on the quote's line, and can run on to later ones
    have head : Placed line (close :: rest) ⟨.string, String.ofList body, line⟩ :=
      placed_first rfl fun oneLine => by
        have inBody : '\n' ∉ body := by simpa using oneLine
        refine ⟨close :: body, by simpa using (List.suffix_cons close body).isInfix, ?_, ?_⟩
        · exact List.prefix_cons_inj close |>.mpr (List.takeWhile_prefix _)
        · simp only [List.mem_cons, not_or]
          exact ⟨Ne.symm quoteOther, inBody⟩
    have read : close :: rest = (close :: body ++ [close]) ++ after := by
      conv => lhs; rw [split]
      simp [body]
    rw [read] at head ⊢
    exact placed_of_map _ after h head fun _ => by simpa [quoteOther] using ih
  | case10 line c rest _ _ _ _ _ _ isDigit ih =>
    rw [← List.takeWhile_append_dropWhile (p := Char.isDigit) (l := rest), ← List.cons_append]
    have digits : (c :: rest.takeWhile Char.isDigit).count '\n' = 0 :=
      count_newline_word (isWordChar_of_isDigit isDigit) fun _ => isWordChar_of_isDigit
    exact placed_of_map _ _ h (placed_spelled rfl (by simp)) fun _ => by simpa [digits] using ih
  | case11 line c rest _ _ _ _ _ _ _ isStart ih =>
    rw [← List.takeWhile_append_dropWhile (p := isWordChar) (l := rest), ← List.cons_append]
    have letters : (c :: rest.takeWhile isWordChar).count '\n' = 0 :=
      count_newline_word (isWordChar_of_isWordStart isStart) fun _ word => word
    exact placed_of_map _ _ h (placed_spelled (by simp) (by simp)) fun _ => by
      simpa [letters] using ih
  | case12 => cases h

theorem endsAtEof_of_map {tok : Token} {tokens : List Token}
    {x : Except LexicalError (List Token)} (h : (tok :: ·) <$> x = .ok tokens)
    (tail : ∀ more, x = .ok more → EndsAtEof more) : EndsAtEof tokens := by
  cases x with
  | error e => cases h
  | ok more =>
    cases h
    exact (tail more rfl).cons

/-- The lexer ends every list of tokens with an end-of-input token. -/
theorem tokenizeFrom_endsAtEof {chars : List Char} {tokens : List Token}
    (h : tokenizeFrom line chars = .ok tokens) : EndsAtEof tokens := by
  fun_induction tokenizeFrom line chars generalizing tokens with
  | case1 line =>
    cases h
    exact ⟨[], _, rfl, rfl⟩
  | case2 line rest ih => exact ih h
  | case3 line c rest _ _ ih => exact ih h
  | case4 line rest _ _ ih => exact ih h
  | case5 line c rest _ _ _ kind found ih => exact endsAtEof_of_map h fun _ => ih
  | case6 line c rest _ _ _ _ withEqual alone found equal ih =>
    exact endsAtEof_of_map h fun _ => ih
  | case7 line c rest _ _ _ _ withEqual alone found notEqual ih =>
    exact endsAtEof_of_map h fun _ => ih
  | case8 => cases h
  | case9 line c rest _ _ _ _ _ isString body close after closed =>
    rename_i ih
    exact endsAtEof_of_map h fun _ => ih
  | case10 line c rest _ _ _ _ _ _ isDigit ih => exact endsAtEof_of_map h fun _ => ih
  | case11 line c rest _ _ _ _ _ _ _ isStart ih => exact endsAtEof_of_map h fun _ => ih
  | case12 => cases h

end Placement

section Banner

/-- Text that occurs in a line has a first occurrence, where the line, from there on, starts
with the text. -/
theorem firstOccurrence_of_infix {pattern text : List Char} (occurs : pattern <:+: text) :
    ∃ column, Diagnostic.firstOccurrence pattern text = some column ∧
      pattern <+: text.drop column := by
  induction text with
  | nil =>
    obtain rfl : pattern = [] := List.eq_nil_of_infix_nil occurs
    exact ⟨0, rfl, List.nil_prefix⟩
  | cons c rest ih =>
    by_cases here : pattern <+: c :: rest
    · refine ⟨0, ?_, here⟩
      simp [Diagnostic.firstOccurrence, List.isPrefixOf_iff_prefix.mpr here]
    · have later : pattern <:+: rest := (List.infix_cons_iff.mp occurs).resolve_left here
      obtain ⟨column, found, there⟩ := ih later
      refine ⟨column + 1, ?_, there⟩
      have notHere : pattern.isPrefixOf (c :: rest) = false :=
        Bool.eq_false_iff.mpr fun yes => here (List.isPrefixOf_iff_prefix.mp yes)
      simp [Diagnostic.firstOccurrence, notHere, found]

/-- Trimming keeps a middle part of the text. -/
theorem Text.trim_infix (s : String) : (Text.trim s).toList <:+: s.toList := by
  have front : s.toList.dropWhile Text.isBlank <:+ s.toList := List.dropWhile_suffix _
  have back := (List.dropWhile_suffix Text.isBlank
    (l := (s.toList.dropWhile Text.isBlank).reverse)).reverse
  rw [List.reverse_reverse] at back
  rw [Text.trim, String.toList_ofList]
  exact back.isInfix.trans front.isInfix

/-- The line the banner shows for a line number from 1 on. -/
theorem sourceLine_eq_lineOf (source : String) {line : Nat} (positive : 1 ≤ line) :
    Diagnostic.sourceLine source line = lineOf source.toList (line - 1) := by
  have notBelow : ¬((line : Int) < 1) := by omega
  have index : ((line : Int) - 1).toNat = line - 1 := by omega
  simp only [Diagnostic.sourceLine, notBelow, if_false, index, lineOf]

theorem Program.parse_of_ofTokensAt {active : Nat} {tokens : List Token} {error : ParseError}
    (failed : Program.ofTokensAt active tokens = .error (.parse error)) :
    Parser.parse (parseBudget active) tokens = .error (.error error) := by
  unfold Program.ofTokensAt at failed
  cases parsed : Parser.parse (parseBudget active) tokens with
  | ok program =>
    rw [parsed] at failed
    cases failed
  | error failure =>
    rw [parsed] at failed
    cases failure <;> cases failed
    rfl

/-- The banner of a syntax error points at the error's token on every source: the token is
on one of the source's lines, so the line shown is that line of the source; and when the
token's text stays on one line, the carets stand under the first occurrence of the trimmed
text on it, which exists. -/
theorem Program.ofSourceAt_syntaxError_underlined {active : Nat} {source : String}
    {error : ParseError} (failed : Program.ofSourceAt active source = .error (.parse error)) :
    1 ≤ error.token.line ∧ error.token.line ≤ (Diagnostic.splitOn '\n' source.toList).length ∧
      ('\n' ∉ error.token.lexeme.toList →
        ∃ column, Diagnostic.firstOccurrence (Text.trim error.token.lexeme).toList
            (Diagnostic.sourceLine source error.token.line) = some column ∧
          (Text.trim error.token.lexeme).toList <+:
            (Diagnostic.sourceLine source error.token.line).drop column) := by
  rw [Program.ofSourceAt] at failed
  cases lexed : tokenize source with
  | error lexical =>
    rw [lexed] at failed
    cases failed
  | ok tokens =>
    rw [lexed] at failed
    -- the error names a token of the list, and the lexer placed every token of it
    have mem := Parser.parse_error_token_mem (tokenizeFrom_endsAtEof lexed)
      (Program.parse_of_ofTokensAt failed)
    have placed := tokenizeFrom_placed lexed _ mem
    have lines := Diagnostic.length_splitOn '\n' source.toList
    refine ⟨placed.from_start, by have := placed.to_end; omega, fun oneLine => ?_⟩
    rw [sourceLine_eq_lineOf source placed.from_start]
    exact firstOccurrence_of_infix ((Text.trim_infix _).trans (placed.on_line oneLine))

/-- An unclosed condition is reported at the brace on the second line, which the banner
underlines there. -/
theorem unclosed_condition_underlined :
    Program.ofSourceAt requestDepth "cho a = 1\nnếu (a \x7b \x7d" =
        .error (.parse ⟨.conditionClose, ⟨.lbrace, "\x7b", 2⟩⟩) ∧
      1 ≤ 2 ∧ 2 ≤ (Diagnostic.splitOn '\n' "cho a = 1\nnếu (a \x7b \x7d".toList).length ∧
      ('\n' ∉ "\x7b".toList →
        ∃ column, Diagnostic.firstOccurrence (Text.trim "\x7b").toList
            (Diagnostic.sourceLine "cho a = 1\nnếu (a \x7b \x7d" 2) = some column ∧
          (Text.trim "\x7b").toList <+:
            (Diagnostic.sourceLine "cho a = 1\nnếu (a \x7b \x7d" 2).drop column) :=
  have failed : Program.ofSourceAt requestDepth "cho a = 1\nnếu (a \x7b \x7d" =
      .error (.parse ⟨.conditionClose, ⟨.lbrace, "\x7b", 2⟩⟩) := by
    cbv
  ⟨failed, Program.ofSourceAt_syntaxError_underlined failed⟩

end Banner

end VieCompiler
