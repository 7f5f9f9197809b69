import VieCompiler.Proofs.LexicalGrammar

/-!
# The tokens of the lexical grammar

`Lexical.Reaches` splits a text into gaps and token texts. `Lexical.Tokenizes line chars
tokens` says, on top of such a split, what each token text is as a token and on which line it
stands: reading `chars` from line `line` on, the token texts between the gaps are, in order,
the tokens `tokens`, and the end-of-input token follows them on the line the text ends on.
What a token text is as a token is fixed by the text alone (`Lexical.Spells`): an operator by
the lexer's tables, a lone `!` being a name; a string by what stands between its quotes; a run
of digits is a number, and a word a reserved word if it spells one and a name otherwise.

Every list of tokens that the lexer makes is such a reading of its source
(`tokenize_tokenizes`). So the source is its gaps and the texts of its tokens, each text the
longest that starts where it does; each token's kind is the one its text fixes; each token is
on the line that the line feeds before it give; and the end-of-input token, which no other
token is, stands last, on the line after the source's last line feed.
-/

namespace VieCompiler

namespace Lexical

/-- `Spells text line t`: the token text `text`, read on line `line`, is the token `t`. -/
inductive Spells : List Char → Nat → Token → Prop
  /-- A punctuation or arithmetic character, of the kind its table gives. -/
  | single {c : Char} {kind : Token.Kind} {line : Nat} :
      Token.Kind.ofSingle? c = some kind → Spells [c] line ⟨kind, String.singleton c, line⟩
  /-- An operator character with its `=`. -/
  | compound {c : Char} {withEqual alone : Token.Kind} {line : Nat} :
      Token.Kind.ofCompound? c = some (withEqual, alone) →
      Spells [c, '='] line ⟨withEqual, String.ofList [c, '='], line⟩
  /-- An operator character alone; a lone `!` is a name. -/
  | lone {c : Char} {withEqual alone : Token.Kind} {line : Nat} :
      Token.Kind.ofCompound? c = some (withEqual, alone) →
      Spells [c] line ⟨alone, String.singleton c, line⟩
  /-- A string: the text between its quotes. -/
  | string {quote : Char} {body : List Char} {line : Nat} :
      isQuote quote → Spells (quote :: body ++ [quote]) line ⟨.string, String.ofList body, line⟩
  /-- A run of digits. -/
  | number {digit : Char} {digits : List Char} {line : Nat} : digit.isDigit →
      (∀ d ∈ digits, d.isDigit) →
      Spells (digit :: digits) line ⟨.number, String.ofList (digit :: digits), line⟩
  /-- A word: a reserved word if it spells one, and a name otherwise. -/
  | word {first : Char} {letters : List Char} {line : Nat} : isWordStart first →
      (∀ d ∈ letters, isWordChar d) →
      Spells (first :: letters) line (Token.ofWord (String.ofList (first :: letters)) line)

/-- `Tokenizes line chars tokens`: reading `chars` from line `line` on, gap by gap and token
text by token text, gives `tokens`, ending with the end-of-input token. -/
inductive Tokenizes : Nat → List Char → List Token → Prop
  /-- The end of the text: the end-of-input token, on the line reached. -/
  | done (line : Nat) : Tokenizes line [] [⟨.eof, "", line⟩]
  /-- A line feed, after which the next line starts. -/
  | lineFeed {line : Nat} {chars : List Char} {tokens : List Token} :
      Tokenizes (line + 1) chars tokens → Tokenizes line ('\n' :: chars) tokens
  /-- A space, a tab or a carriage return. -/
  | blank {line : Nat} {c : Char} {chars : List Char} {tokens : List Token} :
      (c = ' ' ∨ c = '\t' ∨ c = '\r') → Tokenizes line chars tokens →
      Tokenizes line (c :: chars) tokens
  /-- A comment, up to the next line feed or the end. -/
  | comment {line : Nat} {body chars : List Char} {tokens : List Token} : '\n' ∉ body →
      (∀ c ∈ chars.head?, c = '\n') → Tokenizes line chars tokens →
      Tokenizes line ('#' :: (body ++ chars)) tokens
  /-- A token: the longest token text that starts here, as the token it spells on this
  line; the line feeds in it, which only a string can hold, count for what follows. -/
  | token {line : Nat} {text chars : List Char} {t : Token} {tokens : List Token} :
      Munch text chars → Spells text line t → Tokenizes (line + text.count '\n') chars tokens →
      Tokenizes line (text ++ chars) (t :: tokens)

end Lexical

open Lexical

section Kinds

variable {c : Char} {kind withEqual alone : Token.Kind}

theorem ofSingle?_ne_eof (found : Token.Kind.ofSingle? c = some kind) : kind ≠ .eof := by
  unfold Token.Kind.ofSingle? at found
  split at found <;> cases found <;> decide

theorem ofCompound?_ne_eof (found : Token.Kind.ofCompound? c = some (withEqual, alone)) :
    withEqual ≠ .eof ∧ alone ≠ .eof := by
  unfold Token.Kind.ofCompound? at found
  split at found <;> cases found <;> decide

theorem ofWord_kind_ne_eof (word : String) (line : Nat) : (Token.ofWord word line).kind ≠ .eof := by
  unfold Token.ofWord
  split <;> nofun

/-- No token text spells the end of input. -/
theorem Lexical.Spells.kind_ne_eof {text : List Char} {line : Nat} {t : Token} (spells : Spells text line t) :
    t.kind ≠ .eof := by
  cases spells with
  | single found => exact ofSingle?_ne_eof found
  | compound found => exact (ofCompound?_ne_eof found).1
  | lone found => exact (ofCompound?_ne_eof found).2
  | string => nofun
  | number => nofun
  | word => exact ofWord_kind_ne_eof _ _

end Kinds

/-- A reading ends with the end-of-input token, on the line after the last line feed, and no
token before it is one. -/
theorem Lexical.Tokenizes.ends {line : Nat} {chars : List Char} {tokens : List Token}
    (reads : Tokenizes line chars tokens) :
    ∃ body, tokens = body ++ [⟨.eof, "", line + chars.count '\n'⟩] ∧ ∀ t ∈ body, t.kind ≠ .eof := by
  induction reads with
  | done line => exact ⟨[], by simp, by simp⟩
  | @lineFeed line chars tokens _ ih =>
    obtain ⟨body, split, notEnd⟩ := ih
    refine ⟨body, ?_, notEnd⟩
    rw [split, List.count_cons_self, Nat.add_assoc, Nat.add_comm 1]
  | @blank line c chars tokens isBlank _ ih =>
    obtain ⟨body, split, notEnd⟩ := ih
    have other : c ≠ '\n' := by rcases isBlank with rfl | rfl | rfl <;> decide
    refine ⟨body, ?_, notEnd⟩
    rw [split, List.count_cons_of_ne other]
  | @comment line commentBody chars tokens inside _ _ ih =>
    obtain ⟨body, split, notEnd⟩ := ih
    refine ⟨body, ?_, notEnd⟩
    rw [split, List.count_cons_of_ne (by decide), List.count_append,
      List.count_eq_zero.mpr inside, Nat.zero_add]
  | @token line text chars t tokens _ spells _ ih =>
    obtain ⟨body, split, notEnd⟩ := ih
    refine ⟨t :: body, ?_, List.forall_mem_cons.mpr ⟨spells.kind_ne_eof, notEnd⟩⟩
    rw [split, List.count_append, Nat.add_assoc]
    rfl

/-- Every list of tokens that the lexer makes from `chars`, from line `line` on, is a reading
of `chars` by the lexical grammar: each step of the lexer reads a line feed, a blank, a
comment or the longest token text in front of it, as the token that text spells. -/
theorem tokenizeFrom_tokenizes {line : Nat} {chars : List Char} {tokens : List Token}
    (h : tokenizeFrom line chars = .ok tokens) : Tokenizes line chars tokens := by
  fun_induction tokenizeFrom line chars generalizing tokens with
  | case1 line =>
    cases h
    exact .done line
  | case2 line rest ih => exact .lineFeed (ih h)
  | case3 line c rest _ blank ih => exact .blank blank (ih h)
  | case4 line rest _ _ ih =>
    -- a comment runs up to the next line feed
    have inside : '\n' ∉ rest.takeWhile (· != '\n') := fun mem => by
      simpa using List.mem_takeWhile_imp mem
    have boundary : ∀ x ∈ (rest.dropWhile (· != '\n')).head?, x = '\n' := by
      intro x head
      simpa using head_dropWhile_stops rest x head
    rw [← List.takeWhile_append_dropWhile (p := (· != '\n')) (l := rest)]
    exact .comment inside boundary (ih h)
  | case5 line c rest newline _ _ kind found ih =>
    obtain ⟨more, h'⟩ := Except.exists_ok_of_map h
    rw [h'] at h
    cases h
    exact .token (.single (mem_singleChars_of_ofSingle? found)) (.single found)
      (by simpa [newline] using ih h')
  | case6 line c rest newline _ _ _ withEqual alone found equal ih =>
    cases rest with
    | nil => cases equal
    | cons next after =>
      cases equal
      obtain ⟨more, h'⟩ := Except.exists_ok_of_map h
      rw [h'] at h
      cases h
      exact .token (.compound (mem_compoundChars_of_ofCompound? found))
        (.compound found) (by simpa [newline] using ih h')
  | case7 line c rest newline _ _ _ withEqual alone found notEqual ih =>
    obtain ⟨more, h'⟩ := Except.exists_ok_of_map h
    rw [h'] at h
    cases h
    exact .token (.lone (mem_compoundChars_of_ofCompound? found) notEqual) (.lone found)
      (by simpa [newline] using ih h')
  | case8 => cases h
  | case9 line c rest _ _ _ _ _ isString body close after closed =>
    rename_i ih
    obtain ⟨more, h'⟩ := Except.exists_ok_of_map h
    rw [h'] at h
    cases h
    obtain ⟨closeIs, split⟩ := split_of_closed closed
    subst closeIs
    have quote : isQuote close := by simpa [isQuote] using isString
    have outside : close ∉ body := fun mem => by simpa using List.mem_takeWhile_imp mem
    have other : close ≠ '\n' := by rcases isString with rfl | rfl <;> decide
    have read : close :: rest = (close :: body ++ [close]) ++ after := by
      conv => lhs; rw [split]
      simp [body]
    rw [read]
    exact .token (.string quote outside) (.string quote) (by simpa [other] using ih h')
  | case10 line c rest _ _ _ _ _ _ isDigit ih =>
    obtain ⟨more, h'⟩ := Except.exists_ok_of_map h
    rw [h'] at h
    cases h
    have digits : ∀ d ∈ rest.takeWhile Char.isDigit, d.isDigit := fun _ mem =>
      List.mem_takeWhile_imp mem
    have noLineFeed : (c :: rest.takeWhile Char.isDigit).count '\n' = 0 :=
      count_newline_eq_zero fun d mem => by
        rcases List.mem_cons.mp mem with rfl | mem
        · exact isWordChar_of_isDigit isDigit
        · exact isWordChar_of_isDigit (digits d mem)
    have read : c :: rest = (c :: rest.takeWhile Char.isDigit) ++ rest.dropWhile Char.isDigit := by
      simp
    rw [read]
    exact .token (.number isDigit digits (head_dropWhile_stops rest)) (.number isDigit digits)
      (by simpa [noLineFeed] using ih h')
  | case11 line c rest _ _ _ _ _ _ _ isStart ih =>
    obtain ⟨more, h'⟩ := Except.exists_ok_of_map h
    rw [h'] at h
    cases h
    have letters : ∀ d ∈ rest.takeWhile isWordChar, isWordChar d := fun _ mem =>
      List.mem_takeWhile_imp mem
    have noLineFeed : (c :: rest.takeWhile isWordChar).count '\n' = 0 :=
      count_newline_eq_zero fun d mem => by
        rcases List.mem_cons.mp mem with rfl | mem
        · exact isWordChar_of_isWordStart isStart
        · exact letters d mem
    have read : c :: rest = (c :: rest.takeWhile isWordChar) ++ rest.dropWhile isWordChar := by
      simp
    rw [read]
    exact .token (.word isStart letters (head_dropWhile_stops rest)) (.word isStart letters)
      (by simpa [noLineFeed] using ih h')
  | case12 => cases h

/-- The lexer reads its source by the lexical grammar: the source is its gaps and the longest
token texts between them, each token is of the kind its text fixes and on the line of its
text, and the tokens end with the one end-of-input token, on the line after the source's last
line feed. -/
theorem tokenize_tokenizes {source : String} {tokens : List Token}
    (lexed : tokenize source = .ok tokens) :
    Tokenizes 1 source.toList tokens ∧
      ∃ body, tokens = body ++ [⟨.eof, "", 1 + source.toList.count '\n'⟩] ∧
        ∀ t ∈ body, t.kind ≠ .eof :=
  have reads := tokenizeFrom_tokenizes lexed
  ⟨reads, reads.ends⟩

/-- An assignment with a comment after it, on a line of its own. -/
theorem commented_assignment_tokenizes :
    tokenize "x = 1 # một\n" =
        .ok [⟨.ident, "x", 1⟩, ⟨.equal, "=", 1⟩, ⟨.number, "1", 1⟩, ⟨.eof, "", 2⟩] ∧
      Tokenizes 1 "x = 1 # một\n".toList
          [⟨.ident, "x", 1⟩, ⟨.equal, "=", 1⟩, ⟨.number, "1", 1⟩, ⟨.eof, "", 2⟩] ∧
        ∃ body, [⟨.ident, "x", 1⟩, ⟨.equal, "=", 1⟩, ⟨.number, "1", 1⟩, (⟨.eof, "", 2⟩ : Token)] =
            body ++ [⟨.eof, "", 1 + "x = 1 # một\n".toList.count '\n'⟩] ∧
          ∀ t ∈ body, t.kind ≠ .eof :=
  have lexed : tokenize "x = 1 # một\n" =
      .ok [⟨.ident, "x", 1⟩, ⟨.equal, "=", 1⟩, ⟨.number, "1", 1⟩, ⟨.eof, "", 2⟩] := by
    cbv
  ⟨lexed, tokenize_tokenizes lexed⟩

end VieCompiler
