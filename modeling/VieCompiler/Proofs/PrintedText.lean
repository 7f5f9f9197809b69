import VieCompiler.Proofs.SourcePrinter
import VieCompiler.Proofs.WellFormed
import VieCompiler.Proofs.LexicalGrammar
import Mathlib

/-!
# Reading printed text

`Program.print` writes the tokens of a program with a space between any two. The lexer reads
such a text back token by token: a space ends every written token, so each is the longest
token text at its place, and it is read as a token of its own kind and lexeme
(`Writable`, `tokenizeFrom_write`). Names, numbers and strings are written so only when they
have the shapes the lexer gives them (`Leaves.lexical`): a name is a lone `!` or a word that
spells no reserved word, and a string lacks one of the two quotes, which the printer then
puts around it. The numbers the printer writes are runs of digits in any case.

So the lexer reads the print of every program with such leaves back to the program's tokens,
followed by the end-of-input token (`Program.tokenize_print`). The lines it puts them on are
whatever the line feeds inside strings make them; the parser does not look at them.
-/

namespace VieCompiler

/-- A token's kind and lexeme, without its line. -/
def Token.spelling (t : Token) : Token.Kind × String :=
  (t.kind, t.lexeme)

open Lexical

/-- The tokens that the lexer reads back from how `Token.write` writes them, when a space or the
end of the text follows. -/
inductive Writable : Token.Kind × String → Prop
  /-- A punctuation or arithmetic character. -/
  | single {c : Char} {kind : Token.Kind} :
      Token.Kind.ofSingle? c = some kind → Writable (kind, String.singleton c)
  /-- An operator character with its `=`. -/
  | compound {c : Char} {withEqual alone : Token.Kind} :
      Token.Kind.ofCompound? c = some (withEqual, alone) →
      Writable (withEqual, String.ofList [c, '='])
  /-- An operator character alone; a lone `!` is a name. -/
  | lone {c : Char} {withEqual alone : Token.Kind} :
      Token.Kind.ofCompound? c = some (withEqual, alone) → Writable (alone, String.singleton c)
  /-- A string that lacks one of the two quotes. -/
  | string {s : String} : ('"' ∉ s.toList ∨ '\'' ∉ s.toList) → Writable (.string, s)
  /-- A run of digits. -/
  | number {digits : List Char} : digits ≠ [] → (∀ d ∈ digits, d.isDigit) →
      Writable (.number, String.ofList digits)
  /-- A word, as the reserved word it spells or as a name. -/
  | word {w : String} : isWord w.toList = true → Writable ((Token.ofWord w 0).kind, w)

section Writing

variable {c : Char} {kind withEqual alone : Token.Kind}

theorem ofSingle?_ne_string (found : Token.Kind.ofSingle? c = some kind) : kind ≠ .string := by
  unfold Token.Kind.ofSingle? at found
  split at found <;> cases found <;> decide

theorem ofCompound?_ne_string (found : Token.Kind.ofCompound? c = some (withEqual, alone)) :
    withEqual ≠ .string ∧ alone ≠ .string := by
  unfold Token.Kind.ofCompound? at found
  split at found <;> cases found <;> decide

/-- The token of a word is on the line it is read on, whatever its kind. -/
theorem Token.ofWord_eq (w : String) (line : Nat) :
    Token.ofWord w line = ⟨(Token.ofWord w 0).kind, w, line⟩ := by
  unfold Token.ofWord
  split <;> rfl

theorem ofWord_ne_string (w : String) : (Token.ofWord w 0).kind ≠ .string := by
  unfold Token.ofWord
  split <;> simp

/-- Every token but a string is written as its lexeme. -/
theorem Token.write_of_ne_string (s : String) (other : kind ≠ .string) :
    Token.write (kind, s) = s := by
  unfold Token.write
  split
  · rename_i same
    cases same
    exact absurd rfl other
  · rename_i same
    simp only [Prod.mk.injEq] at same
    exact same.2.symm

/-- A string is written between the quote it lacks, or the double quote if it lacks both. -/
theorem Token.write_string (s : String) :
    (Token.write (.string, s)).toList =
      (if '"' ∈ s.toList then '\'' else '"') ::
        (s.toList ++ [if '"' ∈ s.toList then '\'' else '"']) := by
  simp [Token.write]

/-- A written token, followed by a space or by nothing, is read back as itself; the lexer
goes on from the line after the line feeds in it. -/
theorem tokenizeFrom_write {tok : Token.Kind × String} (writable : Writable tok) (line : Nat)
    {chars : List Char} (blank : ∀ c ∈ chars.head?, c = ' ') :
    ∃ line', tokenizeFrom line ((Token.write tok).toList ++ chars) =
      (⟨tok.1, tok.2, line⟩ :: ·) <$> tokenizeFrom line' chars := by
  cases writable with
  | single found =>
    refine ⟨line, ?_⟩
    rw [Token.write_of_ne_string _ (ofSingle?_ne_string found), String.toList_singleton,
      List.singleton_append]
    exact tokenizeFrom_single line found
  | compound found =>
    refine ⟨line, ?_⟩
    rw [Token.write_of_ne_string _ (ofCompound?_ne_string found).1, String.toList_ofList,
      List.cons_append, List.singleton_append]
    exact tokenizeFrom_compound line found
  | lone found =>
    refine ⟨line, ?_⟩
    have noEqual : chars.head? ≠ some '=' := fun head => by
      have := blank '=' head
      contradiction
    rw [Token.write_of_ne_string _ (ofCompound?_ne_string found).2, String.toList_singleton,
      List.singleton_append]
    exact tokenizeFrom_lone line found noEqual
  | @string s oneQuote =>
    -- the quote put around the string is one that it lacks
    have outside : (if '"' ∈ s.toList then '\'' else '"') ∉ s.toList := by
      split
      · rename_i double
        exact oneQuote.resolve_left (not_not.mpr double)
      · assumption
    have isString : isQuote (if '"' ∈ s.toList then '\'' else '"') := by
      split <;> rfl
    refine ⟨line + s.toList.count '\n', ?_⟩
    rw [Token.write_string, List.cons_append, List.append_assoc, List.singleton_append,
      tokenizeFrom_string line isString outside, String.ofList_toList]
  | @number digits nonempty digitsAll =>
    obtain ⟨digit, more, rfl⟩ := List.exists_cons_of_ne_nil nonempty
    have boundary : ∀ d ∈ chars.head?, d.isDigit = false := by
      intro d head
      rw [blank d head]
      cbv
    refine ⟨line, ?_⟩
    rw [Token.write_of_ne_string _ (by decide), String.toList_ofList, List.cons_append]
    exact tokenizeFrom_number line (digitsAll digit List.mem_cons_self)
      (fun d mem => digitsAll d (List.mem_cons_of_mem _ mem)) boundary
  | @word w isW =>
    obtain ⟨first, letters, split⟩ : ∃ first letters, w.toList = first :: letters := by
      cases spelled : w.toList with
      | nil => simp [spelled, isWord] at isW
      | cons first letters => exact ⟨first, letters, rfl⟩
    simp only [isWord, split, Bool.and_eq_true, List.all_eq_true] at isW
    have boundary : ∀ d ∈ chars.head?, isWordChar d = false := by
      intro d head
      rw [blank d head]
      cbv
    refine ⟨line, ?_⟩
    rw [Token.write_of_ne_string _ (ofWord_ne_string w), split, List.cons_append,
      tokenizeFrom_word line isW.1 isW.2 boundary, ← split, String.ofList_toList,
      Token.ofWord_eq]

/-- Tokens written one after another with a space between any two are read back as
themselves, followed by the end-of-input token. -/
theorem tokenizeFrom_intercalate :
    ∀ (toks : List (Token.Kind × String)), (∀ tok ∈ toks, Writable tok) → ∀ line,
      ∃ ts last, tokenizeFrom line (" ".intercalate (toks.map Token.write)).toList =
        .ok (ts ++ [⟨.eof, "", last⟩]) ∧ ts.map Token.spelling = toks
  | [], _, line => ⟨[], line, by simp [tokenizeFrom_nil], rfl⟩
  | [tok], writable, line => by
    obtain ⟨line', step⟩ :=
      @tokenizeFrom_write _ (writable tok List.mem_cons_self) line [] (by simp)
    refine ⟨[⟨tok.1, tok.2, line⟩], line', ?_, rfl⟩
    rw [List.map_singleton, String.intercalate_singleton, ← List.append_nil (String.toList _),
      step, tokenizeFrom_nil]
    rfl
  | tok :: tok' :: more, writable, line => by
    have later : ∀ t ∈ tok' :: more, Writable t := fun t mem =>
      writable t (List.mem_cons_of_mem _ mem)
    obtain ⟨line', step⟩ := @tokenizeFrom_write _ (writable tok List.mem_cons_self) line
      (' ' :: (" ".intercalate ((tok' :: more).map Token.write)).toList) (by simp)
    obtain ⟨ts, last, read, spelled⟩ := tokenizeFrom_intercalate (tok' :: more) later line'
    have space := @tokenizeFrom_separator line'
      (" ".intercalate ((tok' :: more).map Token.write)).toList ' ' rfl
    refine ⟨⟨tok.1, tok.2, line⟩ :: ts, last, ?_, by simp [spelled, Token.spelling]⟩
    rw [List.map_cons, List.map_cons, String.intercalate_cons_cons, ← List.map_cons,
      String.toList_append,
      String.toList_append, List.append_assoc, show (" " : String).toList = [' '] from rfl,
      List.singleton_append, step, space, List.count_singleton, if_neg (by decide), Nat.add_zero,
      read]
    rfl

end Writing

/-- Every token of the list can be written and read back. -/
def AllWritable (tokens : List (Token.Kind × String)) : Prop :=
  ∀ tok ∈ tokens, Writable tok

namespace AllWritable

variable {tokens more : List (Token.Kind × String)} {tok : Token.Kind × String}

theorem nil : AllWritable [] := nofun

theorem cons (head : Writable tok) (tail : AllWritable tokens) : AllWritable (tok :: tokens) :=
  List.forall_mem_cons.mpr ⟨head, tail⟩

theorem append (front : AllWritable tokens) (back : AllWritable more) :
    AllWritable (tokens ++ more) :=
  List.forall_mem_append.mpr ⟨front, back⟩

theorem parenthesized (needed : Prop) [Decidable needed] (inner : AllWritable tokens) :
    AllWritable (VieCompiler.parenthesized needed tokens) := by
  unfold VieCompiler.parenthesized
  split
  · exact cons (.single (c := '(') rfl) (inner.append (cons (.single (c := ')') rfl) nil))
  · exact inner

end AllWritable

section Tokens

theorem Writable.keyword (k : Keyword) : Writable k.token := by
  have word := Writable.word (w := k.spelling) (by cases k <;> cbv)
  have kind : (Token.ofWord k.spelling 0).kind = .keyword k := by
    cases k <;> rfl
  rwa [kind] at word

/-- A name of the lexer's shape is written as itself. -/
theorem Writable.name {n : String} (named : Leaves.lexical.name n) : Writable (.ident, n) := by
  rcases named with rfl | ⟨isW, notKeyword⟩
  · exact .lone (c := '!') rfl
  · have word := Writable.word isW
    have kind : (Token.ofWord n 0).kind = .ident := by
      simp [Token.ofWord, notKeyword]
    rwa [kind] at word

theorem Writable.binaryOp (op : BinaryOp) : Writable op.token := by
  cases op
  case logicalOr => exact .keyword .hoac
  case logicalAnd => exact .keyword .va
  case equal => exact .compound (c := '=') rfl
  case notEqual => exact .compound (c := '!') rfl
  case less => exact .lone (c := '<') rfl
  case lessEqual => exact .compound (c := '<') rfl
  case greater => exact .lone (c := '>') rfl
  case greaterEqual => exact .compound (c := '>') rfl
  case add => exact .single (c := '+') rfl
  case sub => exact .single (c := '-') rfl
  case mul => exact .single (c := '*') rfl
  case div => exact .single (c := '/') rfl

/-- The numeral of every double is a nonempty run of digits. -/
theorem Binary64.wholeDigits_digits (v : Binary64) :
    v.wholeDigits ≠ [] ∧ ∀ d ∈ v.wholeDigits, d.isDigit := by
  unfold Binary64.wholeDigits
  split
  · exact ⟨Nat.toDigits_ne_nil, fun d mem => Nat.isDigit_of_mem_toDigits (by decide) le_rfl mem⟩
  · refine ⟨List.cons_ne_nil _ _, fun d mem => ?_⟩
    rcases List.mem_cons.mp mem with rfl | mem
    · rfl
    · rw [List.eq_of_mem_replicate mem]
      rfl

theorem Writable.numeral (v : Binary64) : Writable (.number, String.ofList v.wholeDigits) :=
  .number (Binary64.wholeDigits_digits v).1 (Binary64.wholeDigits_digits v).2

mutual

/-- The tokens of an expression with leaves of the lexer's shapes can be written. -/
theorem Expr.allWritable_printed :
    (e : Expr) → e.WellFormed Leaves.lexical → AllWritable e.printed
  | .ident _, named => .cons (.name named) .nil
  | .self, _ => .cons (.keyword .self) .nil
  | .number value, _ => .cons (.numeral value) .nil
  | .string _, oneQuote => .cons (.string oneQuote) .nil
  | .bool true, _ => .cons (.keyword .dung) .nil
  | .bool false, _ => .cons (.keyword .sai) .nil
  | .null, _ => .cons (.keyword .rong) .nil
  | .array elements, good =>
    .cons (.single (c := '[') rfl) ((Expr.allWritable_printedList elements good).append
      (.cons (.single (c := ']') rfl) .nil))
  | .binary left op right, ⟨goodLeft, goodRight⟩ =>
    (AllWritable.parenthesized _ (Expr.allWritable_printed left goodLeft)).append
      (.cons (.binaryOp op) (.parenthesized _ (Expr.allWritable_printed right goodRight)))
  | .field object _, ⟨goodObject, named⟩ =>
    (AllWritable.parenthesized _ (Expr.allWritable_printed object goodObject)).append
      (.cons (.single (c := '.') rfl) (.cons (.name named) .nil))
  | .index object key, ⟨goodObject, goodKey⟩ =>
    ((AllWritable.parenthesized _ (Expr.allWritable_printed object goodObject)).append
      (.cons (.single (c := '[') rfl) (Expr.allWritable_printed key goodKey))).append
      (.cons (.single (c := ']') rfl) .nil)
  | .assign target value, ⟨_, goodTarget, goodValue⟩ =>
    (AllWritable.parenthesized _ (Expr.allWritable_printed target goodTarget)).append
      (.cons (.lone (c := '=') rfl) (Expr.allWritable_printed value goodValue))
  | .call callee args, ⟨goodCallee, goodArgs⟩ =>
    ((AllWritable.parenthesized _ (Expr.allWritable_printed callee goodCallee)).append
      (.cons (.single (c := '(') rfl) (Expr.allWritable_printedList args goodArgs))).append
      (.cons (.single (c := ')') rfl) .nil)
  | .new _ args, ⟨named, goodArgs⟩ =>
    .cons (.keyword .moi) (.cons (.name named) (.cons (.single (c := '(') rfl)
      ((Expr.allWritable_printedList args goodArgs).append (.cons (.single (c := ')') rfl) .nil))))

theorem Expr.allWritable_printedList :
    (es : List Expr) → Expr.ListWellFormed Leaves.lexical es → AllWritable (Expr.printedList es)
  | [], _ => .nil
  | e :: es, ⟨good, rest⟩ =>
    (Expr.allWritable_printed e good).append (Expr.allWritable_printedMore es rest)

theorem Expr.allWritable_printedMore :
    (es : List Expr) → Expr.ListWellFormed Leaves.lexical es → AllWritable (Expr.printedMore es)
  | [], _ => .nil
  | e :: es, ⟨good, rest⟩ =>
    .cons (.single (c := ',') rfl)
      ((Expr.allWritable_printed e good).append (Expr.allWritable_printedMore es rest))

end

theorem allWritable_printedParams :
    (params : List String) → (∀ p ∈ params, Leaves.lexical.name p) →
      AllWritable (printedParams params)
  | [], _ => .nil
  | p :: ps, named => by
    refine .cons (.name (named p List.mem_cons_self)) ?_
    intro tok mem
    obtain ⟨q, listed, pair⟩ := List.mem_flatMap.mp mem
    have namedQ := named q (List.mem_cons_of_mem _ listed)
    rcases List.mem_pair.mp pair with rfl | rfl
    · exact .single (c := ',') rfl
    · exact .name namedQ

mutual

/-- The tokens of a statement with leaves of the lexer's shapes can be written. -/
theorem Stmt.allWritable_printed :
    (s : Stmt) → s.WellFormed Leaves.lexical → AllWritable s.printed
  | .expr value, good => Expr.allWritable_printed value good
  | .letDecl _ value, ⟨named, good⟩ =>
    .cons (.keyword .cho) (.cons (.name named) (.cons (.lone (c := '=') rfl)
      (Expr.allWritable_printed value good)))
  | .function definition, good =>
    .cons (.keyword .ham) (Stmt.allWritable_printedRoutine definition good)
  | .classDecl _ methods, ⟨named, good⟩ =>
    .cons (.keyword .lop) (.cons (.name named) (.cons (.single (c := '\x7b') rfl)
      ((Stmt.allWritable_printedMethods methods good).append
        (.cons (.single (c := '\x7d') rfl) .nil))))
  | .ret value, good => .cons (.keyword .traVe) (Expr.allWritable_printed value good)
  | .block body, good =>
    .cons (.single (c := '\x7b') rfl) ((Stmt.allWritable_printedList body good).append
      (.cons (.single (c := '\x7d') rfl) .nil))
  | .ifElse test consequent none, ⟨tested, good⟩ =>
    .cons (.keyword .neu) (.cons (.single (c := '(') rfl)
      ((Expr.allWritable_printed test tested).append (.cons (.single (c := ')') rfl)
        (Stmt.allWritable_printed consequent good))))
  | .ifElse test consequent (some alternate), ⟨tested, good, otherwise⟩ =>
    ((AllWritable.cons (.keyword .neu) (.cons (.single (c := '(') rfl)
      (Expr.allWritable_printed test tested))).append (.cons (.single (c := ')') rfl)
        (Stmt.allWritable_printed consequent good))).append
      (.cons (.keyword .nguocLai) (Stmt.allWritable_printed alternate otherwise))
  | .whileLoop test body, ⟨tested, good⟩ =>
    .cons (.keyword .khi) (.cons (.single (c := '(') rfl)
      ((Expr.allWritable_printed test tested).append (.cons (.single (c := ')') rfl)
        (Stmt.allWritable_printed body good))))
  | .forEach _ collection body, ⟨named, listed, good⟩ =>
    .cons (.keyword .voiMoi) (.cons (.single (c := '(') rfl) (.cons (.name named)
      (.cons (.keyword .trong) ((Expr.allWritable_printed collection listed).append
        (.cons (.single (c := ')') rfl) (Stmt.allWritable_printed body good))))))

theorem Stmt.allWritable_printedList :
    (ss : List Stmt) → Stmt.ListWellFormed Leaves.lexical ss → AllWritable (Stmt.printedList ss)
  | [], _ => .nil
  | s :: ss, ⟨good, rest⟩ =>
    (Stmt.allWritable_printed s good).append (Stmt.allWritable_printedList ss rest)

theorem Stmt.allWritable_printedRoutine :
    (definition : FunctionDef Stmt) → Stmt.RoutineWellFormed Leaves.lexical definition →
      AllWritable (Stmt.printedRoutine definition)
  | ⟨_, params, body⟩, ⟨named, paramsNamed, good⟩ =>
    ((AllWritable.cons (.name named) (.cons (.single (c := '(') rfl)
      (allWritable_printedParams params paramsNamed))).append (.cons (.single (c := ')') rfl)
        (.cons (.single (c := '\x7b') rfl) (Stmt.allWritable_printedList body good)))).append
      (.cons (.single (c := '\x7d') rfl) .nil)

theorem Stmt.allWritable_printedMethods :
    (methods : List (FunctionDef Stmt)) → Stmt.MethodsWellFormed Leaves.lexical methods →
      AllWritable (Stmt.printedMethods methods)
  | [], _ => .nil
  | m :: ms, ⟨good, rest⟩ =>
    .cons (.keyword .ham) ((Stmt.allWritable_printedRoutine m good).append
      (Stmt.allWritable_printedMethods ms rest))

end

end Tokens

/-- The lexer reads the print of a program whose leaves have the lexer's shapes back to the
program's tokens, followed by the end-of-input token. -/
theorem Program.tokenize_print {program : Program}
    (lexical : Stmt.ListWellFormed Leaves.lexical program.body) :
    ∃ ts last, tokenize program.print = .ok (ts ++ [⟨.eof, "", last⟩]) ∧
      ts.map Token.spelling = program.printed :=
  tokenizeFrom_intercalate program.printed (Stmt.allWritable_printedList _ lexical) 1

end VieCompiler
