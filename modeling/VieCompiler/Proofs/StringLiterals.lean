import VieCompiler.Proofs.Script.Reading
import VieCompiler.Proofs.LexicalGrammar
import VieCompiler.Code.Emit

/-!
# String literals of generated code

A Vie string has no escapes, and generated code writes it between double quotes with a
backslash before each double quote in it (`quoteString`). Read back as an ECMAScript string
literal (`Script.lex`) or decoded by a strict JSON decoder (`Json.stringText?`), the literal
gives back the string exactly when nothing else in it means something to the reader: for
ECMAScript no backslash, which starts an escape sequence, and no line feed or carriage return,
which may not stand in a string literal (`lex_quoteString_iff`); for JSON no backslash and no
control character below U+0020 (`stringText?_quoteString_iff`).

The converse rests on a budget. An escape sequence takes at least two characters and stands
for at most one, so a reader that gives back `n` characters, counting twice the ones that
cannot stand for themselves, has read at least `n` characters and the closing quote
(`Script.stringBody_budget`, `Json.stringBody_budget`). The literal of a string has room for
no escapes but the ones before its double quotes, so none of its characters can need one.

Vie's own lexer reads the literal back as the string exactly when the string has no double
quote (`tokenize_quoteString_iff`). The lexer knows no escapes: it ends the string at the first
double quote, the one after the backslash that was meant to protect it, and reads the
backslash as text.
-/

namespace VieCompiler

namespace Json

/-- The character that a JSON escape sequence stands for, after its backslash, for the escapes
other than `\u`. -/
def singleEscape? : Char → Option Char
  | '"' => some '"'
  | '\\' => some '\\'
  | '/' => some '/'
  | 'b' => some '\x08'
  | 'f' => some '\x0c'
  | 'n' => some '\n'
  | 'r' => some '\r'
  | 't' => some '\t'
  | _ => none

/-- The value of a JSON string whose opening quote has been read, and the characters after
its closing quote, as a strict decoder reads it: a control character below U+0020, an unknown
escape or a missing closing quote make it fail. A `\u` escape takes four hexadecimal digits;
one that spells a surrogate is not read. -/
def stringBody : List Char → Option (List Char × List Char)
  | [] => none
  | '"' :: rest => some ([], rest)
  | '\\' :: 'u' :: rest =>
    if rest.length < 4 then none
    else (Script.hexChar? (rest.take 4)).bind fun c =>
      (stringBody (rest.drop 4)).map fun (value, after) => (c :: value, after)
  | '\\' :: e :: rest =>
    (singleEscape? e).bind fun c =>
      (stringBody rest).map fun (value, after) => (c :: value, after)
  | ['\\'] => none
  | c :: rest =>
    if c.toNat < 0x20 then none
    else (stringBody rest).map fun (value, after) => (c :: value, after)
termination_by chars => chars.length
decreasing_by all_goals simp only [List.length_cons, List.length_drop]; omega

/-- The white space of JSON: space, tab, line feed and carriage return. -/
def isWhitespace (c : Char) : Bool :=
  c = ' ' || c = '\t' || c = '\n' || c = '\r'

/-- The string that a JSON text is, when the text is one string literal between optional
white space. -/
def stringText? (text : String) : Option String :=
  match text.toList.dropWhile isWhitespace with
  | '"' :: rest =>
    (stringBody rest).bind fun (value, after) =>
      if after.all isWhitespace then some (String.ofList value) else none
  | _ => none

/-- The characters that a JSON string cannot hold as themselves, besides its quote. -/
def breaksString (c : Char) : Bool :=
  c = '\\' || decide (c.toNat < 0x20)

end Json

namespace Script

/-- The characters that a string literal cannot hold as themselves, besides its quote. -/
def breaksLiteral (c : Char) : Bool :=
  c = '\\' || c = '\n' || c = '\r'

end Script

/-- The characters between the quotes of `quoteString`: a backslash before each double
quote. -/
def escapeQuotes (chars : List Char) : List Char :=
  chars.flatMap fun c => if c = '"' then ['\\', '"'] else [c]

section Quoting

theorem quoteString_toList (v : String) :
    (quoteString v).toList = '"' :: (escapeQuotes v.toList ++ ['"']) := by
  simp [quoteString, escapeQuotes]

theorem escapeQuotes_cons (c : Char) (rest : List Char) :
    escapeQuotes (c :: rest) = (if c = '"' then ['\\', '"'] else [c]) ++ escapeQuotes rest := by
  simp [escapeQuotes]

/-- Escaping adds one character for each double quote. -/
theorem length_escapeQuotes (chars : List Char) :
    (escapeQuotes chars).length = chars.length + chars.count '"' := by
  induction chars with
  | nil => rfl
  | cons c rest ih =>
    rw [escapeQuotes_cons, List.length_append, ih, List.count_cons]
    split <;> simp_all <;> omega

end Quoting

namespace Script

variable {quote c : Char} {rest value after : List Char}

/-- An escape sequence stands for at most one character. -/
theorem escape?_value_length (scan : escape? rest = .ok (value, after)) : value.length ≤ 1 := by
  unfold escape? at scan
  split at scan <;> grind

theorem stringBody_plain (notBackslash : c ≠ '\\') (notQuote : c ≠ quote)
    (notLine : ¬(c = '\n' ∨ c = '\r')) :
    stringBody quote (c :: rest) =
      (fun (value, after) => (c :: value, after)) <$> stringBody quote rest := by
  rw [stringBody]
  split <;> simp_all
  exact notBackslash

/-- Reading a string literal's body gives back no more characters than it reads, counting
twice those that only an escape sequence can stand for, and reads the closing quote too. -/
theorem stringBody_budget (quoteKept : breaksLiteral quote = false) :
    ∀ {value after : List Char}, stringBody quote rest = .ok (value, after) →
      after.length + 1 + value.length + value.count quote + value.countP breaksLiteral ≤
        rest.length := by
  fun_induction stringBody quote rest with
  | case1 => simp
  | case2 rest escaped afterEscape found _ ih =>
    intro value after scan
    obtain ⟨⟨more, close⟩, scanMore, same⟩ := Except.map_eq_ok_iff.mp scan
    obtain ⟨rfl, rfl⟩ := Prod.mk.inj same
    have before := ih scanMore
    have shorter := escape?_shorter found
    -- the one character of an escape is the quote or breaks a literal, not both
    have single := escape?_value_length found
    have weight : escaped.count quote + escaped.countP breaksLiteral ≤ 1 := by
      obtain _ | ⟨e, _ | ⟨e', more⟩⟩ := escaped
      · simp
      · by_cases isQuote : e = quote
        · subst isQuote
          simp [quoteKept]
        · simp [isQuote]
          split <;> simp
      · simp only [List.length_cons] at single
        omega
    simp only [List.length_append, List.count_append, List.countP_append, List.length_cons]
    omega
  | case3 rest e found => simp
  | case4 rest notBackslash =>
    intro value after scan
    obtain ⟨rfl, rfl⟩ := Prod.mk.inj (Except.ok.inj scan)
    simp
  | case5 c rest notBackslash other ends => simp
  | case6 c rest notBackslash other goesOn ih =>
    intro value after scan
    obtain ⟨⟨more, close⟩, scanMore, same⟩ := Except.map_eq_ok_iff.mp scan
    obtain ⟨rfl, rfl⟩ := Prod.mk.inj same
    have before := ih scanMore
    have plain : breaksLiteral c = false := by
      simp only [breaksLiteral, Bool.or_eq_false_iff, decide_eq_false_iff_not]
      refine ⟨⟨?_, ?_⟩, ?_⟩ <;> intro same <;> simp_all
    simp only [List.length_cons, List.count_cons, List.countP_cons, plain, beq_iff_eq, other,
      Bool.false_eq_true, if_false]
    omega

theorem escape?_doubleQuote (rest : List Char) : escape? ('"' :: rest) = .ok (['"'], rest) := by
  simp [escape?, singleEscape?, isLineTerminator]

/-- The body of a quoted string that breaks no literal reads back as the string. -/
theorem stringBody_escapeQuotes {w : List Char} (kept : ∀ c ∈ w, breaksLiteral c = false)
    (rest : List Char) : stringBody '"' (escapeQuotes w ++ '"' :: rest) = .ok (w, rest) := by
  induction w with
  | nil => simp [escapeQuotes, stringBody]
  | cons c w ih =>
    have more := ih fun d member => kept d (List.mem_cons_of_mem c member)
    have plain := kept c List.mem_cons_self
    simp only [breaksLiteral, Bool.or_eq_false_iff, decide_eq_false_iff_not] at plain
    rw [escapeQuotes_cons]
    split
    · -- a double quote, read back from its escape
      rename_i isQuote
      subst isQuote
      simp only [List.cons_append, List.nil_append]
      rw [stringBody_backslash (escape?_doubleQuote _), more]
      rfl
    · rename_i notQuote
      simp only [List.cons_append, List.nil_append]
      rw [stringBody_plain plain.1.1 notQuote (by rintro (line | line) <;> simp_all), more]
      rfl

theorem start_doubleQuote (rest : List Char) : start '"' rest = .string := by
  have notLetter : '"' ∉ accentedLetters := not_mem_accentedLetters (by decide)
  simp [start, isLineTerminator, isWhiteSpace, isIdentifierStart, notLetter]

theorem lexFrom_doubleQuote (f : Bool) (rest : List Char) :
    lexFrom f ('"' :: rest) = (stringBody '"' rest).bind fun (value, after) =>
      (⟨.string (String.ofList value), f⟩ :: ·) <$> lexFrom false after := by
  rw [lexFrom, start_doubleQuote]
  dsimp only
  split
  · rename_i scan
    rw [scan]
    rfl
  · rename_i scan
    rw [scan]
    rfl

end Script

namespace Json

variable {c : Char} {chars rest : List Char}

/-- A character is a double quote or breaks a JSON string, not both. -/
theorem weight_cons (c : Char) (more : List Char) :
    (c :: more).count '"' + (c :: more).countP breaksString ≤
      more.count '"' + more.countP breaksString + 1 := by
  by_cases isQuote : c = '"'
  · subst isQuote
    simp [breaksString]
    omega
  · simp only [List.count_cons, List.countP_cons, beq_iff_eq, isQuote, if_false]
    split <;> omega

/-- Decoding a JSON string gives back no more characters than it reads, counting twice those
that only an escape sequence can stand for, and reads the closing quote too. -/
theorem stringBody_budget :
    ∀ {value after : List Char}, stringBody chars = some (value, after) →
      after.length + 1 + value.length + value.count '"' + value.countP breaksString ≤
        chars.length := by
  fun_induction stringBody chars with
  | case1 => simp
  | case2 rest =>
    intro value after found
    obtain ⟨rfl, rfl⟩ := Prod.mk.inj (Option.some.inj found)
    simp
  | case3 rest short => simp
  | case4 rest long ih =>
    intro value after found
    obtain ⟨c, -, found⟩ := Option.bind_eq_some_iff.mp found
    obtain ⟨⟨more, close⟩, scanMore, same⟩ := Option.map_eq_some_iff.mp found
    obtain ⟨rfl, rfl⟩ := Prod.mk.inj same
    have before := ih scanMore
    have weight := weight_cons c more
    simp only [List.length_cons, List.length_drop] at before ⊢
    omega
  | case5 e rest notUnicode ih =>
    intro value after found
    obtain ⟨c, -, found⟩ := Option.bind_eq_some_iff.mp found
    obtain ⟨⟨more, close⟩, scanMore, same⟩ := Option.map_eq_some_iff.mp found
    obtain ⟨rfl, rfl⟩ := Prod.mk.inj same
    have before := ih scanMore
    have weight := weight_cons c more
    simp only [List.length_cons] at before ⊢
    omega
  | case6 => simp
  | case7 c rest _ _ _ _ control => simp
  | case8 c rest notQuote _ notEscape lastBackslash printable ih =>
    intro value after found
    obtain ⟨⟨more, close⟩, scanMore, same⟩ := Option.map_eq_some_iff.mp found
    obtain ⟨rfl, rfl⟩ := Prod.mk.inj same
    have before := ih scanMore
    -- the match reaches a plain character only past the quote and every backslash
    have notBackslash : c ≠ '\\' := by
      intro backslash
      cases rest with
      | nil => exact lastBackslash backslash rfl
      | cons e more => exact notEscape e more backslash rfl
    have plain : breaksString c = false := by
      simp [breaksString, notBackslash, printable]
    simp only [List.length_cons, List.count_cons, List.countP_cons, plain, beq_iff_eq,
      if_neg notQuote, Bool.false_eq_true, if_false]
    omega

theorem stringBody_plain (notQuote : c ≠ '"') (notBackslash : c ≠ '\\') (printable : ¬c.toNat < 0x20) :
    stringBody (c :: rest) = (stringBody rest).map fun (value, after) => (c :: value, after) := by
  -- the equation of a plain character holds once it is neither quote nor backslash
  rw [stringBody, if_neg printable]
  all_goals
    intros
    simp_all

/-- The body of a quoted string that breaks no JSON string decodes back to the string. -/
theorem stringBody_escapeQuotes {w : List Char} (kept : ∀ c ∈ w, breaksString c = false)
    (rest : List Char) : stringBody (escapeQuotes w ++ '"' :: rest) = some (w, rest) := by
  induction w with
  | nil => simp [escapeQuotes, stringBody]
  | cons c w ih =>
    have more := ih fun d member => kept d (List.mem_cons_of_mem c member)
    have plain := kept c List.mem_cons_self
    simp only [breaksString, Bool.or_eq_false_iff, decide_eq_false_iff_not] at plain
    rw [escapeQuotes_cons]
    split
    · -- a double quote, decoded from its escape
      rename_i isQuote
      subst isQuote
      simp only [List.cons_append, List.nil_append]
      rw [stringBody]
      · simp [singleEscape?, more]
      · decide
    · rename_i notQuote
      simp only [List.cons_append, List.nil_append]
      rw [stringBody_plain notQuote plain.1 plain.2, more]
      rfl

end Json

/-- Generated code's literal of a string is read by ECMAScript as exactly that string when,
and only when, the string has no backslash, line feed or carriage return. -/
theorem lex_quoteString_iff (v : String) :
    Script.lex (quoteString v) = .ok [⟨.string v, false⟩] ↔
      ∀ c ∈ v.toList, Script.breaksLiteral c = false := by
  rw [Script.lex, quoteString_toList, Script.lexFrom_doubleQuote]
  constructor
  · intro lexed
    cases scan : Script.stringBody '"' (escapeQuotes v.toList ++ ['"']) with
    | error e =>
      simp only [scan, Except.bind] at lexed
      cases lexed
    | ok read =>
      obtain ⟨value, after⟩ := read
      simp only [scan, Except.bind] at lexed
      obtain ⟨tokens, -, same⟩ := Script.Except.map_eq_ok_iff.mp lexed
      have spelled : value = v.toList := by
        have := congrArg String.toList (Script.Token.Kind.string.inj
          (Script.Token.mk.inj (List.cons.inj same).1).1)
        simpa using this
      subst spelled
      -- the literal has room for one escape per double quote and no more
      have budget := Script.stringBody_budget (by decide) scan
      rw [List.length_append, length_escapeQuotes] at budget
      simp only [List.length_singleton] at budget
      have none : v.toList.countP Script.breaksLiteral = 0 := by omega
      intro c member
      simpa using List.countP_eq_zero.mp none c member
  · intro kept
    rw [Script.stringBody_escapeQuotes kept []]
    simp [Except.bind, Script.lexFrom]

/-- Generated code's literal of a string decodes, as JSON, to exactly that string when, and
only when, the string has no backslash and no control character below U+0020. -/
theorem stringText?_quoteString_iff (v : String) :
    Json.stringText? (quoteString v) = some v ↔ ∀ c ∈ v.toList, Json.breaksString c = false := by
  have notBlank : Json.isWhitespace '"' = false := by decide
  simp only [Json.stringText?, quoteString_toList, List.dropWhile_cons, notBlank,
    Bool.false_eq_true, if_false]
  constructor
  · intro decoded
    cases scan : Json.stringBody (escapeQuotes v.toList ++ ['"']) with
    | none => simp [scan] at decoded
    | some read =>
      obtain ⟨value, after⟩ := read
      simp only [scan, Option.bind_some] at decoded
      split at decoded
      · have spelled : value = v.toList := by
          have := congrArg String.toList (Option.some.inj decoded)
          simpa using this
        subst spelled
        -- the literal has room for one escape per double quote and no more
        have budget := Json.stringBody_budget scan
        rw [List.length_append, length_escapeQuotes] at budget
        simp only [List.length_singleton] at budget
        have none : v.toList.countP Json.breaksString = 0 := by omega
        intro c member
        simpa using List.countP_eq_zero.mp none c member
      · cases decoded
  · intro kept
    rw [Json.stringBody_escapeQuotes kept []]
    simp only [Option.bind_some, List.all_nil, if_true, String.ofList_toList]

/-- The literal that generated code writes for a string keeps its value: read as ECMAScript
exactly when the string has no backslash, line feed or carriage return, and decoded as JSON
exactly when it has no backslash and no control character below U+0020. -/
theorem quoteString_keeps_value_iff (v : String) :
    (Script.lex (quoteString v) = .ok [⟨.string v, false⟩] ↔
      ∀ c ∈ v.toList, c ≠ '\\' ∧ c ≠ '\n' ∧ c ≠ '\r') ∧
    (Json.stringText? (quoteString v) = some v ↔ ∀ c ∈ v.toList, c ≠ '\\' ∧ 0x20 ≤ c.toNat) := by
  constructor
  · rw [lex_quoteString_iff]
    simp [Script.breaksLiteral, and_assoc]
  · rw [stringText?_quoteString_iff]
    simp [Json.breaksString]

example : quoteString "say \"hi\"" = "\"say \\\"hi\\\"\"" ∧
    Script.lex (quoteString "say \"hi\"") = .ok [⟨.string "say \"hi\"", false⟩] := by
  decide +kernel

/-- A Vie string holding a backslash, which the ECMAScript literal of generated code reads as
an escape sequence. -/
theorem backslash_string_changes_value :
    tokenize "\"a\\b\"" = .ok [⟨.string, "a\\b", 1⟩, ⟨.eof, "", 1⟩] ∧
      Script.lex (quoteString "a\\b") = .ok [⟨.string "a\x08", false⟩] := by
  refine ⟨by cbv, ?_⟩
  rw [Script.lex, quoteString_toList, Script.lexFrom_doubleQuote]
  cbv

section Relexing

/-- Escaping leaves a text without double quotes as it is. -/
theorem escapeQuotes_of_not_mem {chars : List Char} (noQuote : '"' ∉ chars) :
    escapeQuotes chars = chars := by
  induction chars with
  | nil => rfl
  | cons c rest ih =>
    have other : c ≠ '"' := fun same => noQuote (same ▸ List.mem_cons_self)
    rw [escapeQuotes_cons, if_neg other, ih fun mem => noQuote (List.mem_cons_of_mem c mem)]
    rfl

/-- The lexer reads generated code's literal of a string back as one string token of that
string, on the first line, exactly when the string has no double quote. -/
theorem tokenize_quoteString_iff (v : String) :
    tokenize (quoteString v) = .ok [⟨.string, v, 1⟩, ⟨.eof, "", 1 + v.toList.count '\n'⟩] ↔
      '"' ∉ v.toList := by
  have isString : Lexical.isQuote '"' := by decide
  rw [tokenize, quoteString_toList]
  constructor
  · intro lexed
    cases closed : (escapeQuotes v.toList ++ ['"']).dropWhile (· != '"') with
    | nil =>
      -- the scan for the closing quote stops at the last quote, if not before
      have stops := List.dropWhile_eq_nil_iff.mp closed '"' (by simp)
      simp at stops
    | cons close after =>
      rw [tokenizeFrom_quote 1 isString closed] at lexed
      cases rest : tokenizeFrom (1 + ((escapeQuotes v.toList ++ ['"']).takeWhile (· != '"')).count
          '\n') after with
      | error e =>
        rw [rest] at lexed
        cases lexed
      | ok more =>
        rw [rest] at lexed
        -- the string the lexer reads runs up to the first double quote, and holds none
        have spelled : (escapeQuotes v.toList ++ ['"']).takeWhile (· != '"') = v.toList := by
          have first := congrArg (fun ts : List Token => (ts.head?.map Token.lexeme).map String.toList)
            (Except.ok.inj lexed)
          simpa using first
        rw [← spelled]
        intro mem
        simpa using List.mem_takeWhile_imp mem
  · intro noQuote
    have inside : ∀ x ∈ v.toList, (x != '"') = true := fun x mem => by
      have other : x ≠ '"' := fun same => noQuote (same ▸ mem)
      simpa using other
    have closed : (v.toList ++ ['"']).dropWhile (· != '"') = ['"'] := dropWhile_run inside (by simp)
    rw [escapeQuotes_of_not_mem noQuote, tokenizeFrom_quote 1 isString closed,
      takeWhile_run inside (by simp), tokenizeFrom_nil]
    simp

/-- The literal of a lone double quote does not lex: the lexer reads a string holding the
backslash, and then a quote that nothing closes. -/
theorem quoted_doubleQuote_unterminated :
    quoteString "\"" = "\"\\\"\"" ∧ tokenize (quoteString "\"") = .error (.unterminatedString 1) :=
  ⟨by decide, by cbv⟩

end Relexing

end VieCompiler
