import VieCompiler.Compile
import VieCompiler.Proofs.Statements
import VieCompiler.Proofs.Script.Chains
import VieCompiler.Proofs.WrittenNumbers
import VieCompiler.Proofs.StringLiterals
import VieCompiler.Proofs.WellFormed

/-!
# The text of an expression reads back

The text that code generation writes for an expression is one line, and read as script it
is the expression's script tree, `Expr.lower` (`Expr.render_readsBack`), when the expression
is readable (`Expr.Readable`): its names are identifier names that are no reserved words,
except the bare name of the printing function where it is called; its numbers are whole and
not negative, written in full below `10^21` and from there on with an exponent, from their
shortest decimal (`formatNumber_exponent`); its strings hold no backslash and no line break; and
no field is taken of a number written in full. The last condition cannot be dropped: the text
of such a field puts the point right after the digits, where the script's lexer reads it as
part of the number, so the code of `5.x` does not read at all (`number_field_unreadable`). After
an exponent the point is no part of the number: `1e+21.x` is a field of `10^21`.

The proof follows the recursion of `Expr.render`. `Shows` says what the text of one
expression gives: one line, lexed as the same tokens before whatever may follow an expression
in generated code, and these tokens head a chain that is read as the tree. Each constructor has
its lemma (`shows_binary`, `shows_field`, `shows_call` and the others), built from how the
fixed pieces lex (`Script.LexesPrefix.numeral`, `quoted`, `dot`, `operator`) and from the
reading lemmas of `VieCompiler.Proofs.Script.Chains`; `Expr.shows` assembles them.
-/

namespace VieCompiler.Script

/-! Characters and the pieces of generated code: digits, quoted strings, points and
operators, each read the same way whatever follows it. -/

theorem digit_inert {c : Char} (digit : c.isDigit) :
    isLineTerminator c = false ∧ isWhiteSpace c = false ∧ c ≠ '/' ∧
      isIdentifierStart c = false := by
  have bounds : 48 ≤ c.toNat ∧ c.toNat ≤ 57 := by
    simp only [Char.isDigit, Bool.and_eq_true, decide_eq_true_eq, UInt32.le_iff_toNat_le] at digit
    have : c.toNat = c.val.toNat := rfl
    have : '0'.val.toNat = 48 := rfl
    have : '9'.val.toNat = 57 := rfl
    omega
  refine ⟨?_, ?_, ?_, ?_⟩
  · simp only [isLineTerminator, Bool.or_eq_false_iff, decide_eq_false_iff_not]
    refine ⟨⟨⟨?_, ?_⟩, ?_⟩, ?_⟩ <;> rintro rfl <;> simp at bounds
  · simp only [isWhiteSpace, Bool.or_eq_false_iff, decide_eq_false_iff_not, Bool.and_eq_false_iff]
    refine ⟨⟨⟨⟨⟨⟨⟨⟨⟨⟨?_, ?_⟩, ?_⟩, ?_⟩, ?_⟩, ?_⟩, ?_⟩, by omega⟩, ?_⟩, ?_⟩, ?_⟩ <;>
      rintro rfl <;> simp at bounds
  · rintro rfl
    simp at bounds
  · have notLetter := not_mem_accentedLetters (show c.toNat < 0xE0 ∨ 0x1EF9 < c.toNat by omega)
    have toNat : c.toNat = c.val.toNat := rfl
    have : 'A'.val.toNat = 65 := rfl
    have : 'Z'.val.toNat = 90 := rfl
    have : 'a'.val.toNat = 97 := rfl
    have : 'z'.val.toNat = 122 := rfl
    simp only [isIdentifierStart, Char.isAlpha, Char.isUpper, Char.isLower, Bool.or_eq_false_iff,
      Bool.and_eq_false_iff, decide_eq_false_iff_not, UInt32.le_iff_toNat_le]
    refine ⟨⟨⟨⟨by omega, by omega⟩, ?_⟩, ?_⟩, ?_⟩
    · rintro rfl
      simp at bounds
    · rintro rfl
      simp at bounds
    · simpa using notLetter

theorem start_of_digit {c : Char} (digit : c.isDigit) (rest : List Char) :
    start c rest = .number := by
  obtain ⟨line, blank, notSlash, notStart⟩ := digit_inert digit
  simp [start, line, blank, notSlash, notStart, digit]

theorem isIdentifierStart_of_outside {c : Char} (outside : c.toNat < 0xE0 ∨ 0x1EF9 < c.toNat) :
    isIdentifierStart c = (c.isAlpha || c = '$' || c = '_') := by
  simp [isIdentifierStart, not_mem_accentedLetters outside]

/-- No character of a punctuator starts an identifier. -/
theorem punctuators_outside_names : ∀ p ∈ punctuators.map String.toList, ∀ c ∈ p,
    isIdentifierStart c = false := by
  have ascii : ∀ c ∈ (punctuators.map String.toList).flatten,
      c.toNat < 0xE0 ∧ (c.isAlpha || c = '$' || c = '_') = false :=
    forall_mem_of_all_decide (by decide)
  intro p listed c inside
  obtain ⟨below, notAlpha⟩ := ascii c (List.mem_flatten.mpr ⟨p, listed, inside⟩)
  rw [isIdentifierStart_of_outside (.inl below), notAlpha]

/-- A prefix test that a character of the text fails the same way as the test of the text
before it. -/
theorem isPrefixOf_cons_foreign {q : List Char} {c a : Char} (foreign : a ∉ q)
    (more : List Char) : q.isPrefixOf (c :: a :: more) = q.isPrefixOf [c] := by
  match q with
  | [] => rfl
  | [q₀] => simp [List.isPrefixOf]
  | q₀ :: q₁ :: qs =>
    have differ : (q₁ == a) = false := by
      simp only [beq_eq_false_iff_ne]
      rintro rfl
      exact foreign (by simp)
    simp [List.isPrefixOf, differ]

/-- An operator character starts a punctuator when no comment starts there. -/
theorem start_of_symbol {c d : Char} {more : List Char}
    (symbol : c ∈ ['=', '!', '<', '>', '&', '|', '+', '-', '*', '/'])
    (plain : d ∉ ['/', '*', '!', '-']) : start c (d :: more) = .punctuator := by
  have ascii : ∀ c ∈ ['=', '!', '<', '>', '&', '|', '+', '-', '*', '/'], c.toNat < 0xE0 :=
    forall_mem_of_all_decide (by decide)
  have notLetter := not_mem_accentedLetters (.inl (ascii c symbol))
  simp only [List.mem_cons, List.not_mem_nil, or_false, not_or] at symbol plain
  obtain ⟨notSlash, notStar, notBang, notDash⟩ := plain
  rcases symbol with rfl | rfl | rfl | rfl | rfl | rfl | rfl | rfl | rfl | rfl <;>
    simp [start, isLineTerminator, isWhiteSpace, isIdentifierStart, notLetter, List.isPrefixOf,
      notSlash, notStar, Ne.symm notBang, Ne.symm notDash]

/-- A point before the start of a name is the longest punctuator there. -/
theorem punctuator?_point {a : Char} (first : isIdentifierStart a) (more : List Char) :
    punctuator? ('.' :: a :: more) = some ['.'] := by
  have fits : ∀ q ∈ punctuators.map String.toList,
      punctuatorFits ('.' :: a :: more) q = punctuatorFits ['.'] q := by
    intro q listed
    have foreign : a ∉ q := fun inside => by
      rw [punctuators_outside_names q listed a inside] at first
      cases first
    unfold punctuatorFits
    rw [isPrefixOf_cons_foreign foreign more]
    by_cases optional : q = ['?', '.']
    · subst optional
      rfl
    · simp [optional]
  unfold punctuator?
  rw [List.find?_congr fits]
  decide

theorem isIdentifierName_chars {word : String} (plain : isIdentifierName word) :
    ∃ a more, word.toList = a :: more ∧ isIdentifierStart a ∧
      ∀ c ∈ word.toList, isIdentifierPart c := by
  unfold isIdentifierName at plain
  split at plain
  · cases plain
  · rename_i a more spelled
    simp only [Bool.and_eq_true, List.all_eq_true] at plain
    refine ⟨a, more, spelled, plain.1, ?_⟩
    rw [spelled]
    intro c inside
    rcases List.mem_cons.mp inside with rfl | later
    · simp [isIdentifierPart, plain.1]
    · exact plain.2 c later

theorem newline_not_mem_of_isIdentifierName {word : String} (plain : isIdentifierName word) :
    '\n' ∉ word.toList := fun inside => by
  obtain ⟨-, -, -, -, parts⟩ := isIdentifierName_chars plain
  have part := parts '\n' inside
  rw [isIdentifierPart_of_outside (by decide)] at part
  cases part

theorem not_unary_of_isBindingName {name : String} (free : isBindingName name = true) :
    name ∉ unaryOperators := by
  obtain ⟨plain, notReserved⟩ := isBindingName_iff.mp free
  obtain ⟨a, more, spelled, start, -⟩ := isIdentifierName_chars plain
  intro listed
  simp only [unaryOperators, List.mem_cons, List.not_mem_nil, or_false] at listed
  -- the words are reserved, and no sign starts a name
  rcases listed with rfl | rfl | rfl | rfl | rfl | rfl
  all_goals first
    | exact absurd notReserved (by decide)
    | simp at spelled
      rw [← spelled.1, isIdentifierStart_of_outside (by decide)] at start
      exact absurd start (by decide)

theorem Token.text_flag (kind : Token.Kind) (flag : Bool) :
    Token.text ⟨kind, flag⟩ = Token.text ⟨kind, false⟩ := by
  cases kind <;> rfl

namespace LexesPrefix

variable {f : Bool} {ys : List Char}

/-- The text of valid numeral parts, before a character that continues neither the numeral
nor a name, reads as the double nearest to the parts' decimal. -/
theorem numeral {p : NumeralParts} (valid : p.Valid) (stop : p.Stops ys)
    (notName : ∀ c ∈ ys.head?, isIdentifierStart c = false) :
    LexesPrefix f (p.text ++ ys)
      [⟨.number (Binary64.ofScientific false p.decimal.digits p.decimal.exponent), f⟩] false ys := by
  have scan := p.numericLiteral_text valid stop notName
  obtain ⟨d, ds, spelled⟩ := List.exists_cons_of_ne_nil valid.whole_nonempty
  have first : p.text ++ ys = d :: (ds ++ NumeralParts.fractionText p.fraction ++
      NumeralParts.exponentText p.exponent ++ ys) := by
    simp [NumeralParts.text, spelled]
  rw [first] at scan ⊢
  exact token (lexFrom_number (start_of_digit (valid.whole_digits d (by simp [spelled])) _) scan)
    (refl false ys)

/-- The digits of a number, before a character that continues no numeric literal, read as
the number. -/
theorem integer (n : Nat)
    (stop : ∀ c ∈ ys.head?, c ≠ '.' ∧ c ≠ 'e' ∧ c ≠ 'E' ∧ isIdentifierPart c = false) :
    LexesPrefix f (Nat.toDigits 10 n ++ ys) [⟨.number (Binary64.ofScientific false n 0), f⟩]
      false ys := by
  have parts : (⟨Nat.toDigits 10 n, [], none⟩ : NumeralParts).Stops ys := fun c first => by
    obtain ⟨notPoint, notE, notBigE, notPart⟩ := stop c first
    simp only [isIdentifierPart, Bool.or_eq_false_iff] at notPart
    exact ⟨notPart.2, fun _ => ⟨notPoint, notE, notBigE⟩⟩
  have read := numeral (f := f) (NumeralParts.valid_toDigits n) parts fun c first => by
    have notPart := (stop c first).2.2.2
    simp only [isIdentifierPart, Bool.or_eq_false_iff] at notPart
    exact notPart.1
  simpa [NumeralParts.text, NumeralParts.fractionText, NumeralParts.exponentText,
    NumeralParts.decimal, NumeralParts.exponentValue] using read

/-- A quoted string that breaks no literal reads as the string. -/
theorem quoted {v : String} (kept : ∀ c ∈ v.toList, breaksLiteral c = false) :
    LexesPrefix f ((quoteString v).toList ++ ys) [⟨.string v, f⟩] false ys := by
  have body := stringBody_escapeQuotes kept ys
  have step : lexFrom f ((quoteString v).toList ++ ys) =
      (⟨.string v, f⟩ :: ·) <$> lexFrom false ys := by
    rw [quoteString_toList, List.cons_append, lexFrom_doubleQuote, List.append_assoc,
      List.singleton_append, body]
    simp only [Except.bind, String.ofList_toList]
  exact token step (refl false ys)

/-- A point before the start of a name reads as the punctuator `.`. -/
theorem dot {a : Char} {more : List Char} (first : isIdentifierStart a) :
    LexesPrefix f ('.' :: a :: more) [⟨.punctuator ".", f⟩] false (a :: more) := by
  have notDigit : a.isDigit = false := by
    cases digit : a.isDigit
    · rfl
    · rw [(digit_inert digit).2.2.2] at first
      cases first
  have kind : start '.' (a :: more) = .punctuator := by
    have notLetter := not_mem_accentedLetters (show '.'.toNat < 0xE0 ∨ 0x1EF9 < '.'.toNat by decide)
    simp [start, isLineTerminator, isWhiteSpace, isIdentifierStart, notLetter, notDigit,
      List.isPrefixOf]
  have found := punctuator?_point first more
  have step := lexFrom_punctuator (f := f) kind found
  simp only [List.length_singleton, List.drop_succ_cons, List.drop_zero] at step
  exact token step (refl false (a :: more))

/-- A punctuator followed by a blank reads as the punctuator, the blank skipped. -/
theorem spaced {p : String} {c : Char} {cs : List Char} (spelled : p.toList = c :: cs)
    (kind : start c (cs ++ [' ']) = .punctuator)
    (found : punctuator? (c :: (cs ++ [' '])) = some (c :: cs)) :
    LexesPrefix f (p.toList ++ ' ' :: ys) [⟨.punctuator p, f⟩] false ys := by
  rw [spelled]
  have named : String.ofList (c :: cs) = p := by rw [← spelled, String.ofList_toList]
  exact of_tokens ((punctuator_blank kind found).trans blank) (by rw [List.append_nil, named])

end LexesPrefix

end VieCompiler.Script

namespace VieCompiler

open Script (LexesPrefix ChainReads ExprReads Reads closers joinElements unaryOperators
  closingWords)

/-- An operator followed by a blank reads as the operator. -/
theorem Script.LexesPrefix.operator (op : BinaryOp) {f : Bool} {ys : List Char} :
    LexesPrefix f (op.symbol.toList ++ ' ' :: ys) [⟨.punctuator op.symbol, f⟩] false ys := by
  cases op <;>
  exact LexesPrefix.spaced (by simp [BinaryOp.symbol]; exact ⟨rfl, rfl⟩)
    (by exact Script.start_of_symbol (by simp) (by simp)) (by decide +kernel)

theorem BinaryOp.symbol_leveled (op : BinaryOp) :
    ∃ level < Script.binaryLevels.length, op.symbol ∈ Script.binaryLevels.getD level [] := by
  cases op <;> decide

theorem BinaryOp.symbol_not_suffix (op : BinaryOp) :
    Script.Token.Kind.punctuator op.symbol ∉ Script.suffixWords true := by
  cases op <;> decide

theorem BinaryOp.newline_not_mem_symbol (op : BinaryOp) : '\n' ∉ op.symbol.toList := by
  cases op <;> decide

/-- What may follow the text of an expression in generated code: nothing, a blank, a
bracket, a brace, a comma or a semicolon, and a point when `point` holds. -/
def Follows (point : Prop) (ys : List Char) : Prop :=
  ∀ c ∈ ys.head?, c ∈ closers ∨ c = ' ' ∨ (c = '.' ∧ point)

section Following

variable {point : Prop}

theorem Follows.stops {ys : List Char} (follows : Follows point ys) :
    ∀ d ∈ ys.head?, Script.isIdentifierPart d = false := by
  intro d first
  rcases follows d first with closing | rfl | ⟨rfl, -⟩
  · exact Script.isIdentifierPart_closer closing
  · exact Script.isIdentifierPart_blank
  · rw [Script.isIdentifierPart_of_outside (by decide)]
    decide

theorem follows_closer {c : Char} (closing : c ∈ closers) (ys : List Char) :
    Follows point (c :: ys) :=
  fun _ first => .inl (by cases first; exact closing)

theorem follows_blank (ys : List Char) : Follows point (' ' :: ys) :=
  fun _ first => .inr (.inl (by cases first; rfl))

theorem follows_point (holds : point) (ys : List Char) : Follows point ('.' :: ys) :=
  fun _ first => .inr (.inr ⟨by cases first; rfl, holds⟩)

end Following

/-- What the text of an expression gives: it is one line; from either line-break flag it is
lexed as `⟨first, flag⟩ :: rest` before whatever may follow an expression, a point only when
`point` holds; these tokens head a chain that is read as `x`; and `first` is no prefix
operator. -/
structure Shows (text : List Char) (x : Script.Expr) (point : Prop) (first : Script.Token.Kind)
    (rest : List Script.Token) : Prop where
  oneLine : '\n' ∉ text
  lexes : ∀ flag ys, Follows point ys →
    LexesPrefix flag (text ++ ys) (⟨first, flag⟩ :: rest) false ys
  chain : ∀ flag, ChainReads (⟨first, flag⟩ :: rest) x
  notOperator : Script.Token.text ⟨first, false⟩ ∉ unaryOperators

/-- The texts of expressions separated by commas are one line, lexed before a closing
bracket as the expressions' tokens joined by commas, and each part is read as its
expression. -/
structure ListShows (text : List Char) (xs : List Script.Expr)
    (parts : List (List Script.Token)) : Prop where
  oneLine : '\n' ∉ text
  lexes : ∀ c ys, c ∈ closers →
    LexesPrefix false (text ++ c :: ys) (joinElements parts) false (c :: ys)
  reads : List.Forall₂ ExprReads parts xs

section Leaves

variable {text text' : List Char} {x : Script.Expr} {point : Prop} {first : Script.Token.Kind}
  {rest : List Script.Token}

theorem Shows.weaken {point' : Prop} (shows : Shows text x point first rest)
    (imp : point' → point) : Shows text x point' first rest where
  oneLine := shows.oneLine
  lexes flag ys follows := shows.lexes flag ys fun c head =>
    (follows c head).imp_right (Or.imp_right fun ⟨isPoint, holds⟩ => ⟨isPoint, imp holds⟩)
  chain := shows.chain
  notOperator := shows.notOperator

/-- A text that a point may follow shows its tree whatever `point` says. -/
theorem Shows.anyPoint {point' : Prop} (shows : Shows text x True first rest) :
    Shows text x point' first rest :=
  shows.weaken fun _ => trivial

theorem Shows.of_text (shows : Shows text x point first rest) (same : text = text') :
    Shows text' x point first rest :=
  same ▸ shows

theorem Shows.exprReads (shows : Shows text x point first rest) (flag : Bool) :
    ExprReads (⟨first, flag⟩ :: rest) x :=
  (shows.chain flag).exprReads (Script.Token.text_flag first flag ▸ shows.notOperator)

theorem shows_word {word : String} (plain : Script.isIdentifierName word) (notNew : word ≠ "new")
    (atom : Script.atomOf (.name word) = some x) (notOperator : word ∉ unaryOperators) :
    Shows word.toList x True (.name word) [] where
  oneLine := Script.newline_not_mem_of_isIdentifierName plain
  lexes _ _ follows := LexesPrefix.name plain follows.stops
  chain _ := Script.chainReads_atom (by simp [notNew]) atom
  notOperator := notOperator

theorem shows_name {name : String} (free : Script.isBindingName name = true) :
    Shows name.toList (.name name) True (.name name) [] := by
  obtain ⟨plain, notReserved⟩ := Script.isBindingName_iff.mp free
  have notNew : name ≠ "new" := by
    rintro rfl
    revert notReserved
    decide
  exact shows_word plain notNew (Script.atomOf_name notReserved)
    (Script.not_unary_of_isBindingName free)

/-- An integer below `10^21` is written with its digits, and no point may follow them. -/
theorem shows_number {v : Binary64}
    (written : ∃ n : Nat, v.toInt? = some (n : Int) ∧ n < 10 ^ 21 ∧ v ≠ .finite true 0 0) :
    Shows (formatNumber v).toList (.number v) False (.number v) [] := by
  obtain ⟨n, found, small, notNegZero⟩ := written
  obtain ⟨negative, biased, fraction, rfl⟩ : ∃ negative biased fraction,
      v = .finite negative biased fraction := by
    cases v with
    | finite negative biased fraction => exact ⟨negative, biased, fraction, rfl⟩
    | _ => simp [Binary64.toInt?, Binary64.magnitude?] at found
  have full : scriptFormat.fullInteger? (.finite negative biased fraction) = some (n : Int) :=
    NumberFormat.scriptFormat_fullInteger?.mpr ⟨found, by simpa using small⟩
  have text : (formatNumber (.finite negative biased fraction)).toList = Nat.toDigits 10 n := by
    have written := toString_int_toList (n : Int)
    rw [decide_eq_false (by omega)] at written
    simpa [formatNumber, NumberFormat.render, full] using written
  have value : Binary64.ofScientific false n 0 = .finite negative biased fraction := by
    have exact := Binary64.ofScientific_of_toInt? found notNegZero
    rwa [decide_eq_false (by omega), Int.natAbs_natCast] at exact
  have digits : ∀ c ∈ Nat.toDigits 10 n, c.isDigit := fun _ member =>
    Nat.isDigit_of_mem_toDigits (by decide) (by decide) member
  refine ⟨fun inside => ?_, fun flag ys follows => ?_, fun _ => ?_,
    by simp [Script.Token.text, unaryOperators]⟩
  · rw [text] at inside
    cases digits '\n' inside
  · rw [text, ← value]
    refine LexesPrefix.integer n fun c head => ?_
    rcases follows c head with closing | rfl | ⟨-, impossible⟩
    · have outside : ∀ c ∈ closers, c ≠ '.' ∧ c ≠ 'e' ∧ c ≠ 'E' :=
        forall_mem_of_all_decide (by decide)
      exact ⟨(outside c closing).1, (outside c closing).2.1, (outside c closing).2.2,
        Script.isIdentifierPart_closer closing⟩
    · exact ⟨by decide, by decide, by decide, Script.isIdentifierPart_blank⟩
    · exact impossible.elim
  · exact Script.chainReads_atom (by simp) rfl

/-- A whole number from `10^21` on is written with an exponent, which a point may follow. -/
theorem shows_largeNumber {v : Binary64} {n : Nat} (found : v.toInt? = some (n : Int))
    (large : 10 ^ 21 ≤ n) : Shows (formatNumber v).toList (.number v) True (.number v) [] := by
  obtain ⟨p, valid, exponent, text, value⟩ := formatNumber_exponent found large
  refine ⟨fun inside => ?_, fun flag ys follows => ?_, fun _ => Script.chainReads_atom (by simp) rfl,
    by simp [Script.Token.text, unaryOperators]⟩
  · -- the text has digits, a point, the `e` and its sign
    rw [text] at inside
    rcases NumeralParts.mem_text valid inside with digit | same | same | same | same
    · exact absurd digit (by decide)
    all_goals exact absurd same (by decide)
  · have stops := follows.stops
    rw [text, ← value]
    refine LexesPrefix.numeral valid (fun c first => ⟨?_, fun none => absurd none exponent⟩)
      fun c first => ?_
    · have notPart := stops c first
      simp only [Script.isIdentifierPart, Bool.or_eq_false_iff] at notPart
      exact notPart.2
    · have notPart := stops c first
      simp only [Script.isIdentifierPart, Bool.or_eq_false_iff] at notPart
      exact notPart.1

theorem shows_string {v : String} (kept : ∀ c ∈ v.toList, Script.breaksLiteral c = false) :
    Shows (quoteString v).toList (.string v) True (.string v) [] where
  oneLine := by
    have unbroken : '\n' ∉ v.toList := fun inside => by
      simpa [Script.breaksLiteral] using kept _ inside
    rw [quoteString_toList]
    simp only [escapeQuotes, List.mem_cons, List.mem_append, List.mem_flatMap]
    rintro (quote | ⟨c, member, produced⟩ | quote | nil)
    · exact absurd quote (by decide)
    · split at produced
      · exact absurd produced (by decide)
      · rw [List.mem_singleton] at produced
        exact unbroken (produced ▸ member)
    · exact absurd quote (by decide)
    · cases nil
  lexes _ _ _ := LexesPrefix.quoted kept
  chain _ := Script.chainReads_atom (by simp) rfl
  notOperator := by simp [Script.Token.text, unaryOperators]

end Leaves

section Lists

variable {text text' : List Char} {x : Script.Expr} {xs : List Script.Expr} {point : Prop}
  {first : Script.Token.Kind} {rest : List Script.Token} {parts : List (List Script.Token)}

theorem ListShows.of_text (shows : ListShows text xs parts) (same : text = text') :
    ListShows text' xs parts :=
  same ▸ shows

theorem listShows_nil : ListShows [] [] [] where
  oneLine := List.not_mem_nil
  lexes c ys _ := LexesPrefix.refl false (c :: ys)
  reads := .nil

theorem listShows_single (shows : Shows text x point first rest) :
    ListShows text [x] [⟨first, false⟩ :: rest] where
  oneLine := shows.oneLine
  lexes c ys closing :=
    (shows.lexes false (c :: ys) (follows_closer closing ys)).of_tokens (by simp [joinElements])
  reads := .cons (shows.exprReads false) .nil

theorem listShows_cons (shows : Shows text x point first rest) (more : ListShows text' xs parts)
    (filled : parts ≠ []) :
    ListShows (text ++ ',' :: ' ' :: text') (x :: xs) ((⟨first, false⟩ :: rest) :: parts) where
  oneLine := by simp [shows.oneLine, more.oneLine]
  lexes c ys closing := by
    obtain ⟨part, parts, rfl⟩ := List.exists_cons_of_ne_nil filled
    have comma : (',' : Char) ∈ closers := by decide
    rw [List.append_assoc, List.cons_append, List.cons_append]
    exact ((shows.lexes false _ (follows_closer comma _)).trans ((LexesPrefix.closer comma).trans
      (LexesPrefix.blank.trans (more.lexes c ys closing)))).of_tokens (by simp [joinElements])
  reads := .cons (shows.exprReads false) more.reads

/-- Arguments in parentheses are read as the list of their expressions. -/
theorem ListShows.arguments (args : ListShows text xs parts) (flag : Bool)
    (m : List Script.Token) :
    Reads Script.arguments
      (⟨.punctuator "(", flag⟩ :: (joinElements parts ++ [⟨.punctuator ")", false⟩] ++ m)) xs
      m := by
  have inner : Reads (Script.elementsTo ")") (joinElements parts ++ ⟨.punctuator ")", false⟩ :: m)
      xs m :=
    Script.reads_elementsTo_of (by simp [closingWords]) (by decide) args.reads
  have outer : Reads Script.arguments
      (⟨.punctuator "(", flag⟩ :: (joinElements parts ++ ⟨.punctuator ")", false⟩ :: m)) xs m :=
    Script.reads_arguments inner
  exact outer.of_eq (by simp)

end Lists

/-- Tokens in parentheses that are read as an expression before the closing one head a
chain. -/
theorem chainReads_parenthesized {ts : List Script.Token} {x : Script.Expr} {flag : Bool}
    (inner : ∀ m, Reads Script.assignment (ts ++ ⟨.punctuator ")", false⟩ :: m) x
      (⟨.punctuator ")", false⟩ :: m)) :
    ChainReads (⟨.punctuator "(", flag⟩ :: (ts ++ [⟨.punctuator ")", false⟩])) x :=
  Script.chainReads_primary (by simp) fun m => by
    have primary : Reads Script.primary
        (⟨.punctuator "(", flag⟩ :: (ts ++ ⟨.punctuator ")", false⟩ :: m)) x m :=
      Script.reads_primary_parenthesized (inner m)
    exact primary.of_eq (by simp)

section Compounds

variable {text text' : List Char} {x y : Script.Expr} {xs : List Script.Expr}
  {point point' : Prop} {first first' : Script.Token.Kind} {rest rest' : List Script.Token}
  {parts : List (List Script.Token)}

theorem shows_array (items : ListShows text xs parts) :
    Shows ('[' :: (text ++ [']'])) (.array xs) True (.punctuator "[")
      (joinElements parts ++ [⟨.punctuator "]", false⟩]) where
  oneLine := by simp [items.oneLine]
  lexes flag ys _ := by
    simp only [List.cons_append, List.append_assoc]
    exact ((LexesPrefix.closer (by decide)).trans ((items.lexes ']' ys (by decide)).trans
      (LexesPrefix.closer (by decide)))).of_tokens (by simp)
  chain flag := Script.chainReads_primary (by simp) fun m => by
    have inner : Reads (Script.elementsTo "]")
        (joinElements parts ++ ⟨.punctuator "]", false⟩ :: m) xs m :=
      Script.reads_elementsTo_of (by simp [closingWords]) (by decide) items.reads
    have array : Reads Script.primary
        (⟨.punctuator "[", flag⟩ :: (joinElements parts ++ ⟨.punctuator "]", false⟩ :: m))
        (.array xs) m :=
      Script.reads_primary_array inner
    exact array.of_eq (by simp)
  notOperator := by simp [Script.Token.text, unaryOperators]

/-- An operation in parentheses: whatever the operator's level, the parentheses keep the
tree as it is. -/
theorem shows_binary (left : Shows text x point first rest)
    (right : Shows text' y point' first' rest') (op : BinaryOp) :
    Shows ('(' :: (text ++ ' ' :: (op.symbol.toList ++ ' ' :: (text' ++ [')']))))
      (.binary x op.symbol y) True (.punctuator "(")
      ((⟨first, false⟩ :: rest ++ ⟨.punctuator op.symbol, false⟩ :: ⟨first', false⟩ :: rest') ++
        [⟨.punctuator ")", false⟩]) where
  oneLine := by simp [left.oneLine, right.oneLine, op.newline_not_mem_symbol]
  lexes flag ys _ := by
    simp only [List.cons_append, List.append_assoc]
    exact ((LexesPrefix.closer (by decide)).trans ((left.lexes false _ (follows_blank _)).trans
      (LexesPrefix.blank.trans ((LexesPrefix.operator op).trans
        ((right.lexes false _ (follows_closer (by decide) _)).trans
          (LexesPrefix.closer (by decide))))))).of_tokens (by simp)
  chain _ := chainReads_parenthesized fun m => by
    obtain ⟨level, -, leveled⟩ := op.symbol_leveled
    -- the operator stops the left chain, and the closing parenthesis the right one
    have leftReads := (left.chain false).unary left.notOperator
      (m := ⟨.punctuator op.symbol, false⟩ :: ⟨first', false⟩ ::
        (rest' ++ ⟨.punctuator ")", false⟩ :: m))
      (Script.suffixes_stop_of_kind op.symbol_not_suffix)
    have closes : Script.ClosesExpression (⟨.punctuator ")", false⟩ :: m) :=
      Script.closesExpression_cons (by simp [closingWords])
    have rightReads := (right.chain false).unary right.notOperator
      (Script.suffixes_stop_of_closes closes true)
    exact (Script.reads_assignment_operation level (t := ⟨.punctuator op.symbol, false⟩) leveled
      leftReads rightReads closes).of_eq (by simp)
  notOperator := by simp [Script.Token.text, unaryOperators]

theorem shows_assign (target : Shows text x point first rest)
    (value : Shows text' y point' first' rest') (simple : x.isSimpleTarget = true) :
    Shows ('(' :: (text ++ ' ' :: '=' :: ' ' :: (text' ++ [')']))) (.assign x y) True
      (.punctuator "(")
      ((⟨first, false⟩ :: rest ++ ⟨.punctuator "=", false⟩ :: ⟨first', false⟩ :: rest') ++
        [⟨.punctuator ")", false⟩]) where
  oneLine := by simp [target.oneLine, value.oneLine]
  lexes flag ys _ := by
    simp only [List.cons_append, List.append_assoc]
    exact ((LexesPrefix.closer (by decide)).trans ((target.lexes false _ (follows_blank _)).trans
      (LexesPrefix.blank.trans (LexesPrefix.equals.trans
        ((value.lexes false _ (follows_closer (by decide) _)).trans
          (LexesPrefix.closer (by decide))))))).of_tokens (by simp)
  chain _ := chainReads_parenthesized fun m => by
    have equals : Script.Token.Kind.punctuator "=" ∉ Script.suffixWords true := by decide
    -- no operator follows the target, so it is read as an operand of the loosest level
    have left := Script.reads_binary_of_unary 0 ((target.chain false).unary target.notOperator
      (m := ⟨.punctuator "=", false⟩ :: ⟨first', false⟩ :: (rest' ++ ⟨.punctuator ")", false⟩ :: m))
      (Script.suffixes_stop_of_kind equals)) (Script.noOperatorFrom_of_foreign (by decide) 0)
    have right := value.exprReads false _ (Script.closesExpression_cons (m := m) (f := false)
      (by simp [closingWords] : ")" ∈ closingWords))
    exact (Script.reads_assignment_assign left simple right).of_eq (by simp)
  notOperator := by simp [Script.Token.text, unaryOperators]

/-- A field of an expression that a point may follow. -/
theorem shows_field (object : Shows text x point first rest) (pointOk : point) {name : String}
    (plain : Script.isIdentifierName name) :
    Shows (text ++ '.' :: name.toList) (.member x name) True first
      (rest ++ [⟨.punctuator ".", false⟩, ⟨.name name, false⟩]) where
  oneLine := by simp [object.oneLine, Script.newline_not_mem_of_isIdentifierName plain]
  lexes flag ys follows := by
    obtain ⟨a, more, spelled, start, -⟩ := Script.isIdentifierName_chars plain
    have named := LexesPrefix.name (f := false) plain follows.stops
    rw [spelled, List.cons_append] at named
    rw [List.append_assoc, List.cons_append, spelled, List.cons_append]
    exact ((object.lexes flag _ (follows_point pointOk _)).trans
      ((LexesPrefix.dot start).trans named)).of_tokens (by simp)
  chain flag := (object.chain flag).member name
  notOperator := object.notOperator

theorem shows_index (object : Shows text x point first rest)
    (key : Shows text' y point' first' rest') :
    Shows (text ++ '[' :: (text' ++ [']'])) (.index x y) True first
      (rest ++ ⟨.punctuator "[", false⟩ ::
        (⟨first', false⟩ :: rest' ++ [⟨.punctuator "]", false⟩])) where
  oneLine := by simp [object.oneLine, key.oneLine]
  lexes flag ys _ := by
    simp only [List.cons_append, List.append_assoc]
    exact ((object.lexes flag _ (follows_closer (by decide) _)).trans
      ((LexesPrefix.closer (by decide)).trans
        ((key.lexes false _ (follows_closer (by decide) _)).trans
          (LexesPrefix.closer (by decide))))).of_tokens (by simp)
  chain flag := (object.chain flag).index (key.exprReads false)
  notOperator := object.notOperator

theorem shows_call (callee : Shows text x point first rest) (args : ListShows text' xs parts) :
    Shows (text ++ '(' :: (text' ++ [')'])) (.call x xs) True first
      (rest ++ ⟨.punctuator "(", false⟩ :: (joinElements parts ++ [⟨.punctuator ")", false⟩])) where
  oneLine := by simp [callee.oneLine, args.oneLine]
  lexes flag ys _ := by
    simp only [List.cons_append, List.append_assoc]
    exact ((callee.lexes flag _ (follows_closer (by decide) _)).trans
      ((LexesPrefix.closer (by decide)).trans ((args.lexes ')' ys (by decide)).trans
        (LexesPrefix.closer (by decide))))).of_tokens (by simp)
  chain flag := (callee.chain flag).call (args.arguments false)
  notOperator := callee.notOperator

theorem shows_new {name : String} (free : Script.isBindingName name = true)
    (args : ListShows text xs parts) :
    Shows ("new".toList ++ ' ' :: (name.toList ++ '(' :: (text ++ [')'])))
      (.new (.name name) xs) True (.name "new")
      (⟨.name name, false⟩ :: ⟨.punctuator "(", false⟩ ::
        (joinElements parts ++ [⟨.punctuator ")", false⟩])) where
  oneLine := by
    rw [Script.isBindingName_iff] at free
    simp [Script.newline_not_mem_of_isIdentifierName free.1, args.oneLine]
  lexes flag ys _ := by
    rw [Script.isBindingName_iff] at free
    simp only [List.cons_append, List.append_assoc]
    exact ((LexesPrefix.word (by decide)).trans ((LexesPrefix.name free.1 fun d first => by
        cases first; exact Script.isIdentifierPart_closer (by decide)).trans
      ((LexesPrefix.closer (by decide)).trans ((args.lexes ')' ys (by decide)).trans
        (LexesPrefix.closer (by decide)))))).of_tokens (by simp)
  chain _ := Script.chainReads_new (Script.atomOf_name (Script.isBindingName_iff.mp free).2)
    (args.arguments false)
  notOperator := by decide

end Compounds

theorem Expr.isSimpleTarget_lower {e : Expr} (target : e.isTarget = true) :
    e.lower.isSimpleTarget = true := by
  cases e <;> simp_all [Expr.isTarget, Expr.lower, Script.Expr.isSimpleTarget]

/-- Whether a point may follow the text of the expression: always, unless it is a number
written in full, whose digits would take the point in. -/
def Expr.TakesPoint (e : Expr) : Prop :=
  ∀ v, e = .number v → ∀ n : Nat, v.toInt? = some (n : Int) → 10 ^ 21 ≤ n

mutual

/-- The expression's text reads back as its tree: its names are identifier names that are
no reserved words, except the bare name of the printing function where it is called; its
numbers are whole and not negative, nor negative zero, written in full below `10^21` and with
an exponent from there on; its strings hold no backslash and no line break; and no field is
taken of a number written in full, whose digits would take the point. -/
def Expr.Readable : Expr → Prop
  | .ident name => Script.isBindingName name = true
  | .self | .bool _ | .null => True
  | .number value => (∃ n : Nat, value.toInt? = some (n : Int)) ∧ value.isNegative = false
  | .string value => ∀ c ∈ value.toList, Script.breaksLiteral c = false
  | .array elements => Expr.ListReadable elements
  | .binary left _ right => left.Readable ∧ right.Readable
  | .field object name =>
    object.TakesPoint ∧ object.Readable ∧ Script.isIdentifierName name = true
  | .index object key => object.Readable ∧ key.Readable
  | .assign target value => target.Readable ∧ value.Readable
  | .call callee args => (callee = .ident "in" ∨ callee.Readable) ∧ Expr.ListReadable args
  | .new className args => Script.isBindingName className = true ∧ Expr.ListReadable args

/-- Every expression of the list reads back. -/
def Expr.ListReadable : List Expr → Prop
  | [] => True
  | e :: es => e.Readable ∧ Expr.ListReadable es

end

mutual

/-- The text of a readable expression shows its script tree; a point may follow it unless
the expression is a number. -/
theorem Expr.shows {L : Leaves} : (e : Expr) → e.WellFormed L → e.Readable →
    ∃ first rest, Shows e.render.toList e.lower e.TakesPoint first rest
  | .ident name, _, free => by
    rw [Expr.render, Expr.lower]
    exact ⟨_, _, (shows_name free).anyPoint⟩
  | .self, _, _ => by
    rw [Expr.render, Expr.lower]
    exact ⟨_, _,
      (shows_word (by decide) (by decide) (by simp [Script.atomOf]) (by decide)).anyPoint⟩
  | .number value, _, ⟨⟨n, found⟩, positive⟩ => by
    rw [Expr.render, Expr.lower]
    have notNegZero : value ≠ .finite true 0 0 := by
      rintro rfl
      cases positive
    -- written in full below `10^21`, where no point may follow, and with an exponent from there
    by_cases small : n < 10 ^ 21
    · exact ⟨_, _, (shows_number ⟨n, found, small, notNegZero⟩).weaken fun takes => by
        have := takes value rfl n found
        omega⟩
    · exact ⟨_, _, (shows_largeNumber found (by omega)).anyPoint⟩
  | .string value, _, kept => by
    rw [Expr.render, Expr.lower]
    exact ⟨_, _, (shows_string kept).anyPoint⟩
  | .bool true, _, _ => by
    rw [Expr.render, Expr.lower]
    exact ⟨_, _,
      (shows_word (by decide) (by decide) (by simp [Script.atomOf]) (by decide)).anyPoint⟩
  | .bool false, _, _ => by
    rw [Expr.render, Expr.lower]
    exact ⟨_, _,
      (shows_word (by decide) (by decide) (by simp [Script.atomOf]) (by decide)).anyPoint⟩
  | .null, _, _ => by
    rw [Expr.render, Expr.lower]
    exact ⟨_, _,
      (shows_word (by decide) (by decide) (by simp [Script.atomOf]) (by decide)).anyPoint⟩
  | .array elements, formed, readable => by
    obtain ⟨_, items⟩ := Expr.listShows elements formed readable
    rw [Expr.render, Expr.lower]
    exact ⟨_, _, ((shows_array items).of_text (by simp)).anyPoint⟩
  | .binary left op right, ⟨leftFormed, rightFormed⟩, ⟨leftReadable, rightReadable⟩ => by
    obtain ⟨_, _, l⟩ := Expr.shows left leftFormed leftReadable
    obtain ⟨_, _, r⟩ := Expr.shows right rightFormed rightReadable
    rw [Expr.render, Expr.lower]
    exact ⟨_, _, ((shows_binary l r op).of_text (by simp)).anyPoint⟩
  | .assign target value, ⟨isTarget, targetFormed, valueFormed⟩,
      ⟨targetReadable, valueReadable⟩ => by
    obtain ⟨_, _, t⟩ := Expr.shows target targetFormed targetReadable
    obtain ⟨_, _, v⟩ := Expr.shows value valueFormed valueReadable
    rw [Expr.render, Expr.lower]
    exact ⟨_, _, ((shows_assign t v (Expr.isSimpleTarget_lower isTarget)).of_text
      (by simp)).anyPoint⟩
  | .field object name, ⟨objectFormed, _⟩, ⟨takes, objectReadable, plain⟩ => by
    obtain ⟨_, _, o⟩ := Expr.shows object objectFormed objectReadable
    rw [Expr.render, Expr.lower]
    exact ⟨_, _, ((shows_field o takes plain).of_text (by simp)).anyPoint⟩
  | .index object key, ⟨objectFormed, keyFormed⟩, ⟨objectReadable, keyReadable⟩ => by
    obtain ⟨_, _, o⟩ := Expr.shows object objectFormed objectReadable
    obtain ⟨_, _, k⟩ := Expr.shows key keyFormed keyReadable
    rw [Expr.render, Expr.lower]
    exact ⟨_, _, ((shows_index o k).of_text (by simp)).anyPoint⟩
  | .new className args, ⟨_, argsFormed⟩, ⟨free, argsReadable⟩ => by
    obtain ⟨_, items⟩ := Expr.listShows args argsFormed argsReadable
    rw [Expr.render, Expr.lower]
    exact ⟨_, _, ((shows_new free items).of_text (by simp)).anyPoint⟩
  | .call callee args, ⟨calleeFormed, argsFormed⟩, ⟨calleeReadable, argsReadable⟩ => by
    obtain ⟨_, items⟩ := Expr.listShows args argsFormed argsReadable
    have calleeShows := fun readable => Expr.shows callee calleeFormed readable
    -- a call of a bare name may print through a function of the target
    cases callee
    case ident name =>
      by_cases builtin : name = "in"
      · subst builtin
        have console : Script.isBindingName "console" = true := by decide
        have log : Script.isIdentifierName "log" = true := by decide
        exact ⟨_, _, ((shows_call (shows_field (shows_name console) trivial log) items).of_text
          (by simp [Expr.render, builtinCallee?])).anyPoint⟩
      · have free : Script.isBindingName name = true :=
          calleeReadable.resolve_left fun same => builtin (by cases same; rfl)
        have notBuiltin : builtinCallee? name = none := by
          unfold builtinCallee?
          split
          · exact absurd rfl builtin
          · rfl
        have lowered : (Expr.call (.ident name) args).lower =
            .call (.name name) (Expr.lowerList args) := by
          simp [Expr.lower, builtin]
        rw [lowered]
        exact ⟨_, _, ((shows_call (shows_name free) items).of_text
          (by simp [Expr.render, notBuiltin])).anyPoint⟩
    all_goals
      obtain ⟨_, _, c⟩ := calleeShows (calleeReadable.resolve_left (by simp))
      exact ⟨_, _, ((shows_call c items).of_text (by simp [Expr.render])).anyPoint⟩

/-- The texts of readable expressions, separated by commas, show their script trees. -/
theorem Expr.listShows {L : Leaves} : (es : List Expr) → Expr.ListWellFormed L es →
    Expr.ListReadable es → ∃ parts, ListShows (Expr.renderList es).toList (Expr.lowerList es) parts
  | [], _, _ => ⟨[], by simpa [Expr.renderList, Expr.lowerList] using listShows_nil⟩
  | [e], ⟨formed, _⟩, ⟨readable, _⟩ => by
    obtain ⟨_, _, shows⟩ := Expr.shows e formed readable
    rw [Expr.renderList, Expr.lowerList, Expr.lowerList]
    exact ⟨_, listShows_single shows⟩
  | e :: f :: es, ⟨formed, moreFormed⟩, ⟨readable, moreReadable⟩ => by
    obtain ⟨_, _, shows⟩ := Expr.shows e formed readable
    obtain ⟨parts, items⟩ := Expr.listShows (f :: es) moreFormed moreReadable
    -- the parts of a nonempty list are not empty, so a comma joins them to the first
    have filled : parts ≠ [] := by
      rintro rfl
      rw [Expr.lowerList] at items
      cases items.reads
    rw [Expr.lowerList]
    exact ⟨_, (listShows_cons shows items filled).of_text (by simp [Expr.renderList])⟩

end

/-- A text that shows its tree is read as the tree alone, before a semicolon, or before a
closing parenthesis. -/
theorem Shows.rendersAs {e : Expr} {point : Prop} {first : Script.Token.Kind}
    {rest : List Script.Token} (shows : Shows e.render.toList e.lower point first rest) :
    e.RendersAs := by
  refine ⟨first, rest, fun flag ys ending => shows.lexes flag ys ?_, fun flag more ending => ?_⟩
  · intro c head
    rcases ending c head with rfl | rfl <;> exact .inl (by decide)
  · exact shows.exprReads flag more fun t head => by
      rcases ending t head with kind | kind <;> exact ⟨_, by simp [closingWords], kind⟩

/-- A readable expression of a well-formed tree is read back as its tree. -/
theorem Expr.rendersAs {L : Leaves} {e : Expr} (formed : e.WellFormed L) (readable : e.Readable) :
    e.RendersAs := by
  obtain ⟨_, _, shows⟩ := Expr.shows e formed readable
  exact shows.rendersAs

/-- The text of a readable expression of a parsed program is one line, and read as script
alone or before a semicolon or a closing parenthesis it is the expression's script tree. -/
theorem Expr.render_readsBack {L : Leaves} {e : Expr} (formed : e.WellFormed L)
    (readable : e.Readable) : '\n' ∉ e.render.toList ∧ e.RendersAs := by
  obtain ⟨_, _, shows⟩ := Expr.shows e formed readable
  exact ⟨shows.oneLine, shows.rendersAs⟩

/-- A call of the printing function on a sum of a field and a number, and on a field of
`10^21`, which is written `1e+21.x`, reads back. -/
theorem printed_sum_readsBack :
    '\n' ∉ (Expr.call (.ident "in")
        [.binary (.field (.ident "a") "b") .add (.number (Binary64.ofNat 1)),
          .field (.number (Binary64.ofNat (10 ^ 21))) "x"]).render.toList ∧
      (Expr.call (.ident "in")
        [.binary (.field (.ident "a") "b") .add (.number (Binary64.ofNat 1)),
          .field (.number (Binary64.ofNat (10 ^ 21))) "x"]).RendersAs := by
  have large : (Binary64.ofNat (10 ^ 21)).toInt? = some ((10 ^ 21 : Nat) : Int) := by
    decide +kernel
  refine Expr.render_readsBack (L := ⟨fun _ => True, fun _ => True, fun _ => True, trivial⟩)
    (by simp [Expr.WellFormed, Expr.ListWellFormed])
    (And.intro (.inl rfl) (And.intro (And.intro ?_ ?_)
      (And.intro (And.intro ?_ (And.intro ?_ (by decide))) trivial)))
  · exact And.intro (fun _ same => by cases same)
      (And.intro (by decide : Script.isBindingName "a" = true) (by decide))
  · exact And.intro (Exists.intro 1 (by decide)) (by decide)
  · intro v same n found
    cases same
    rw [large, Option.some.injEq] at found
    omega
  · exact And.intro (Exists.intro (10 ^ 21) large) (by decide +kernel)

/-- A field of a number is written with the point right after the digits, where the script's
lexer takes the point into the number: the code of `5.x` is no script at all. -/
theorem number_field_unreadable :
    Program.ofSource "5.x" = .ok ⟨[.expr (.field (.number (Binary64.ofNat 5)) "x")]⟩ ∧
      compileSource "5.x" = .ok "5.x;" ∧ Script.lex "5.x;" = .error .numeral :=
  ⟨by cbv, by cbv, by decide +kernel⟩

end VieCompiler
