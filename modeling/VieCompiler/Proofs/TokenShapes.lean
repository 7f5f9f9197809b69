import VieCompiler.Syntax.Lexer
import VieCompiler.Number.Reading
import Mathlib

/-!
# What the lexer's tokens hold

The parser copies the text of name, number and string tokens into the trees it builds, so
what these texts can be is what the leaves of a tree can be. A name token is a lone `!` or a
word that spells no reserved word; a number token is a nonempty run of ASCII digits; a string
token lacks the quote that delimited it, so it never holds both quotes
(`tokenize_shaped`).

The value the parser gives a number token is the double nearest to the number its digits
spell, and that is what `Binary64.ofText?` reads from the digits (`Binary64.ofText?_digits`).
-/

namespace VieCompiler

/-- Whether `chars` is a word: a word start followed by word characters. -/
def isWord : List Char → Bool
  | c :: rest => isWordStart c && rest.all isWordChar
  | [] => false

namespace Token

/-- The text of a name, number or string token has the shape of its kind. -/
def Shaped (t : Token) : Prop :=
  match t.kind with
  | .ident => t.lexeme = "!" ∨ (isWord t.lexeme.toList ∧ Keyword.ofWord? t.lexeme = none)
  | .number => t.lexeme.toList ≠ [] ∧ ∀ c ∈ t.lexeme.toList, c.isDigit
  | .string => '"' ∉ t.lexeme.toList ∨ '\'' ∉ t.lexeme.toList
  | _ => True

variable {c : Char} {lexeme : String} {line : Nat}

theorem shaped_of_ofSingle? {kind : Token.Kind} (found : Token.Kind.ofSingle? c = some kind) :
    Shaped ⟨kind, lexeme, line⟩ := by
  unfold Token.Kind.ofSingle? at found
  split at found <;> cases found <;> trivial

theorem shaped_withEqual {withEqual alone : Token.Kind}
    (found : Token.Kind.ofCompound? c = some (withEqual, alone)) :
    Shaped ⟨withEqual, lexeme, line⟩ := by
  unfold Token.Kind.ofCompound? at found
  split at found <;> cases found <;> trivial

theorem shaped_alone {withEqual alone : Token.Kind}
    (found : Token.Kind.ofCompound? c = some (withEqual, alone)) :
    Shaped ⟨alone, String.singleton c, line⟩ := by
  unfold Token.Kind.ofCompound? at found
  split at found <;> cases found
  -- a lone `!` is the one name that is no word
  all_goals first | trivial | exact .inl rfl

theorem shaped_string {rest : List Char} (isString : c = '"' ∨ c = '\'') :
    Shaped ⟨.string, String.ofList (rest.takeWhile (· != c)), line⟩ := by
  have outside : c ∉ rest.takeWhile (· != c) := fun mem => by
    simpa using List.mem_takeWhile_imp mem
  show '"' ∉ _ ∨ '\'' ∉ _
  rw [String.toList_ofList]
  rcases isString with rfl | rfl
  · exact .inl outside
  · exact .inr outside

theorem shaped_number {rest : List Char} (isDigit : c.isDigit) :
    Shaped ⟨.number, String.ofList (c :: rest.takeWhile Char.isDigit), line⟩ := by
  simp only [Shaped, String.toList_ofList]
  refine ⟨List.cons_ne_nil _ _, fun d mem => ?_⟩
  rcases List.mem_cons.mp mem with rfl | mem
  · exact isDigit
  · exact List.mem_takeWhile_imp mem

theorem shaped_ofWord {rest : List Char} (isStart : isWordStart c) :
    Shaped (Token.ofWord (String.ofList (c :: rest.takeWhile isWordChar)) line) := by
  unfold Token.ofWord
  split
  · trivial
  · rename_i notKeyword
    refine .inr ⟨?_, notKeyword⟩
    simp only [String.toList_ofList, isWord, isStart, Bool.true_and, List.all_eq_true]
    exact fun d mem => List.mem_takeWhile_imp mem

end Token

theorem shaped_of_map {tok : Token} {tokens : List Token} {x : Except LexicalError (List Token)}
    (h : (tok :: ·) <$> x = .ok tokens) (head : tok.Shaped)
    (tail : ∀ more, x = .ok more → ∀ t ∈ more, t.Shaped) : ∀ t ∈ tokens, t.Shaped := by
  cases x with
  | error e => cases h
  | ok more =>
    cases h
    exact List.forall_mem_cons.mpr ⟨head, tail more rfl⟩

/-- Every token the lexer makes from `chars` has the shape of its kind: each step of the
lexer makes at most one token, and makes it from the characters it reads. -/
theorem tokenizeFrom_shaped {line : Nat} {chars : List Char} {tokens : List Token}
    (h : tokenizeFrom line chars = .ok tokens) : ∀ t ∈ tokens, t.Shaped := by
  fun_induction tokenizeFrom line chars generalizing tokens with
  | case1 =>
    cases h
    exact List.forall_mem_singleton.mpr trivial
  | case2 line rest ih => exact ih h
  | case3 line c rest _ _ ih => exact ih h
  | case4 line rest _ _ ih => exact ih h
  | case5 line c rest _ _ _ kind found ih =>
    exact shaped_of_map h (Token.shaped_of_ofSingle? found) fun _ => ih
  | case6 line c rest _ _ _ _ withEqual alone found equal ih =>
    exact shaped_of_map h (Token.shaped_withEqual found) fun _ => ih
  | case7 line c rest _ _ _ _ withEqual alone found notEqual ih =>
    exact shaped_of_map h (Token.shaped_alone found) fun _ => ih
  | case8 => cases h
  | case9 line c rest _ _ _ _ _ isString body close after closed =>
    rename_i ih
    exact shaped_of_map h (Token.shaped_string isString) fun _ => ih
  | case10 line c rest _ _ _ _ _ _ isDigit ih =>
    exact shaped_of_map h (Token.shaped_number isDigit) fun _ => ih
  | case11 line c rest _ _ _ _ _ _ _ isStart ih =>
    exact shaped_of_map h (Token.shaped_ofWord isStart) fun _ => ih
  | case12 => cases h

theorem tokenize_shaped {source : String} {tokens : List Token}
    (h : tokenize source = .ok tokens) : ∀ t ∈ tokens, t.Shaped :=
  tokenizeFrom_shaped h

namespace Binary64

section Digits

variable {c : Char}

theorem toNat_le_of_isDigit (h : c.isDigit) : 48 ≤ c.toNat ∧ c.toNat ≤ 57 := by
  have toNat : c.toNat = c.val.toNat := rfl
  simp only [Char.isDigit, Bool.and_eq_true, decide_eq_true_eq, UInt32.le_iff_toNat_le,
    ge_iff_le] at h
  have : '0'.val.toNat = 48 := rfl
  have : '9'.val.toNat = 57 := rfl
  omega

theorem toLower_of_isDigit (h : c.isDigit) : c.toLower = c := by
  have notUpper : ¬ (c.val ≥ 'A'.val ∧ c.val ≤ 'Z'.val) := by
    have toNat : c.toNat = c.val.toNat := rfl
    have : 'A'.val.toNat = 65 := rfl
    simp only [UInt32.le_iff_toNat_le, ge_iff_le]
    have := toNat_le_of_isDigit h
    omega
  simp only [Char.toLower, notUpper, dite_false]

theorem isAsciiSpace_of_isDigit (h : c.isDigit) : isAsciiSpace c = false := by
  have digit := toNat_le_of_isDigit h
  cases space : isAsciiSpace c with
  | false => rfl
  | true =>
    simp only [isAsciiSpace, Bool.or_eq_true, decide_eq_true_eq] at space
    rcases space with ((((rfl | rfl) | rfl) | rfl) | rfl) | rfl <;> simp at digit

variable {digits : List Char}

theorem runTail_digits (all : ∀ c ∈ digits, c.isDigit) : runTail digits = (digits, []) := by
  induction digits with
  | nil => rfl
  | cons c rest ih =>
    have isDigit := all c List.mem_cons_self
    have notUnderscore : c ≠ '_' := by
      rintro rfl
      simp at isDigit
    have later := ih fun d mem => all d (List.mem_cons_of_mem c mem)
    rw [runTail.eq_2 c rest (by simp [notUnderscore]), if_pos isDigit, later]

theorem numeralParts_digits (nonempty : digits ≠ []) (all : ∀ c ∈ digits, c.isDigit) :
    numeralParts digits = some (digits, [], []) := by
  obtain ⟨c, rest, rfl⟩ := List.exists_cons_of_ne_nil nonempty
  have later := runTail_digits fun d mem => all d (List.mem_cons_of_mem c mem)
  simp [numeralParts, digitRun, all c List.mem_cons_self, later]

theorem dropWhile_space_digits (all : ∀ c ∈ digits, c.isDigit) :
    digits.dropWhile isAsciiSpace = digits :=
  List.dropWhile_eq_self_iff.mpr fun _ =>
    by simp [isAsciiSpace_of_isDigit (all _ (List.getElem_mem _))]

theorem stripSpaces_digits (all : ∀ c ∈ digits, c.isDigit) : stripSpaces digits = digits := by
  have reversed : ∀ c ∈ digits.reverse, c.isDigit := fun c mem => all c (List.mem_reverse.mp mem)
  rw [stripSpaces, dropWhile_space_digits all, dropWhile_space_digits reversed, List.reverse_reverse]

theorem splitSign_digits (nonempty : digits ≠ []) (all : ∀ c ∈ digits, c.isDigit) :
    splitSign digits = (false, digits) := by
  obtain ⟨c, rest, rfl⟩ := List.exists_cons_of_ne_nil nonempty
  have digit := toNat_le_of_isDigit (all c List.mem_cons_self)
  have notMinus : c ≠ '-' := by rintro rfl; simp at digit
  have notPlus : c ≠ '+' := by rintro rfl; simp at digit
  simp [splitSign, notMinus, notPlus]

theorem spellsIgnoringCase_digits (all : ∀ c ∈ digits, c.isDigit) (word : String)
    (letter : ∃ w ∈ word.toList, w.isDigit = false) : spellsIgnoringCase digits word = false := by
  have lower : digits.map Char.toLower = digits :=
    (List.map_congr_left fun c mem => toLower_of_isDigit (all c mem)).trans (List.map_id' digits)
  simp only [spellsIgnoringCase, lower, beq_eq_false_iff_ne]
  rintro rfl
  obtain ⟨w, mem, notDigit⟩ := letter
  simp [all w mem] at notDigit

theorem asciiForm_digits (all : ∀ c ∈ digits, c.isDigit) : asciiForm digits = some digits := by
  have below : digits.all (·.toNat < 128) = true := List.all_eq_true.mpr fun c mem => by
    have := toNat_le_of_isDigit (all c mem)
    simp only [decide_eq_true_eq]
    omega
  simp [asciiForm, below]

/-- What `ofText?` reads from a nonempty run of ASCII digits is the double nearest to the
number they spell. -/
theorem ofText?_digits (nonempty : digits ≠ []) (all : ∀ c ∈ digits, c.isDigit) :
    ofText? (String.ofList digits) = some (ofNat (digitValue digits)) := by
  have notInf := spellsIgnoringCase_digits all "inf" ⟨'i', by decide, rfl⟩
  have notInfinity := spellsIgnoringCase_digits all "infinity" ⟨'i', by decide, rfl⟩
  have notNan := spellsIgnoringCase_digits all "nan" ⟨'n', by decide, rfl⟩
  simp [ofText?, asciiForm_digits all, stripSpaces_digits all, splitSign_digits nonempty all,
    notInf, notInfinity, notNan, numeralParts_digits nonempty all, exponentPart, ofNat]

end Digits

end Binary64

end VieCompiler
