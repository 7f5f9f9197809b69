import VieCompiler.Proofs.Script.Lexer

/-!
# Reading a text piece by piece

Where one token of a script ends depends on the characters after it, so the tokens of a text
are not in general the tokens of its parts. `LexesPrefix before input tokens after rest` says
that `input` reads as `tokens` followed by the tokens of its suffix `rest`: the part before
`rest` is read the same way whatever `rest` holds. Such judgments compose, and each kind of
piece of generated code (a line break, a blank, a name, a punctuator, a string literal) gives
one under a condition on the character that follows it.

A line terminator ends every token, so a text that ends in one is read the same way whatever
follows it (`LexesPrefix.of_lineEnd`). The scanners of the lexer are stable in the same
sense: given a successful scan of `xs` that stops before the end of `xs`, scanning `xs ++ ys`
stops at the same place.
-/

namespace VieCompiler.Script

/-- Reading `input` from the line-break flag `before` gives `tokens`, then what reading `rest`
from the flag `after` gives. -/
def LexesPrefix (before : Bool) (input : List Char) (tokens : List Token) (after : Bool)
    (rest : List Char) : Prop :=
  lexFrom before input = (tokens ++ ·) <$> lexFrom after rest

namespace LexesPrefix

theorem refl (flag : Bool) (rest : List Char) : LexesPrefix flag rest [] flag rest := by
  simp only [LexesPrefix, List.nil_append]
  cases lexFrom flag rest <;> rfl

theorem trans {f g h : Bool} {input middle rest : List Char} {ts us : List Token}
    (first : LexesPrefix f input ts g middle) (second : LexesPrefix g middle us h rest) :
    LexesPrefix f input (ts ++ us) h rest := by
  unfold LexesPrefix at *
  rw [first, second]
  cases lexFrom h rest <;> simp [Functor.map, Except.map]

end LexesPrefix

section Lists

variable {α : Type} {p : α → Bool} {xs ys : List α}

theorem takeWhile_append_of_dropWhile_ne_nil (rests : xs.dropWhile p ≠ []) :
    (xs ++ ys).takeWhile p = xs.takeWhile p := by
  have lengths : (xs.takeWhile p).length ≠ xs.length := by
    intro same
    have whole : (xs.takeWhile p).length + (xs.dropWhile p).length = xs.length := by
      rw [← List.length_append, List.takeWhile_append_dropWhile]
    rw [same] at whole
    exact rests (List.eq_nil_of_length_eq_zero (by omega))
  rw [List.takeWhile_append, if_neg lengths]

theorem dropWhile_append_of_dropWhile_ne_nil (rests : xs.dropWhile p ≠ []) :
    (xs ++ ys).dropWhile p = xs.dropWhile p ++ ys := by
  rw [List.dropWhile_append]
  simp [rests]

theorem mem_dropWhile_of_not {a : α} (member : a ∈ xs) (fails : p a = false) :
    a ∈ xs.dropWhile p := by
  induction xs with
  | nil => simp at member
  | cons x xs ih =>
    rw [List.dropWhile_cons]
    split
    · rcases List.mem_cons.mp member with rfl | member
      · simp_all
      · exact ih member
    · exact member

theorem isPrefixOf_append_of_foreign [BEq α] [LawfulBEq α] {pre : List α} {a : α}
    (member : a ∈ xs) (foreign : a ∉ pre) :
    pre.isPrefixOf (xs ++ ys) = pre.isPrefixOf xs := by
  induction pre generalizing xs with
  | nil => simp
  | cons q pre ih =>
    cases xs with
    | nil => simp at member
    | cons x xs =>
      simp only [List.cons_append, List.isPrefixOf_cons_cons]
      rcases List.mem_cons.mp member with rfl | member
      · have differ : q ≠ a := fun same => foreign (same ▸ List.mem_cons_self)
        rw [beq_eq_false_iff_ne.mpr differ, Bool.false_and, Bool.false_and]
      · rw [ih member (fun inPre => foreign (List.mem_cons_of_mem q inPre))]

end Lists

section Scanners

variable {xs ys value after : List Char}

theorem escape?_suffix {e : Char} {rest : List Char}
    (scan : escape? (e :: rest) = .ok (value, after)) : after <:+ rest := by
  simp only [escape?] at scan
  split_ifs at scan
  all_goals first
    | (obtain ⟨-, rfl⟩ := Prod.mk.inj (Except.ok.inj scan); simp [List.tail_suffix])
    | (split at scan <;> simp only [Except.ok.injEq, Prod.mk.injEq, reduceCtorEq] at scan
       all_goals obtain ⟨-, rfl⟩ := scan
       all_goals first | exact List.drop_suffix _ _ | exact List.suffix_refl _)

theorem escape?_append (scan : escape? xs = .ok (value, after)) (left : after ≠ []) :
    escape? (xs ++ ys) = .ok (value, after ++ ys) := by
  cases xs with
  | nil => simp [escape?] at scan
  | cons e rest =>
    have filled : rest ≠ [] := fun empty => left (by simpa [empty] using escape?_suffix scan)
    obtain ⟨c, cs, rfl⟩ := List.exists_cons_of_ne_nil filled
    simp only [escape?, List.cons_append, List.length_append, List.length_cons] at scan ⊢
    rw [List.head?_cons, List.tail_cons] at scan ⊢
    split_ifs at scan ⊢
    all_goals first
      | omega
      | (obtain ⟨rfl, rfl⟩ := Prod.mk.inj (Except.ok.inj scan); rfl)
      | (cases found : singleEscape? e <;> simp only [found, reduceCtorEq] at scan ⊢ <;>
          obtain ⟨rfl, rfl⟩ := Prod.mk.inj (Except.ok.inj scan) <;> rfl)
      | (rw [← List.cons_append, List.take_append_of_le_length (by simp; omega),
            List.drop_append_of_le_length (by simp; omega)]
         cases found : hexChar? (List.take _ (c :: cs)) <;>
           simp only [found, reduceCtorEq] at scan ⊢
         obtain ⟨rfl, rfl⟩ := Prod.mk.inj (Except.ok.inj scan)
         rfl)

theorem stringBody_backslash {quote : Char} {rest escaped afterEscape : List Char}
    (found : escape? rest = .ok (escaped, afterEscape)) :
    stringBody quote ('\\' :: rest) =
      (fun (more, close) => (escaped ++ more, close)) <$> stringBody quote afterEscape := by
  rw [stringBody]
  split <;> simp_all

theorem stringBody_append {quote : Char} :
    ∀ {value after : List Char}, stringBody quote xs = .ok (value, after) →
      stringBody quote (xs ++ ys) = .ok (value, after ++ ys) := by
  fun_induction stringBody quote xs with
  | case1 => simp
  | case2 rest escaped afterEscape found _ ih =>
    intro value after scan
    obtain ⟨⟨more, close⟩, scanMore, same⟩ := Except.map_eq_ok_iff.mp scan
    obtain ⟨rfl, rfl⟩ := Prod.mk.inj same
    have closed : afterEscape ≠ [] := by
      rintro rfl
      simp [stringBody] at scanMore
    rw [List.cons_append, stringBody_backslash (escape?_append found closed), ih scanMore]
    rfl
  | case3 rest e found => simp
  | case4 rest notBackslash =>
    intro value after scan
    obtain ⟨rfl, rfl⟩ := Prod.mk.inj (Except.ok.inj scan)
    simp [stringBody]
  | case5 c rest notBackslash other ends => simp
  | case6 c rest notBackslash other goesOn ih =>
    intro value after scan
    obtain ⟨⟨more, close⟩, scanMore, same⟩ := Except.map_eq_ok_iff.mp scan
    obtain ⟨rfl, rfl⟩ := Prod.mk.inj same
    simp only [List.cons_append, stringBody, other, goesOn, if_false, ih scanMore]
    rfl

theorem blockComment_append {broke : Bool} :
    blockComment xs = some (broke, after) → blockComment (xs ++ ys) = some (broke, after ++ ys) := by
  fun_induction blockComment xs generalizing broke with
  | case1 => simp
  | case2 rest =>
    intro scan
    obtain ⟨rfl, rfl⟩ := Prod.mk.inj (Option.some.inj scan)
    rfl
  | case3 c rest notClose ih =>
    intro scan
    obtain ⟨⟨inner, afterInner⟩, scanRest, same⟩ := Option.map_eq_some_iff.mp scan
    obtain ⟨rfl, rfl⟩ := Prod.mk.inj same
    have filled : rest ≠ [] := by
      rintro rfl
      simp [blockComment] at scanRest
    obtain ⟨d, ds, rfl⟩ := List.exists_cons_of_ne_nil filled
    rw [List.cons_append, blockComment.eq_3 c _ (fun more star slash => notClose ds star (by
      simp only [List.cons_append, List.cons.injEq] at slash
      rw [slash.1])), ih scanRest]
    rfl

theorem exponentSign_suffix (chars : List Char) : (exponentSign chars).2 <:+ chars := by
  fun_cases exponentSign chars <;> simp [List.suffix_cons]

theorem fractionPart_suffix (chars : List Char) : (fractionPart chars).2 <:+ chars := by
  fun_cases fractionPart chars with
  | case1 afterPoint => exact (List.dropWhile_suffix _).trans (List.suffix_cons _ _)
  | case2 => exact List.suffix_refl _

theorem fractionPart_append (left : (fractionPart xs).2 ≠ []) :
    fractionPart (xs ++ ys) = ((fractionPart xs).1, (fractionPart xs).2 ++ ys) := by
  cases xs with
  | nil => simp [fractionPart] at left
  | cons c cs =>
    by_cases point : c = '.'
    · subst point
      simp only [fractionPart] at left
      simp only [List.cons_append, fractionPart, takeWhile_append_of_dropWhile_ne_nil left,
        dropWhile_append_of_dropWhile_ne_nil left]
    · simp [fractionPart, point]

theorem exponentPart?_suffix {exponent : Int} (scan : exponentPart? xs = some (exponent, after)) :
    after <:+ xs := by
  cases xs with
  | nil => simp [exponentPart?] at scan
  | cons e rest =>
    simp only [exponentPart?] at scan
    split_ifs at scan
    all_goals
      obtain ⟨-, rfl⟩ := Prod.mk.inj (Option.some.inj scan)
      exact (List.dropWhile_suffix _).trans ((exponentSign_suffix rest).trans (List.suffix_cons _ _))

theorem exponentSign_append (left : (exponentSign xs).2 ≠ []) :
    exponentSign (xs ++ ys) = ((exponentSign xs).1, (exponentSign xs).2 ++ ys) := by
  cases xs with
  | nil => simp [exponentSign] at left
  | cons c cs =>
    by_cases plus : c = '+'
    · subst plus
      rfl
    · by_cases minus : c = '-'
      · subst minus
        rfl
      · simp [exponentSign, plus, minus]

theorem exponentPart?_append {exponent : Int} (scan : exponentPart? xs = some (exponent, after))
    (left : after ≠ []) : exponentPart? (xs ++ ys) = some (exponent, after ++ ys) := by
  cases xs with
  | nil => simp [exponentPart?] at scan
  | cons e rest =>
    simp only [exponentPart?] at scan
    split_ifs at scan with mark digits
    all_goals
      obtain ⟨rfl, rfl⟩ := Prod.mk.inj (Option.some.inj scan)
      have signed : (exponentSign rest).2 ≠ [] := fun empty => left (by simp [empty])
      simp_all [exponentPart?, exponentSign_append signed,
        takeWhile_append_of_dropWhile_ne_nil left, dropWhile_append_of_dropWhile_ne_nil left]

theorem exponentPart?_append_of_head {c : Char} (notMark : c ≠ 'e' ∧ c ≠ 'E') :
    exponentPart? (c :: xs ++ ys) = none := by
  simp [exponentPart?, notMark]

theorem numericLiteral_append {number : Binary64} (scan : numericLiteral xs = .ok (number, after))
    (left : after ≠ []) : numericLiteral (xs ++ ys) = .ok (number, after ++ ys) := by
  simp only [numericLiteral] at scan ⊢
  split_ifs at scan with nothing leadingZero follows
  obtain ⟨rfl, rfl⟩ := Prod.mk.inj (Except.ok.inj scan)
  generalize fractionIs : fractionPart (xs.dropWhile Char.isDigit) = fraction at *
  -- the characters after the literal are a nonempty suffix of those after its fraction
  have fractionLeft : fraction.2 ≠ [] := by
    cases found : exponentPart? fraction.2 with
    | none => simpa [found] using left
    | some pair =>
      obtain ⟨exponent, afterExponent⟩ := pair
      simp only [found, Option.getD_some] at left
      intro empty
      exact left (List.eq_nil_of_suffix_nil (empty ▸ exponentPart?_suffix found))
  have digitsLeft : xs.dropWhile Char.isDigit ≠ [] := by
    intro empty
    rw [empty] at fractionIs
    exact fractionLeft (by rw [← fractionIs]; rfl)
  rw [takeWhile_append_of_dropWhile_ne_nil digitsLeft,
    dropWhile_append_of_dropWhile_ne_nil digitsLeft, fractionPart_append (fractionIs ▸ fractionLeft)]
  rw [fractionIs, if_neg nothing, if_neg leadingZero]
  cases found : exponentPart? fraction.2 with
  | none =>
    simp only [found, Option.getD_none] at follows ⊢
    obtain ⟨c, cs, same⟩ := List.exists_cons_of_ne_nil fractionLeft
    rw [same, List.head?_cons, Option.any_some] at follows
    have notMark : c ≠ 'e' ∧ c ≠ 'E' := by
      constructor <;> rintro rfl <;> simp [isIdentifierStart, Char.isAlpha, Char.isLower,
        Char.isUpper] at follows
    rw [same, exponentPart?_append_of_head notMark, Option.getD_none, List.cons_append,
      List.head?_cons, Option.any_some, if_neg follows]
  | some pair =>
    obtain ⟨exponent, afterExponent⟩ := pair
    simp only [found, Option.getD_some] at follows left ⊢
    obtain ⟨c, cs, same⟩ := List.exists_cons_of_ne_nil left
    rw [exponentPart?_append found left, Option.getD_some, same, List.cons_append,
      List.head?_cons]
    rw [same, List.head?_cons] at follows
    rw [if_neg follows]

theorem punctuatorFits_append {p : List Char} {a : Char} (member : a ∈ xs) (foreign : a ∉ p) :
    punctuatorFits (xs ++ ys) p = punctuatorFits xs p := by
  unfold punctuatorFits
  rw [isPrefixOf_append_of_foreign member foreign]
  by_cases optional : p = ['?', '.']
  · subst optional
    cases fits : ['?', '.'].isPrefixOf xs
    · simp
    · obtain ⟨rest, rfl⟩ := List.isPrefixOf_iff_prefix.mp fits
      have filled : rest ≠ [] := by
        rintro rfl
        exact foreign (by simpa using member)
      obtain ⟨c, cs, rfl⟩ := List.exists_cons_of_ne_nil filled
      simp
  · rw [beq_eq_false_iff_ne.mpr optional]
    simp

theorem punctuator?_append {a : Char} (member : a ∈ xs)
    (foreign : ∀ p ∈ punctuators, a ∉ p.toList) : punctuator? (xs ++ ys) = punctuator? xs := by
  unfold punctuator?
  apply List.find?_congr
  intro p listed
  obtain ⟨q, listedQ, rfl⟩ := List.mem_map.mp listed
  exact punctuatorFits_append member (foreign q listedQ)

end Scanners

namespace LexesPrefix

variable {f g h : Bool} {input middle rest : List Char} {t : Token} {ts : List Token}

theorem skip (step : lexFrom f input = lexFrom g middle) (more : LexesPrefix g middle ts h rest) :
    LexesPrefix f input ts h rest := by
  unfold LexesPrefix at *
  rw [step, more]

theorem token (step : lexFrom f input = (t :: ·) <$> lexFrom g middle)
    (more : LexesPrefix g middle ts h rest) : LexesPrefix f input (t :: ts) h rest := by
  unfold LexesPrefix at *
  rw [step, more]
  cases lexFrom h rest <;> rfl

end LexesPrefix

section Steps

variable {f : Bool} {c : Char} {rest : List Char}

theorem lexFrom_lineBreak (kind : start c rest = .lineBreak) :
    lexFrom f (c :: rest) = lexFrom true rest := by
  rw [lexFrom, kind]

theorem lexFrom_blank (kind : start c rest = .blank) : lexFrom f (c :: rest) = lexFrom f rest := by
  rw [lexFrom, kind]

theorem lexFrom_lineComment (kind : start c rest = .lineComment) :
    lexFrom f (c :: rest) = lexFrom f (rest.dropWhile fun d => !isLineTerminator d) := by
  rw [lexFrom, kind]

theorem lexFrom_blockComment {broke : Bool} {after : List Char} (kind : start c rest = .blockComment)
    (scan : blockComment rest.tail = some (broke, after)) :
    lexFrom f (c :: rest) = lexFrom (f || broke) after := by
  rw [lexFrom, kind]
  dsimp only
  split <;> simp_all

theorem lexFrom_name (kind : start c rest = .name) :
    lexFrom f (c :: rest) =
      (⟨.name (String.ofList (c :: rest.takeWhile isIdentifierPart)), f⟩ :: ·) <$>
        lexFrom false (rest.dropWhile isIdentifierPart) := by
  rw [lexFrom, kind]

theorem lexFrom_number {value : Binary64} {after : List Char} (kind : start c rest = .number)
    (scan : numericLiteral (c :: rest) = .ok (value, after)) :
    lexFrom f (c :: rest) = (⟨.number value, f⟩ :: ·) <$> lexFrom false after := by
  rw [lexFrom, kind]
  dsimp only
  split <;> simp_all

theorem lexFrom_string {value after : List Char} (kind : start c rest = .string)
    (scan : stringBody c rest = .ok (value, after)) :
    lexFrom f (c :: rest) = (⟨.string (String.ofList value), f⟩ :: ·) <$> lexFrom false after := by
  rw [lexFrom, kind]
  dsimp only
  split <;> simp_all

theorem lexFrom_punctuator {p : List Char} (kind : start c rest = .punctuator)
    (scan : punctuator? (c :: rest) = some p) :
    lexFrom f (c :: rest) =
      (⟨.punctuator (String.ofList p), f⟩ :: ·) <$> lexFrom false ((c :: rest).drop p.length) := by
  rw [lexFrom, kind]
  dsimp only
  split <;> simp_all

theorem start_eq_lineBreak_iff : start c rest = .lineBreak ↔ isLineTerminator c := by
  unfold start
  constructor
  · intro kind
    split_ifs at kind with line
    exact line
  · intro line
    simp [line]

theorem start_of_blank (blank : isWhiteSpace c) (notLine : isLineTerminator c = false) :
    start c rest = .blank := by
  simp [start, blank, notLine]

theorem blockComment_suffix {broke : Bool} {after : List Char} :
    blockComment rest = some (broke, after) → after <:+ rest := by
  fun_induction blockComment rest generalizing broke with
  | case1 => simp
  | case2 more =>
    intro scan
    obtain ⟨-, rfl⟩ := Prod.mk.inj (Option.some.inj scan)
    exact (List.suffix_cons _ _).trans (List.suffix_cons _ _)
  | case3 d more notClose ih =>
    intro scan
    obtain ⟨⟨inner, afterInner⟩, scanRest, same⟩ := Option.map_eq_some_iff.mp scan
    obtain ⟨-, rfl⟩ := Prod.mk.inj same
    exact (ih scanRest).trans (List.suffix_cons _ _)

theorem stringBody_suffix {quote : Char} :
    ∀ {value after : List Char}, stringBody quote rest = .ok (value, after) → after <:+ rest := by
  fun_induction stringBody quote rest with
  | case1 => simp
  | case2 more escaped afterEscape found _ ih =>
    intro value after scan
    obtain ⟨⟨more', close⟩, scanMore, same⟩ := Except.map_eq_ok_iff.mp scan
    simp only [Prod.mk.injEq] at same
    obtain ⟨-, rfl⟩ := same
    cases more with
    | nil => simp [escape?] at found
    | cons e more =>
      exact ((ih scanMore).trans (escape?_suffix found)).trans
        ((List.suffix_cons _ _).trans (List.suffix_cons _ _))
  | case3 more e found => simp
  | case4 more notBackslash =>
    intro value after scan
    obtain ⟨-, rfl⟩ := Prod.mk.inj (Except.ok.inj scan)
    exact List.suffix_cons _ _
  | case5 d more notBackslash other ends => simp
  | case6 d more notBackslash other goesOn ih =>
    intro value after scan
    obtain ⟨⟨more', close⟩, scanMore, same⟩ := Except.map_eq_ok_iff.mp scan
    simp only [Prod.mk.injEq] at same
    obtain ⟨-, rfl⟩ := same
    exact (ih scanMore).trans (List.suffix_cons _ _)

theorem numericLiteral_suffix {value : Binary64} {after : List Char}
    (scan : numericLiteral rest = .ok (value, after)) : after <:+ rest := by
  simp only [numericLiteral] at scan
  split_ifs at scan
  obtain ⟨-, rfl⟩ := Prod.mk.inj (Except.ok.inj scan)
  have fraction := (fractionPart_suffix (rest.dropWhile Char.isDigit)).trans
    (List.dropWhile_suffix Char.isDigit)
  cases found : exponentPart? (fractionPart (rest.dropWhile Char.isDigit)).2 with
  | none => simpa using fraction
  | some pair =>
    obtain ⟨exponent, afterExponent⟩ := pair
    exact (exponentPart?_suffix found).trans fraction

/-- The kind of lexeme at `c` does not change when more characters follow `rest`, once `rest`
holds a character that no comment opener or closer contains. -/
theorem start_append {ys : List Char} {a : Char} (member : a ∈ rest)
    (inert : a ≠ '<' ∧ a ≠ '!' ∧ a ≠ '-' ∧ a ≠ '>') : start c (rest ++ ys) = start c rest := by
  obtain ⟨d, ds, rfl⟩ := List.exists_cons_of_ne_nil (List.ne_nil_of_mem member)
  have outside : ∀ pre : List Char, (∀ b ∈ pre, b = '<' ∨ b = '!' ∨ b = '-' ∨ b = '>') →
      pre.isPrefixOf (c :: (d :: ds ++ ys)) = pre.isPrefixOf (c :: d :: ds) := by
    intro pre within
    rw [← List.cons_append]
    exact isPrefixOf_append_of_foreign (List.mem_cons_of_mem c member)
      (fun inPre => by rcases within a inPre with same | same | same | same <;> simp_all)
  unfold start
  rw [outside ['<', '!', '-', '-'] (by simp), outside ['-', '-', '>'] (by simp)]
  rfl

end Steps

section LineEnd

variable {xs ys : List Char} {a : Char}

theorem isLineTerminator_cases (line : isLineTerminator a) :
    a = '\n' ∨ a = '\r' ∨ a = '\u2028' ∨ a = '\u2029' := by
  simp only [isLineTerminator, Bool.or_eq_true, decide_eq_true_eq] at line
  rcases line with ((same | same) | same) | same <;> simp [same]

theorem lineTerminators_outside_punctuators :
    ∀ p ∈ punctuators, ∀ c ∈ ['\n', '\r', '\u2028', '\u2029'], c ∉ p.toList := by
  have outside : ∀ c ∈ ['\n', '\r', '\u2028', '\u2029'], ∀ p ∈ punctuators, c ∉ p.toList :=
    forall_mem_of_all_decide (by decide_cbv)
  exact fun p listed c terminator => outside c terminator p listed

/-- What a line terminator is not: part of a name, a number or a punctuator. -/
theorem lineTerminator_inert (line : isLineTerminator a) :
    isWhiteSpace a = false ∧ isIdentifierPart a = false ∧ a.isDigit = false ∧ a ≠ '.' ∧
      a ≠ 'e' ∧ a ≠ 'E' ∧ a ≠ '+' ∧ a ≠ '-' ∧ (∀ p ∈ punctuators, a ∉ p.toList) := by
  have cases := isLineTerminator_cases line
  -- the line terminators lie outside the blocks of the accented letters
  have notPart : isIdentifierPart a = false := by
    rw [isIdentifierPart_of_outside (by rcases cases with rfl | rfl | rfl | rfl <;> decide)]
    rcases cases with rfl | rfl | rfl | rfl <;> decide
  refine ⟨?_, notPart, ?_, ?_, ?_, ?_, ?_, ?_, fun p listed =>
    lineTerminators_outside_punctuators p listed a (by
      rcases cases with rfl | rfl | rfl | rfl <;> simp)⟩ <;>
  rcases cases with rfl | rfl | rfl | rfl <;> decide

theorem getLast?_of_suffix {small large : List Char} (suffix : small <:+ large)
    (filled : small ≠ []) : large.getLast? = small.getLast? := by
  obtain ⟨front, rfl⟩ := suffix
  rw [List.getLast?_append]
  cases last : small.getLast? with
  | none => exact absurd (List.getLast?_eq_none_iff.mp last) filled
  | some c => rfl

theorem blockComment_last {broke : Bool} :
    blockComment xs = some (broke, []) → xs.getLast? = some '/' := by
  fun_induction blockComment xs generalizing broke with
  | case1 => simp
  | case2 rest =>
    intro scan
    obtain ⟨-, rfl⟩ := Prod.mk.inj (Option.some.inj scan)
    rfl
  | case3 c rest notClose ih =>
    intro scan
    obtain ⟨⟨inner, afterInner⟩, scanRest, same⟩ := Option.map_eq_some_iff.mp scan
    obtain ⟨-, rfl⟩ := Prod.mk.inj same
    have last := ih scanRest
    have filled : rest ≠ [] := by
      rintro rfl
      simp at last
    rw [List.getLast?_cons, last]
    rfl

theorem stringBody_last {quote : Char} :
    ∀ {value : List Char}, stringBody quote xs = .ok (value, []) → xs.getLast? = some quote := by
  fun_induction stringBody quote xs with
  | case1 => simp
  | case2 rest escaped afterEscape found _ ih =>
    intro value scan
    obtain ⟨⟨more, close⟩, scanMore, same⟩ := Except.map_eq_ok_iff.mp scan
    simp only [Prod.mk.injEq] at same
    obtain ⟨-, rfl⟩ := same
    have last := ih scanMore
    have filled : afterEscape ≠ [] := by
      rintro rfl
      simp at last
    cases rest with
    | nil => simp [escape?] at found
    | cons e more =>
      rw [List.getLast?_cons,
        getLast?_of_suffix ((escape?_suffix found).trans (List.suffix_cons e more)) filled, last]
      rfl
  | case3 rest e found => simp
  | case4 rest notBackslash =>
    intro value scan
    obtain ⟨-, rfl⟩ := Prod.mk.inj (Except.ok.inj scan)
    rfl
  | case5 c rest notBackslash other ends => simp
  | case6 c rest notBackslash other goesOn ih =>
    intro value scan
    obtain ⟨⟨more, close⟩, scanMore, same⟩ := Except.map_eq_ok_iff.mp scan
    simp only [Prod.mk.injEq] at same
    obtain ⟨-, rfl⟩ := same
    have last := ih scanMore
    have filled : rest ≠ [] := by
      rintro rfl
      simp at last
    rw [List.getLast?_cons, last]
    rfl

theorem mem_fractionPart (member : a ∈ xs) (notPoint : a ≠ '.') (notDigit : a.isDigit = false) :
    a ∈ (fractionPart xs).2 := by
  fun_cases fractionPart xs with
  | case1 afterPoint =>
    rcases List.mem_cons.mp member with same | member
    · exact absurd same notPoint
    · exact mem_dropWhile_of_not member notDigit
  | case2 => exact member

theorem mem_exponentSign (member : a ∈ xs) (notPlus : a ≠ '+') (notMinus : a ≠ '-') :
    a ∈ (exponentSign xs).2 := by
  fun_cases exponentSign xs with
  | case1 more => exact (List.mem_cons.mp member).resolve_left notPlus
  | case2 more => exact (List.mem_cons.mp member).resolve_left notMinus
  | case3 => exact member

theorem numericLiteral_keeps_lineTerminator {number : Binary64}
    (scan : numericLiteral xs = .ok (number, after)) (member : a ∈ xs) (line : isLineTerminator a) :
    a ∈ after := by
  obtain ⟨-, -, digit, point, small, large, plus, minus, -⟩ := lineTerminator_inert line
  simp only [numericLiteral] at scan
  split_ifs at scan
  obtain ⟨-, rfl⟩ := Prod.mk.inj (Except.ok.inj scan)
  have inFraction := mem_fractionPart (mem_dropWhile_of_not member digit) point digit
  cases found : exponentPart? (fractionPart (xs.dropWhile Char.isDigit)).2 with
  | none => simpa using inFraction
  | some pair =>
    obtain ⟨exponent, afterExponent⟩ := pair
    simp only [Option.getD_some]
    generalize (fractionPart (xs.dropWhile Char.isDigit)).2 = marked at found inFraction
    cases marked with
    | nil => simp at inFraction
    | cons m rest =>
      simp only [exponentPart?] at found
      split_ifs at found with mark
      all_goals
        obtain ⟨-, rfl⟩ := Prod.mk.inj (Option.some.inj found)
        have inRest : a ∈ rest := (List.mem_cons.mp inFraction).resolve_left (by
          rintro rfl
          rcases mark with rfl | rfl <;> contradiction)
        exact mem_dropWhile_of_not (mem_exponentSign inRest plus minus) digit

theorem punctuator?_prefix {chars p : List Char} (found : punctuator? chars = some p) :
    p <+: chars ∧ ∃ q ∈ punctuators, q.toList = p := by
  obtain ⟨q, listed, rfl⟩ := List.mem_map.mp (List.mem_of_find?_eq_some found)
  have fits : punctuatorFits chars q.toList = true := List.find?_some found
  simp only [punctuatorFits, Bool.and_eq_true] at fits
  exact ⟨List.isPrefixOf_iff_prefix.mp fits.1, q, listed, rfl⟩

theorem getLast?_of_cons {c stop : Char} {rest : List Char}
    (last : (c :: rest).getLast? = some stop) (notLine : isLineTerminator c = false)
    (line : isLineTerminator stop) : rest.getLast? = some stop ∧ stop ∈ rest := by
  cases rest with
  | nil =>
    simp only [List.getLast?_singleton, Option.some.injEq] at last
    subst last
    simp_all
  | cons d ds =>
    rw [getLast?_of_suffix (List.suffix_cons c _) (List.cons_ne_nil d ds)] at last
    exact ⟨last, List.mem_of_getLast? last⟩

theorem not_lineTerminator_of_start {c : Char} {rest : List Char} (kind : start c rest ≠ .lineBreak) :
    isLineTerminator c = false := by
  cases line : isLineTerminator c
  · rfl
  · exact absurd (start_eq_lineBreak_iff.mpr line) kind

/-- What `lexFrom f xs` reads from `xs`, which ends in the line terminator `stop`, it reads the
same way from `xs ++ ys`, and the tokens of `ys` come after a line break. -/
def ReadsToLineEnd (stop : Char) (ys : List Char) (f : Bool) (xs : List Char) : Prop :=
  ∀ {tokens : List Token}, lexFrom f xs = .ok tokens → xs.getLast? = some stop →
    LexesPrefix f (xs ++ ys) tokens true ys

/-! One step of the lexer from `c :: rest`, which ends in the line terminator `stop`: the lexeme
that starts at `c` ends before `stop` or is `stop` itself, so it is read alike with `ys` after
it, and what comes after the lexeme reads on as it did (`ih`). -/

variable {stop c : Char} {rest : List Char} {flag : Bool} {tokens : List Token}

theorem lineTerminator_ne_openers (line : isLineTerminator stop) :
    stop ≠ '<' ∧ stop ≠ '!' ∧ stop ≠ '-' ∧ stop ≠ '>' := by
  rcases isLineTerminator_cases line with rfl | rfl | rfl | rfl <;> decide

theorem lineEnd_lineBreak (kind : start c rest = .lineBreak) (ih : ReadsToLineEnd stop ys true rest)
    (scan : lexFrom true rest = .ok tokens) (last : (c :: rest).getLast? = some stop) :
    LexesPrefix flag (c :: rest ++ ys) tokens true ys := by
  have breaks : start c (rest ++ ys) = .lineBreak :=
    start_eq_lineBreak_iff.mpr (start_eq_lineBreak_iff.mp kind)
  refine LexesPrefix.skip (lexFrom_lineBreak breaks) ?_
  -- the break is `stop` itself, or `stop` ends the rest
  cases rest with
  | nil =>
    simp only [lexFrom, Except.ok.injEq] at scan
    subst scan
    exact LexesPrefix.refl true ys
  | cons d ds =>
    rw [getLast?_of_suffix (List.suffix_cons c _) (List.cons_ne_nil d ds)] at last
    exact ih scan last

theorem lineEnd_blank (line : isLineTerminator stop) (kind : start c rest = .blank)
    (ih : ReadsToLineEnd stop ys flag rest) (scan : lexFrom flag rest = .ok tokens)
    (last : (c :: rest).getLast? = some stop) :
    LexesPrefix flag (c :: rest ++ ys) tokens true ys := by
  obtain ⟨restLast, stopIn⟩ := getLast?_of_cons last
    (not_lineTerminator_of_start (by rw [kind]; decide)) line
  rw [List.cons_append]
  refine LexesPrefix.skip
    (lexFrom_blank (by rw [start_append stopIn (lineTerminator_ne_openers line), kind])) ?_
  exact ih scan restLast

theorem lineEnd_lineComment (line : isLineTerminator stop) (kind : start c rest = .lineComment)
    (ih : ReadsToLineEnd stop ys flag (rest.dropWhile fun d => !isLineTerminator d))
    (scan : lexFrom flag (rest.dropWhile fun d => !isLineTerminator d) = .ok tokens)
    (last : (c :: rest).getLast? = some stop) :
    LexesPrefix flag (c :: rest ++ ys) tokens true ys := by
  obtain ⟨restLast, stopIn⟩ := getLast?_of_cons last
    (not_lineTerminator_of_start (by rw [kind]; decide)) line
  -- the comment stops in front of `stop`
  have keeps : stop ∈ rest.dropWhile (fun d => !isLineTerminator d) :=
    mem_dropWhile_of_not stopIn (by simp [line])
  have filled := List.ne_nil_of_mem keeps
  rw [List.cons_append]
  refine LexesPrefix.skip
    (lexFrom_lineComment (by rw [start_append stopIn (lineTerminator_ne_openers line), kind])) ?_
  rw [dropWhile_append_of_dropWhile_ne_nil filled]
  exact ih scan ((getLast?_of_suffix (List.dropWhile_suffix _) filled).symm.trans restLast)

theorem lineEnd_blockComment (line : isLineTerminator stop) (kind : start c rest = .blockComment)
    {broke : Bool} {after : List Char} (scanComment : blockComment rest.tail = some (broke, after))
    (ih : ReadsToLineEnd stop ys (flag || broke) after)
    (scan : lexFrom (flag || broke) after = .ok tokens) (last : (c :: rest).getLast? = some stop) :
    LexesPrefix flag (c :: rest ++ ys) tokens true ys := by
  obtain ⟨restLast, stopIn⟩ := getLast?_of_cons last
    (not_lineTerminator_of_start (by rw [kind]; decide)) line
  have afterSuffix := (blockComment_suffix scanComment).trans (List.tail_suffix rest)
  -- the comment ends in `/`, so `stop` comes after it
  have afterFilled : after ≠ [] := by
    rintro rfl
    have closing := blockComment_last scanComment
    have tailFilled : rest.tail ≠ [] := by
      rintro empty
      simp [empty] at closing
    rw [getLast?_of_suffix (List.tail_suffix rest) tailFilled, closing] at restLast
    simp only [Option.some.injEq] at restLast
    subst restLast
    simp [isLineTerminator] at line
  rw [List.cons_append]
  refine LexesPrefix.skip (lexFrom_blockComment
      (by rw [start_append stopIn (lineTerminator_ne_openers line), kind]) ?_)
    (ih scan ((getLast?_of_suffix afterSuffix afterFilled).symm.trans restLast))
  rw [List.tail_append_of_ne_nil (List.ne_nil_of_mem stopIn)]
  exact blockComment_append scanComment

/-- A token read from `c :: rest` up to `after`, which still ends in `stop`, is read alike from
`c :: rest ++ ys` up to `after ++ ys`. -/
theorem lineEnd_token {t : Token} {after : List Char} (ih : ReadsToLineEnd stop ys false after)
    (step : lexFrom flag (c :: (rest ++ ys)) = (t :: ·) <$> lexFrom false (after ++ ys))
    (scan : (t :: ·) <$> lexFrom false after = .ok tokens) (afterLast : after.getLast? = some stop) :
    LexesPrefix flag (c :: rest ++ ys) tokens true ys := by
  obtain ⟨more, scanMore, rfl⟩ := Except.map_eq_ok_iff.mp scan
  rw [List.cons_append]
  exact LexesPrefix.token step (ih scanMore afterLast)

theorem lineEnd_name (line : isLineTerminator stop) (kind : start c rest = .name)
    (ih : ReadsToLineEnd stop ys false (rest.dropWhile isIdentifierPart))
    (scan : (⟨.name (String.ofList (c :: rest.takeWhile isIdentifierPart)), flag⟩ :: ·) <$>
      lexFrom false (rest.dropWhile isIdentifierPart) = .ok tokens)
    (last : (c :: rest).getLast? = some stop) :
    LexesPrefix flag (c :: rest ++ ys) tokens true ys := by
  obtain ⟨restLast, stopIn⟩ := getLast?_of_cons last
    (not_lineTerminator_of_start (by rw [kind]; decide)) line
  -- the name stops in front of `stop`
  have keeps : stop ∈ rest.dropWhile isIdentifierPart :=
    mem_dropWhile_of_not stopIn (lineTerminator_inert line).2.1
  have filled := List.ne_nil_of_mem keeps
  have step : lexFrom flag (c :: (rest ++ ys)) = _ :=
    lexFrom_name (by rw [start_append stopIn (lineTerminator_ne_openers line), kind])
  rw [takeWhile_append_of_dropWhile_ne_nil filled,
    dropWhile_append_of_dropWhile_ne_nil filled] at step
  exact lineEnd_token ih step scan
    ((getLast?_of_suffix (List.dropWhile_suffix _) filled).symm.trans restLast)

theorem lineEnd_number (line : isLineTerminator stop) (kind : start c rest = .number)
    {value : Binary64} {after : List Char} (scanNumber : numericLiteral (c :: rest) = .ok (value, after))
    (ih : ReadsToLineEnd stop ys false after)
    (scan : (⟨.number value, flag⟩ :: ·) <$> lexFrom false after = .ok tokens)
    (last : (c :: rest).getLast? = some stop) :
    LexesPrefix flag (c :: rest ++ ys) tokens true ys := by
  obtain ⟨-, stopIn⟩ := getLast?_of_cons last
    (not_lineTerminator_of_start (by rw [kind]; decide)) line
  -- the numeral stops in front of `stop`
  have keeps : stop ∈ after :=
    numericLiteral_keeps_lineTerminator scanNumber (List.mem_cons_of_mem c stopIn) line
  have filled := List.ne_nil_of_mem keeps
  have step : lexFrom flag (c :: (rest ++ ys)) = _ :=
    lexFrom_number (by rw [start_append stopIn (lineTerminator_ne_openers line), kind])
      (by rw [← List.cons_append]; exact numericLiteral_append scanNumber filled)
  exact lineEnd_token ih step scan
    ((getLast?_of_suffix (numericLiteral_suffix scanNumber) filled).symm.trans last)

theorem lineEnd_string (line : isLineTerminator stop) (kind : start c rest = .string)
    {value after : List Char} (scanString : stringBody c rest = .ok (value, after))
    (ih : ReadsToLineEnd stop ys false after)
    (scan : (⟨.string (String.ofList value), flag⟩ :: ·) <$> lexFrom false after = .ok tokens)
    (last : (c :: rest).getLast? = some stop) :
    LexesPrefix flag (c :: rest ++ ys) tokens true ys := by
  have notLine := not_lineTerminator_of_start (by rw [kind]; decide)
  obtain ⟨restLast, stopIn⟩ := getLast?_of_cons last notLine line
  -- the string ends at its closing quote, which is no line terminator
  have filled : after ≠ [] := by
    rintro rfl
    rw [stringBody_last scanString, Option.some.injEq] at restLast
    subst restLast
    simp_all
  have step : lexFrom flag (c :: (rest ++ ys)) = _ :=
    lexFrom_string (by rw [start_append stopIn (lineTerminator_ne_openers line), kind])
      (stringBody_append scanString)
  exact lineEnd_token ih step scan
    ((getLast?_of_suffix (stringBody_suffix scanString) filled).symm.trans restLast)

theorem lineEnd_punctuator (line : isLineTerminator stop) (kind : start c rest = .punctuator)
    {p : List Char} (found : punctuator? (c :: rest) = some p)
    (ih : ReadsToLineEnd stop ys false ((c :: rest).drop p.length))
    (scan : (⟨.punctuator (String.ofList p), flag⟩ :: ·) <$>
      lexFrom false ((c :: rest).drop p.length) = .ok tokens)
    (last : (c :: rest).getLast? = some stop) :
    LexesPrefix flag (c :: rest ++ ys) tokens true ys := by
  obtain ⟨-, -, -, -, -, -, -, -, outsidePunctuators⟩ := lineTerminator_inert line
  obtain ⟨-, stopIn⟩ := getLast?_of_cons last
    (not_lineTerminator_of_start (by rw [kind]; decide)) line
  obtain ⟨⟨remainder, whole⟩, q, listed, rfl⟩ := punctuator?_prefix found
  -- no punctuator holds `stop`, so it comes after the punctuator
  have keeps : stop ∈ (c :: rest).drop q.toList.length := by
    rw [← whole, List.drop_left]
    have inWhole : stop ∈ q.toList ++ remainder := whole ▸ List.mem_cons_of_mem c stopIn
    exact (List.mem_append.mp inWhole).resolve_left (outsidePunctuators q listed)
  have filled := List.ne_nil_of_mem keeps
  have bounded : q.toList.length ≤ (c :: rest).length := by
    rw [← whole, List.length_append]
    omega
  have step : lexFrom flag (c :: (rest ++ ys)) = _ :=
    lexFrom_punctuator (by rw [start_append stopIn (lineTerminator_ne_openers line), kind])
      (by rw [← List.cons_append, punctuator?_append (List.mem_cons_of_mem c stopIn)
        outsidePunctuators]; exact found)
  rw [← List.cons_append, List.drop_append_of_le_length bounded] at step
  exact lineEnd_token ih step scan
    ((getLast?_of_suffix (List.drop_suffix _ _) filled).symm.trans last)

/-- A text that ends in a line terminator is read the same way whatever follows it: every
lexeme ends before a line terminator, or consists of one. -/
theorem LexesPrefix.of_lineEnd {stop : Char} (line : isLineTerminator stop) {ys : List Char} :
    ∀ {f : Bool} {xs : List Char} {tokens : List Token}, lexFrom f xs = .ok tokens →
      xs.getLast? = some stop → LexesPrefix f (xs ++ ys) tokens true ys := by
  intro f xs
  -- one step for each kind of lexeme; a step that fails reads nothing
  fun_induction lexFrom f xs with
  | case1 =>
    intro tokens _ last
    simp at last
  | case2 flag c rest kind ih =>
    intro tokens scan last
    exact lineEnd_lineBreak kind ih scan last
  | case3 flag c rest kind ih =>
    intro tokens scan last
    exact lineEnd_blank line kind ih scan last
  | case4 flag c rest kind _ ih =>
    intro tokens scan last
    exact lineEnd_lineComment line kind ih scan last
  | case5 flag c rest kind broke after scanComment _ _ ih =>
    intro tokens scan last
    exact lineEnd_blockComment line kind scanComment ih scan last
  | case6 flag c rest kind missing =>
    intro tokens scan
    simp at scan
  | case7 flag c rest kind _ ih =>
    intro tokens scan last
    exact lineEnd_name line kind ih scan last
  | case8 flag c rest kind value after scanNumber _ ih =>
    intro tokens scan last
    exact lineEnd_number line kind scanNumber ih scan last
  | case9 flag c rest kind e failed =>
    intro tokens scan
    simp at scan
  | case10 flag c rest kind value after scanString _ ih =>
    intro tokens scan last
    exact lineEnd_string line kind scanString ih scan last
  | case11 flag c rest kind e failed =>
    intro tokens scan
    simp at scan
  | case12 flag c rest kind =>
    intro tokens scan
    simp at scan
  | case13 flag c rest kind p found _ ih =>
    intro tokens scan last
    exact lineEnd_punctuator line kind found ih scan last
  | case14 flag c rest kind missing =>
    intro tokens scan
    simp at scan

end LineEnd

section Pieces

/-! The pieces of generated code: names, punctuators and layout, each read the same way
whatever follows it. -/

/-- The punctuators of one character that no longer punctuator starts with. -/
def closers : List Char :=
  ['(', ')', '[', ']', '\x7b', '\x7d', ';', ',']

variable {f : Bool} {ys : List Char}

/-- No character of the letters' code point ranges is a line terminator, white space or a
slash. -/
theorem inert_of_letterRanges {c : Char}
    (ranges : 65 ≤ c.toNat ∧ c.toNat ≤ 122 ∨ 0xE0 ≤ c.toNat ∧ c.toNat ≤ 0x1B0 ∨
      0x1EA1 ≤ c.toNat ∧ c.toNat ≤ 0x1EF9) :
    isLineTerminator c = false ∧ isWhiteSpace c = false ∧ c ≠ '/' := by
  refine ⟨?_, ?_, ?_⟩
  · simp only [isLineTerminator, Bool.or_eq_false_iff, decide_eq_false_iff_not]
    refine ⟨⟨⟨?_, ?_⟩, ?_⟩, ?_⟩ <;> rintro rfl <;> simp at ranges
  · simp only [isWhiteSpace, Bool.or_eq_false_iff, decide_eq_false_iff_not, Bool.and_eq_false_iff]
    refine ⟨⟨⟨⟨⟨⟨⟨⟨⟨⟨?_, ?_⟩, ?_⟩, ?_⟩, ?_⟩, ?_⟩, ?_⟩, by omega⟩, ?_⟩, ?_⟩, ?_⟩ <;>
      rintro rfl <;> simp at ranges
  · rintro rfl
    simp at ranges

/-- What an identifier start is not: a line terminator, white space or a slash. -/
theorem identifierStart_inert {c : Char} (first : isIdentifierStart c) :
    isLineTerminator c = false ∧ isWhiteSpace c = false ∧ c ≠ '/' := by
  simp only [isIdentifierStart, Bool.or_eq_true, decide_eq_true_eq] at first
  rcases first with ((alpha | rfl) | rfl) | accented
  · have bounds : 65 ≤ c.toNat ∧ c.toNat ≤ 122 := by
      simp only [Char.isAlpha, Char.isUpper, Char.isLower, Bool.or_eq_true, Bool.and_eq_true,
        decide_eq_true_eq, UInt32.le_iff_toNat_le, ge_iff_le] at alpha
      have : c.toNat = c.val.toNat := rfl
      have : 'A'.val.toNat = 65 := rfl
      have : 'Z'.val.toNat = 90 := rfl
      have : 'a'.val.toNat = 97 := rfl
      have : 'z'.val.toNat = 122 := rfl
      omega
    exact inert_of_letterRanges (.inl bounds)
  · decide
  · decide
  · exact inert_of_letterRanges (.inr (accentedLetters_blocks (List.elem_iff.mp accented)))

theorem start_of_identifierStart {c : Char} (first : isIdentifierStart c) (rest : List Char) :
    start c rest = .name := by
  obtain ⟨line, blank, notSlash⟩ := identifierStart_inert first
  simp [start, line, blank, notSlash, first]

theorem start_of_closer {c : Char} (closing : c ∈ closers) (rest : List Char) :
    start c rest = .punctuator := by
  have ascii : ∀ c ∈ closers, c.toNat < 0xE0 := forall_mem_of_all_decide (by decide)
  have notLetter := not_mem_accentedLetters (.inl (ascii c closing))
  simp only [closers, List.mem_cons, List.not_mem_nil, or_false] at closing
  rcases closing with rfl | rfl | rfl | rfl | rfl | rfl | rfl | rfl <;>
    simp [start, isLineTerminator, isWhiteSpace, isIdentifierStart, List.isPrefixOf, notLetter]

theorem punctuatorFits_closer {c : Char} (closing : c ∈ closers) {q : List Char}
    (listed : q ∈ punctuators.map String.toList) (rest : List Char) :
    punctuatorFits (c :: rest) q = punctuatorFits [c] q := by
  have alone : ∀ c ∈ closers, ∀ q ∈ punctuators.map String.toList, q.head? = some c → q = [c] :=
    forall_mem_of_all_decide (by decide)
  match q, listed with
  | [], listed => exact absurd listed (by decide)
  | q₀ :: qs, listed =>
    by_cases same : q₀ = c
    · subst same
      have one := alone q₀ closing _ listed rfl
      simp only [List.cons.injEq, true_and] at one
      subst one
      simp [punctuatorFits]
    · have differ : (q₀ == c) = false := by simpa using same
      simp [punctuatorFits, List.isPrefixOf, differ]

theorem punctuator?_closer {c : Char} (closing : c ∈ closers) (rest : List Char) :
    punctuator? (c :: rest) = some [c] := by
  have alone : ∀ c ∈ closers, punctuator? [c] = some [c] := forall_mem_of_all_decide (by decide)
  unfold punctuator?
  rw [List.find?_congr (fun q listed => punctuatorFits_closer closing listed rest)]
  exact alone c closing

namespace LexesPrefix

/-- A bracket, a brace, a semicolon or a comma reads as one punctuator whatever follows it. -/
theorem closer {c : Char} (closing : c ∈ closers) :
    LexesPrefix f (c :: ys) [⟨.punctuator (String.singleton c), f⟩] false ys := by
  have step : lexFrom f (c :: ys) = _ :=
    lexFrom_punctuator (start_of_closer closing ys) (punctuator?_closer closing ys)
  simp only [List.length_singleton, List.drop_succ_cons, List.drop_zero] at step
  exact token step (refl false ys)

theorem blank : LexesPrefix f (' ' :: ys) [] f ys :=
  skip (lexFrom_blank (start_of_blank (by decide) (by decide))) (refl f ys)

theorem lineBreak : LexesPrefix f ('\n' :: ys) [] true ys :=
  skip (lexFrom_lineBreak (start_eq_lineBreak_iff.mpr (by decide))) (refl true ys)

theorem indent (n : Nat) : LexesPrefix f (List.replicate n ' ' ++ ys) [] f ys := by
  induction n with
  | zero => exact refl f ys
  | succ n ih => exact blank.trans ih

/-- A name followed by a character that cannot continue it reads as one name token. -/
theorem name {text : String} (plain : isIdentifierName text)
    (stop : ∀ d ∈ ys.head?, isIdentifierPart d = false) :
    LexesPrefix f (text.toList ++ ys) [⟨.name text, f⟩] false ys := by
  have ends : ys.takeWhile isIdentifierPart = [] ∧ ys.dropWhile isIdentifierPart = ys := by
    cases ys with
    | nil => exact ⟨rfl, rfl⟩
    | cons d more =>
      have notPart := stop d rfl
      exact ⟨List.takeWhile_cons_of_neg (by simp [notPart]),
        List.dropWhile_cons_of_neg (by simp [notPart])⟩
  unfold isIdentifierName at plain
  split at plain
  · simp at plain
  · rename_i c cs spelled
    simp only [Bool.and_eq_true, List.all_eq_true] at plain
    have step : lexFrom f (c :: (cs ++ ys)) = _ :=
      lexFrom_name (start_of_identifierStart plain.1 _)
    rw [List.takeWhile_append_of_pos plain.2, List.dropWhile_append_of_pos plain.2, ends.1,
      ends.2, List.append_nil, ← spelled, String.ofList_toList] at step
    rw [spelled, List.cons_append]
    exact token step (refl false ys)

/-- A punctuator followed by a blank reads as that punctuator, when the text with the blank
does. -/
theorem punctuator_blank {c : Char} {cs : List Char} (kind : start c (cs ++ [' ']) = .punctuator)
    (found : punctuator? (c :: (cs ++ [' '])) = some (c :: cs)) :
    LexesPrefix f (c :: cs ++ ' ' :: ys) [⟨.punctuator (String.ofList (c :: cs)), f⟩] false
      (' ' :: ys) := by
  have inert : ' ' ≠ '<' ∧ ' ' ≠ '!' ∧ ' ' ≠ '-' ∧ ' ' ≠ '>' := by decide
  have blankIn : ' ' ∈ cs ++ [' '] := by simp
  have foreign : ∀ p ∈ punctuators, ' ' ∉ p.toList := by decide
  have split : cs ++ ' ' :: ys = (cs ++ [' ']) ++ ys := by simp
  have step : lexFrom f (c :: (cs ++ ' ' :: ys)) = _ :=
    lexFrom_punctuator (by rw [split, start_append blankIn inert, kind])
      (by rw [split, ← List.cons_append, punctuator?_append (List.mem_cons_of_mem c blankIn)
        foreign, found])
  rw [List.length_cons, List.drop_succ_cons, List.drop_left] at step
  rw [List.cons_append]
  exact token step (refl false (' ' :: ys))

end LexesPrefix

theorem isIdentifierPart_blank : isIdentifierPart ' ' = false := by
  rw [isIdentifierPart_of_outside (by decide)]
  decide

theorem isIdentifierPart_closer {c : Char} (closing : c ∈ closers) :
    isIdentifierPart c = false := by
  have ascii : ∀ c ∈ closers,
      c.toNat < 0xE0 ∧ (c.isAlpha || c = '$' || c = '_' || c.isDigit) = false :=
    forall_mem_of_all_decide (by decide)
  obtain ⟨below, notPart⟩ := ascii c closing
  rw [isIdentifierPart_of_outside (.inl below), notPart]

namespace LexesPrefix

theorem of_tokens {g : Bool} {input rest : List Char} {ts us : List Token}
    (h : LexesPrefix f input ts g rest) (e : ts = us) : LexesPrefix f input us g rest :=
  e ▸ h

/-- A word followed by a blank reads as the word. -/
theorem word {w : String} (plain : isIdentifierName w) :
    LexesPrefix f (w.toList ++ ' ' :: ys) [⟨.name w, f⟩] false ys :=
  of_tokens (trans (name plain fun d first => by cases first; exact isIdentifierPart_blank) blank)
    (List.append_nil _)

/-- An equals sign followed by a blank reads as the punctuator. -/
theorem equals : LexesPrefix f ('=' :: ' ' :: ys) [⟨.punctuator "=", f⟩] false ys := by
  have spelled : String.ofList ['='] = "=" := by decide
  have found : punctuator? ('=' :: ([] ++ [' '])) = some ['='] := by decide
  have kind : start '=' ([] ++ [' ']) = .punctuator := by
    simp [start, isLineTerminator, isWhiteSpace, isIdentifierStart, List.isPrefixOf,
      not_mem_accentedLetters (show '='.toNat < 0xE0 ∨ 0x1EF9 < '='.toNat by decide)]
  exact of_tokens (trans (punctuator_blank kind found) blank)
    (by rw [List.append_nil, spelled])

end LexesPrefix

end Pieces

end VieCompiler.Script
