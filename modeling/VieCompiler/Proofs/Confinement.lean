import VieCompiler.Syntax.Parser
import Mathlib

/-!
# The parser reads only its own tokens

The parser keeps its place in the input as the list of tokens it has not read yet. The lexer
ends every list with an end-of-input token, and no production consumes that token, so every
list the parser goes on with is a suffix of its input that again ends with it (`EndsAtEof`):
the parser always has a current token, and never one from past the end of the list.

This is proved as a simulation between a run on a token list and a run on the same list
followed by any other tokens (`Padded`). Every production fails alike on both, with the same
failure, or reads the same value from both and stops at the same place; and the token that a
syntax error names is one of the list (`Parser.Alike`). So the parser's answer does not depend
on anything at or after the end of its input, not even on whether anything is there, and the
token of a syntax error is one of the input's: the one the parser stood at, or for an invalid
assignment target the one before the `=`, which exists because the target consumed a token.

Error recovery, which each declaration that an error passes through runs before passing it on,
reads tokens as well (`Parser.recover?`). From any position at which a declaration can have
failed, it stops before the end of the list and after its first position, so the recovery of
every enclosing declaration, started there, stays inside the list too
(`Parser.parse_reads_within`).

As in `VieCompiler.Proofs.ElseIf`, the invariant of the productions at budget `b`
(`Parser.ExprsConfined`, `Parser.StmtsConfined`) gives the one at `b + 1`, production by
production, and the loops of the grammar go by induction on the tokens left.
-/

namespace VieCompiler

/-- The tokens end with an end-of-input token, as every list the lexer makes does. -/
def EndsAtEof (tokens : List Token) : Prop :=
  ∃ before last, tokens = before ++ [last] ∧ last.kind = .eof

namespace EndsAtEof

variable {t : Token} {tokens rest : List Token}

theorem ne_nil (ends : EndsAtEof tokens) : tokens ≠ [] := by
  obtain ⟨before, last, rfl, -⟩ := ends
  simp

/-- Past a token other than the end of input, the tokens still end at the end of input. -/
theorem tail (ends : EndsAtEof (t :: rest)) (notEnd : t.kind ≠ .eof) : EndsAtEof rest := by
  obtain ⟨before, last, split, isEnd⟩ := ends
  cases before with
  | nil =>
    obtain ⟨rfl, -⟩ := List.cons.inj split
    exact absurd isEnd notEnd
  | cons first before =>
    obtain ⟨-, rfl⟩ := List.cons.inj split
    exact ⟨before, last, rfl, isEnd⟩

theorem cons (ends : EndsAtEof rest) : EndsAtEof (t :: rest) := by
  obtain ⟨before, last, rfl, isEnd⟩ := ends
  exact ⟨t :: before, last, rfl, isEnd⟩

/-- Past a token other than the end of input, the list goes on. -/
theorem succ_lt_length (ends : EndsAtEof tokens) {position : Nat} {t : Token}
    (found : tokens[position]? = some t) (notEnd : t.kind ≠ .eof) :
    position + 1 < tokens.length := by
  obtain ⟨before, last, rfl, isEnd⟩ := ends
  obtain ⟨inside, spelled⟩ := List.getElem?_eq_some_iff.mp found
  simp only [List.length_append, List.length_singleton] at inside ⊢
  by_cases atLast : position = before.length
  · subst atLast
    simp only [List.getElem_append_right (Nat.le_refl _), Nat.sub_self,
      List.getElem_singleton] at spelled
    exact absurd (spelled ▸ isEnd) notEnd
  · omega

end EndsAtEof

namespace Parser

theorem peek_mem {tokens : List Token} (nonempty : tokens ≠ []) : peek tokens ∈ tokens := by
  cases tokens with
  | nil => exact absurd rfl nonempty
  | cons t rest => exact List.mem_cons_self

theorem peek_append {tokens : List Token} (nonempty : tokens ≠ []) (more : List Token) :
    peek (tokens ++ more) = peek tokens := by
  cases tokens with
  | nil => exact absurd rfl nonempty
  | cons t rest => rfl

end Parser

/-- `ts'` is `ts` followed by the tokens `more`, where `ts` ends with an end-of-input token. -/
structure Padded (more ts ts' : List Token) : Prop where
  padded : ts' = ts ++ more
  ends : EndsAtEof ts

namespace Padded

variable {more ts ts' : List Token}

theorem ne_nil (padded : Padded more ts ts') : ts ≠ [] :=
  padded.ends.ne_nil

/-- Past the first token, unless it ends the input, the lists are still padded alike. -/
theorem tail {t : Token} {rest : List Token} (padded : Padded more (t :: rest) ts')
    (notEnd : t.kind ≠ .eof) : Padded more rest (rest ++ more) :=
  ⟨rfl, padded.ends.tail notEnd⟩

theorem peek_eq (padded : Padded more ts ts') : Parser.peek ts' = Parser.peek ts := by
  rw [padded.padded]
  exact Parser.peek_append padded.ne_nil more

end Padded

/-- The failure names a token of `tokens`, if it is a syntax error; a number that does not
read is a number token of `tokens` whose text `float` refuses. -/
def ParseFailure.NamesTokenOf (tokens : List Token) : ParseFailure → Prop
  | .error e => e.token ∈ tokens
  | .tooDeep => True
  | .notANumber t => t ∈ tokens ∧ t.kind = .number ∧ Binary64.ofText? t.lexeme = none

theorem ParseFailure.NamesTokenOf.widen {tokens tokens' : List Token} {failure : ParseFailure}
    (names : failure.NamesTokenOf tokens) (suffix : tokens <:+ tokens') :
    failure.NamesTokenOf tokens' := by
  cases failure with
  | error e => exact suffix.subset names
  | tooDeep => trivial
  | notANumber t => exact ⟨suffix.subset names.1, names.2⟩

namespace Parser

/-- Two runs end alike: with the same failure, which names a token of `within` if it is a
syntax error, or with results that `related` relates. -/
def Alike {β β' : Type} (within : List Token) (related : β → β' → Prop) :
    Except ParseFailure β → Except ParseFailure β' → Prop
  | .ok b, .ok b' => related b b'
  | .error e, .error e' => e' = e ∧ e.NamesTokenOf within
  | _, _ => False

/-- Two reads end alike: the same value, and padded tokens after it, inside `tokens`. -/
structure Parsed.Padded {α : Type} {ts ts' : List Token} (more : List Token) (p : Parsed ts α)
    (q : Parsed ts' α) : Prop where
  value : q.value = p.value
  rest : VieCompiler.Padded more p.rest q.rest
  suffix : p.rest <:+ ts

/-- Two runs of a loop end alike: the same value, and padded tokens after it, inside `tokens`. -/
structure Continued.Padded {α : Type} {ts ts' : List Token} (more : List Token)
    (p : Continued ts α) (q : Continued ts' α) : Prop where
  value : q.value = p.value
  rest : VieCompiler.Padded more p.rest q.rest
  suffix : p.rest <:+ ts

namespace Alike

variable {β β' γ γ' : Type} {within : List Token} {R : β → β' → Prop} {S : γ → γ' → Prop}

theorem pure {b : β} {b' : β'} (related : R b b') : Alike within R (pure b) (pure b') :=
  related

theorem ok {b : β} {b' : β'} (related : R b b') : Alike within R (.ok b) (.ok b') :=
  related

theorem tooDeep : Alike within R (.error .tooDeep) (.error .tooDeep) := by
  constructor
  · rfl
  · trivial

theorem notANumber {t : Token} (mem : t ∈ within) (isNumber : t.kind = .number)
    (unread : Binary64.ofText? t.lexeme = none) :
    Alike within R (.error (.notANumber t)) (.error (.notANumber t)) :=
  ⟨rfl, mem, isNumber, unread⟩

theorem bind {x : Except ParseFailure β} {y : Except ParseFailure β'}
    {f : β → Except ParseFailure γ} {g : β' → Except ParseFailure γ'} (first : Alike within R x y)
    (rest : ∀ b b', R b b' → Alike within S (f b) (g b')) : Alike within S (x >>= f) (y >>= g) := by
  cases x with
  | error e =>
    cases y with
    | error e' => exact first
    | ok b' => cases first
  | ok b =>
    cases y with
    | error e' => cases first
    | ok b' => exact rest b b' first

/-- What holds inside a suffix of `within'` holds inside `within'`. -/
theorem widen {within' : List Token} {x : Except ParseFailure β} {y : Except ParseFailure β'}
    (alike : Alike within R x y) (suffix : within <:+ within') : Alike within' R x y :=
  match x, y, alike with
  | .error _, .error _, ⟨same, names⟩ => ⟨same, names.widen suffix⟩
  | .ok _, .ok _, related => related

/-- Runs that end alike with equal results end with the same outcome. -/
theorem eq {x y : Except ParseFailure β} (alike : Alike within (fun b b' => b' = b) x y) :
    y = x :=
  match x, y, alike with
  | .error _, .error _, ⟨same, _⟩ => by rw [same]
  | .ok _, .ok _, same => by rw [same]

theorem names {x : Except ParseFailure β} {y : Except ParseFailure β'} {failure : ParseFailure}
    (alike : Alike within R x y) (failed : x = .error failure) : failure.NamesTokenOf within := by
  subst failed
  cases y with
  | error e' => exact alike.2
  | ok b' => cases alike

theorem map {x : Except ParseFailure β} {y : Except ParseFailure β'} {f : β → γ} {g : β' → γ'}
    (alike : Alike within R x y) (mapped : ∀ b b', R b b' → S (f b) (g b')) :
    Alike within S (x.map f) (y.map g) :=
  match x, y, alike with
  | .error _, .error _, failed => failed
  | .ok b, .ok b', related => mapped b b' related

end Alike

section Tokens

variable {more ts ts' : List Token}

theorem fail_padded {β β' : Type} {R : β → β' → Prop} (problem : Problem)
    (padded : VieCompiler.Padded more ts ts') : Alike ts R (fail problem ts) (fail problem ts') := by
  simp only [fail, Alike, padded.peek_eq, true_and]
  exact peek_mem padded.ne_nil

theorem next?_padded (kind : Token.Kind) (padded : VieCompiler.Padded more ts ts') :
    (next? kind ts = none ∧ next? kind ts' = none) ∨
      ∃ tail tail' shorter shorter', next? kind ts = some ⟨tail, shorter⟩ ∧
        next? kind ts' = some ⟨tail', shorter'⟩ ∧ VieCompiler.Padded more tail tail' ∧
        tail <:+ ts := by
  obtain ⟨rfl, ends⟩ := padded
  obtain _ | ⟨t, rest⟩ := ts
  · exact absurd rfl ends.ne_nil
  by_cases fits : t.kind = kind ∧ t.kind ≠ .eof
  · exact .inr ⟨rest, rest ++ more, Nat.lt_succ_self _, Nat.lt_succ_self _,
      by simp only [next?, if_pos fits], by simp only [List.cons_append, next?, if_pos fits],
      ⟨rfl, ends.tail fits.2⟩, List.suffix_cons t rest⟩
  · exact .inl ⟨by simp only [next?, if_neg fits],
      by simp only [List.cons_append, next?, if_neg fits]⟩

theorem expect_padded (kind : Token.Kind) (problem : Problem)
    (padded : VieCompiler.Padded more ts ts') :
    Alike ts (fun r r' => VieCompiler.Padded more r.1 r'.1 ∧ r.1 <:+ ts)
      (expect kind problem ts) (expect kind problem ts') := by
  unfold expect
  rcases next?_padded kind padded with
    ⟨none, none'⟩ | ⟨tail, tail', shorter, shorter', found, found', after, suffix⟩
  · simp only [none, none']
    exact fail_padded problem padded
  · simp only [found, found']
    exact ⟨after, suffix⟩

theorem name_padded (problem : Problem) (padded : VieCompiler.Padded more ts ts') :
    Alike ts (Parsed.Padded more) (name problem ts) (name problem ts') := by
  obtain ⟨rfl, ends⟩ := padded
  obtain _ | ⟨t, rest⟩ := ts
  · exact absurd rfl ends.ne_nil
  simp only [List.cons_append, name]
  split
  · rename_i isName
    exact .ok ⟨rfl, ⟨rfl, ends.tail (by rw [isName]; decide)⟩, List.suffix_cons t rest⟩
  · exact fail_padded problem ⟨rfl, ends⟩

theorem operator?_padded (level : Nat) (padded : VieCompiler.Padded more ts ts') :
    (operator? level ts = none ∧ operator? level ts' = none) ∨
      ∃ op tail tail' shorter shorter', operator? level ts = some (op, ⟨tail, shorter⟩) ∧
        operator? level ts' = some (op, ⟨tail', shorter'⟩) ∧ VieCompiler.Padded more tail tail' ∧
        tail <:+ ts := by
  obtain ⟨rfl, ends⟩ := padded
  obtain _ | ⟨t, rest⟩ := ts
  · exact absurd rfl ends.ne_nil
  simp only [List.cons_append, operator?]
  split
  · exact .inl ⟨rfl, rfl⟩
  · rename_i notEnd
    cases (levelOperators level).find? (·.1 == t.kind) with
    | none => exact .inl ⟨rfl, rfl⟩
    | some entry =>
      exact .inr ⟨entry.2, rest, rest ++ more, Nat.lt_succ_self _, Nat.lt_succ_self _, rfl, rfl,
        ⟨rfl, ends.tail notEnd⟩, List.suffix_cons t rest⟩

theorem atEnd_padded (padded : VieCompiler.Padded more ts ts') : atEnd ts' = atEnd ts := by
  simp only [atEnd, padded.peek_eq]

theorem atCloseOrEnd_padded (kind : Token.Kind) (padded : VieCompiler.Padded more ts ts') :
    atCloseOrEnd kind ts' = atCloseOrEnd kind ts := by
  unfold atCloseOrEnd
  rw [atEnd_padded padded]
  rcases next?_padded kind padded with
    ⟨none, none'⟩ | ⟨tail, tail', shorter, shorter', found, found', -⟩
  · rw [none, none']
    rfl
  · rw [found, found']
    rfl

/-- The token before a suffix that a production stopped at is a token of the input, at the
same place in the padded input. -/
theorem lastBefore_padded {rest rest' : List Token} (padded : VieCompiler.Padded more ts ts')
    (restPadded : VieCompiler.Padded more rest rest') (shorter : rest.length < ts.length) :
    lastBefore ts' rest' = lastBefore ts rest ∧ lastBefore ts rest ∈ ts := by
  have inside : ts.length - rest.length - 1 < ts.length := by omega
  have found : ts[ts.length - rest.length - 1]? = some ts[ts.length - rest.length - 1] :=
    List.getElem?_eq_getElem inside
  have before : lastBefore ts rest = ts[ts.length - rest.length - 1] := by
    simp only [lastBefore, found, Option.getD_some]
  refine ⟨?_, before ▸ List.getElem_mem inside⟩
  simp only [lastBefore, padded.padded, restPadded.padded, List.length_append]
  have same : ts.length + more.length - (rest.length + more.length) - 1 =
      ts.length - rest.length - 1 := by omega
  rw [same, List.getElem?_append_left inside]

end Tokens

section Loops

variable {α : Type}

/-- The production `f` reads from `ts` what it reads from `ts` followed by any other tokens. -/
def ConfinedAt (f : (tokens : List Token) → Except ParseFailure (Parsed tokens α))
    (ts : List Token) : Prop :=
  ∀ more ts', VieCompiler.Padded more ts ts' → Alike ts (Parsed.Padded more) (f ts) (f ts')

/-- The production `f` reads only the tokens it is given, wherever in the input it starts. -/
def Confined (f : (tokens : List Token) → Except ParseFailure (Parsed tokens α)) : Prop :=
  ∀ ts, ConfinedAt f ts

/-- The loop `f` builds from one start on `ts` what it builds on `ts` followed by other
tokens. -/
def ConfinedFromAt (f : α → (tokens : List Token) → Except ParseFailure (Continued tokens α))
    (ts : List Token) : Prop :=
  ∀ start more ts', VieCompiler.Padded more ts ts' →
    Alike ts (Continued.Padded more) (f start ts) (f start ts')

/-- The loop `f` reads only the tokens it is given. -/
def ConfinedFrom (f : α → (tokens : List Token) → Except ParseFailure (Continued tokens α)) :
    Prop :=
  ∀ ts, ConfinedFromAt f ts

/-- A loop of the grammar reads only its tokens when each of its turns does, given that the
rest of the loop, on fewer tokens, does. -/
theorem Confined.of_shorter {f : (tokens : List Token) → Except ParseFailure (Parsed tokens α)}
    (step : ∀ ts, (∀ shorter : List Token, shorter.length < ts.length → ConfinedAt f shorter) →
      ConfinedAt f ts) : Confined f := by
  intro ts
  induction count : ts.length using Nat.strongRecOn generalizing ts with
  | ind n ih => exact step ts fun shorter fewer => ih _ (count ▸ fewer) shorter rfl

theorem ConfinedFrom.of_shorter
    {f : α → (tokens : List Token) → Except ParseFailure (Continued tokens α)}
    (step : ∀ ts, (∀ shorter : List Token, shorter.length < ts.length →
      ConfinedFromAt f shorter) → ConfinedFromAt f ts) : ConfinedFrom f := by
  intro ts
  induction count : ts.length using Nat.strongRecOn generalizing ts with
  | ind n ih => exact step ts fun shorter fewer => ih _ (count ▸ fewer) shorter rfl

end Loops

/-- The invariant of the expression productions with budget `b`. -/
structure ExprsConfined (b : Nat) : Prop where
  expression : Confined (expression b)
  assignment : Confined (assignment b)
  binary : ∀ level, Confined (binary b level)
  binaryTail : ∀ level, ConfinedFrom (binaryTail b level)
  unary : Confined (unary b)
  suffixed : Confined (suffixed b)
  suffixes : ConfinedFrom (suffixes b)
  arguments : Confined (arguments b)
  listTail : ∀ close problem, Confined (listTail b close problem)
  primary : Confined (primary b)

section Expressions

variable {b : Nat}

theorem expression_confined (ih : ExprsConfined b) : Confined (expression (b + 1)) := by
  intro ts extra ts' padded
  rw [expression, expression]
  exact ih.assignment ts extra ts' padded

theorem assignment_confined (ih : ExprsConfined b) : Confined (assignment (b + 1)) := by
  intro ts extra ts' padded
  rw [assignment, assignment]
  refine (ih.binary 0 ts extra ts' padded).bind ?_
  rintro left left' ⟨same, afterLeft, leftSuffix⟩
  rcases next?_padded .equal afterLeft with
    ⟨none, none'⟩ | ⟨tail, tail', shorter, shorter', found, found', afterEquals, equalsSuffix⟩
  · simp only [none, none']
    exact .pure ⟨same, afterLeft, leftSuffix⟩
  · simp only [found, found']
    have tailSuffix := equalsSuffix.trans leftSuffix
    refine ((ih.assignment tail extra tail' afterEquals).widen tailSuffix).bind ?_
    rintro value value' ⟨sameValue, afterValue, valueSuffix⟩
    -- the target is checked once the value has been read, on the same tree in both
    by_cases target : left.value.isTarget = true
    · rw [if_pos target, if_pos (same ▸ target)]
      exact .pure ⟨by rw [same, sameValue], afterValue, valueSuffix.trans tailSuffix⟩
    · rw [if_neg target, if_neg (same ▸ target)]
      -- an invalid target is reported at its last token, which the input holds
      obtain ⟨sameToken, held⟩ := lastBefore_padded padded afterLeft left.shorter
      exact ⟨by rw [sameToken], held⟩

/-- An operand of the binary level `level`: of the next level, or unary at the tightest. -/
theorem operand_confined (ih : ExprsConfined b) (level : Nat) {extra ts ts' : List Token}
    (padded : VieCompiler.Padded extra ts ts') :
    Alike ts (Parsed.Padded extra)
      (if level < tightestLevel then binary b (level + 1) ts else unary b ts)
      (if level < tightestLevel then binary b (level + 1) ts' else unary b ts') := by
  by_cases tighter : level < tightestLevel
  · rw [if_pos tighter, if_pos tighter]
    exact ih.binary (level + 1) ts extra ts' padded
  · rw [if_neg tighter, if_neg tighter]
    exact ih.unary ts extra ts' padded

/-- The operators and operands after the first operand of a binary level, by induction on the
tokens left. -/
theorem binaryTail_confined (ih : ExprsConfined b) (level : Nat) :
    ConfinedFrom (binaryTail (b + 1) level) := by
  refine ConfinedFrom.of_shorter fun ts loop start extra ts' padded => ?_
  rw [binaryTail, binaryTail]
  rcases operator?_padded level padded with
    ⟨none, none'⟩ | ⟨op, tail, tail', shorter, shorter', found, found', afterOp, opSuffix⟩
  · simp only [none, none']
    exact .ok ⟨rfl, padded, List.suffix_refl ts⟩
  · simp only [found, found']
    have operand := operand_confined ih level afterOp
    by_cases tighter : level < tightestLevel <;> simp only [tighter, ↓reduceIte] at operand ⊢
    all_goals
      refine (operand.widen opSuffix).bind ?_
      rintro right right' ⟨same, afterRight, rightSuffix⟩
      have fewer : right.rest.length < ts.length := by
        have := right.shorter
        omega
      have restSuffix := rightSuffix.trans opSuffix
      rw [same]
      exact ((loop right.rest fewer _ extra right'.rest afterRight).widen restSuffix).bind
        fun whole whole' agree => .pure ⟨agree.value, agree.rest, agree.suffix.trans restSuffix⟩

theorem binary_confined (ih : ExprsConfined b) (level : Nat) :
    Confined (binary (b + 1) level) := by
  intro ts extra ts' padded
  rw [binary, binary]
  have operand := operand_confined ih level padded
  by_cases tighter : level < tightestLevel <;> simp only [tighter, ↓reduceIte] at operand ⊢
  all_goals
    refine operand.bind ?_
    rintro first first' ⟨same, afterFirst, firstSuffix⟩
    rw [same]
    exact ((binaryTail_confined ih level first.rest first.value extra first'.rest
      afterFirst).widen firstSuffix).bind fun whole whole' agree =>
        .pure ⟨agree.value, agree.rest, agree.suffix.trans firstSuffix⟩

theorem unary_confined (ih : ExprsConfined b) : Confined (unary (b + 1)) := by
  intro ts extra ts' padded
  rw [unary, unary]
  rcases next?_padded .minus padded with
    ⟨none, none'⟩ | ⟨tail, tail', shorter, shorter', found, found', afterMinus, minusSuffix⟩
  · simp only [none, none']
    exact ih.suffixed ts extra ts' padded
  · simp only [found, found']
    exact ((ih.unary tail extra tail' afterMinus).widen minusSuffix).bind
      fun operand operand' agree => .pure ⟨by simp [Parsed.extend, Parsed.map, agree.value],
        agree.rest, agree.suffix.trans minusSuffix⟩

/-- Calls, index accesses and field accesses after an expression, by induction on the tokens
left. -/
theorem suffixes_confined (ih : ExprsConfined b) : ConfinedFrom (suffixes (b + 1)) := by
  refine ConfinedFrom.of_shorter fun ts loop target extra ts' padded => ?_
  rw [suffixes, suffixes]
  rcases next?_padded .lparen padded with
    ⟨none, none'⟩ | ⟨tail, tail', shorter, shorter', found, found', afterOpen, openSuffix⟩
  rotate_left
  · simp only [found, found']
    refine ((ih.arguments tail extra tail' afterOpen).widen openSuffix).bind ?_
    rintro args args' ⟨same, afterArgs, argsSuffix⟩
    have fewer : args.rest.length < ts.length := by
      have := args.shorter
      omega
    have restSuffix := argsSuffix.trans openSuffix
    rw [same]
    exact ((loop args.rest fewer _ extra args'.rest afterArgs).widen restSuffix).bind
      fun whole whole' agree => .pure ⟨agree.value, agree.rest, agree.suffix.trans restSuffix⟩
  simp only [none, none']
  rcases next?_padded .lbracket padded with
    ⟨none, none'⟩ | ⟨tail, tail', shorter, shorter', found, found', afterOpen, openSuffix⟩
  rotate_left
  · simp only [found, found']
    refine ((ih.expression tail extra tail' afterOpen).widen openSuffix).bind ?_
    rintro key key' ⟨same, afterKey, keySuffix⟩
    refine ((expect_padded .rbracket .indexClose afterKey).widen
      (keySuffix.trans openSuffix)).bind ?_
    rintro ⟨afterClose, closed⟩ ⟨afterClose', closed'⟩ ⟨afterBracket, closeSuffix⟩
    have fewer : afterClose.length < ts.length := by
      have := key.shorter
      omega
    have restSuffix := closeSuffix.trans (keySuffix.trans openSuffix)
    rw [same]
    exact ((loop afterClose fewer _ extra afterClose' afterBracket).widen restSuffix).bind
      fun whole whole' agree => .pure ⟨agree.value, agree.rest, agree.suffix.trans restSuffix⟩
  simp only [none, none']
  rcases next?_padded .dot padded with
    ⟨none, none'⟩ | ⟨tail, tail', shorter, shorter', found, found', afterDot, dotSuffix⟩
  · simp only [none, none']
    exact .ok ⟨rfl, padded, List.suffix_refl ts⟩
  · simp only [found, found']
    by_cases zero : b = 0
    · simp only [zero, if_true]
      exact .tooDeep
    · simp only [zero, if_false]
      refine ((name_padded .identifier afterDot).widen dotSuffix).bind ?_
      rintro field field' ⟨same, afterField, fieldSuffix⟩
      have fewer : field.rest.length < ts.length := by
        have := field.shorter
        omega
      have restSuffix := fieldSuffix.trans dotSuffix
      rw [same]
      exact ((loop field.rest fewer _ extra field'.rest afterField).widen restSuffix).bind
        fun whole whole' agree => .pure ⟨agree.value, agree.rest, agree.suffix.trans restSuffix⟩

theorem suffixed_confined (ih : ExprsConfined b) : Confined (suffixed (b + 1)) := by
  intro ts extra ts' padded
  rw [suffixed, suffixed]
  refine (ih.primary ts extra ts' padded).bind ?_
  rintro head head' ⟨same, afterHead, headSuffix⟩
  rw [same]
  exact ((suffixes_confined ih head.rest head.value extra head'.rest afterHead).widen
    headSuffix).bind fun whole whole' agree =>
      .pure ⟨agree.value, agree.rest, agree.suffix.trans headSuffix⟩

/-- The items of a list after a comma each, and its closing token, by induction on the tokens
left. -/
theorem listTail_confined (ih : ExprsConfined b) (close : Token.Kind) (problem : Problem) :
    Confined (listTail (b + 1) close problem) := by
  refine Confined.of_shorter fun ts loop extra ts' padded => ?_
  rw [listTail, listTail]
  rcases next?_padded .comma padded with
    ⟨none, none'⟩ | ⟨tail, tail', shorter, shorter', found, found', afterComma, commaSuffix⟩
  · simp only [none, none']
    refine (expect_padded close problem padded).bind ?_
    rintro ⟨_, _⟩ ⟨_, _⟩ ⟨afterClose, closeSuffix⟩
    exact .pure ⟨rfl, afterClose, closeSuffix⟩
  · simp only [found, found']
    refine ((ih.expression tail extra tail' afterComma).widen commaSuffix).bind ?_
    rintro item item' ⟨same, afterItem, itemSuffix⟩
    have fewer : item.rest.length < ts.length := by
      have := item.shorter
      omega
    have restSuffix := itemSuffix.trans commaSuffix
    exact ((loop item.rest fewer extra item'.rest afterItem).widen restSuffix).bind
      fun others others' agree => .pure ⟨by rw [same, agree.value], agree.rest,
        agree.suffix.trans restSuffix⟩

theorem arguments_confined (ih : ExprsConfined b) : Confined (arguments (b + 1)) := by
  intro ts extra ts' padded
  rw [arguments, arguments]
  rcases next?_padded .rparen padded with
    ⟨none, none'⟩ | ⟨rest, rest', shorter, shorter', found, found', afterClose, closeSuffix⟩
  · simp only [none, none']
    refine (ih.expression ts extra ts' padded).bind ?_
    rintro first first' ⟨same, afterFirst, firstSuffix⟩
    exact ((listTail_confined ih _ _ first.rest extra first'.rest afterFirst).widen
      firstSuffix).bind fun others others' agree =>
        .pure ⟨by rw [same, agree.value], agree.rest, agree.suffix.trans firstSuffix⟩
  · simp only [found, found']
    exact .ok ⟨rfl, afterClose, closeSuffix⟩

/-- A primary expression. Its first token decides the branch; past it, unless it is the end of
input, the tokens are padded alike. -/
theorem primary_confined (ih : ExprsConfined b) : Confined (primary (b + 1)) := by
  intro ts extra ts' padded
  obtain ⟨rfl, ends⟩ := padded
  obtain _ | ⟨t, rest⟩ := ts
  · exact absurd rfl ends.ne_nil
  have afterToken : t.kind ≠ .eof → VieCompiler.Padded extra rest (rest ++ extra) :=
    fun notEnd => ⟨rfl, ends.tail notEnd⟩
  have restSuffix : rest <:+ t :: rest := List.suffix_cons t rest
  have failed : ∀ {β β' : Type} {R : β → β' → Prop}, Alike (t :: rest) R
      (fail .expression (t :: rest)) (fail .expression (t :: (rest ++ extra))) :=
    fail_padded .expression ⟨rfl, ends⟩
  rw [List.cons_append, primary, primary]
  dsimp only
  generalize isKind : t.kind = kind at afterToken
  cases kind
  case number =>
    dsimp only
    cases read : Binary64.ofText? t.lexeme with
    | some value => exact .ok ⟨rfl, afterToken (by decide), restSuffix⟩
    | none => exact .notANumber List.mem_cons_self isKind read
  case lbracket =>
    dsimp only
    have afterOpen := afterToken (by decide)
    rcases next?_padded .rbracket afterOpen with
      ⟨none, none'⟩ | ⟨close, close', shorter, shorter', found, found', afterClose, closeSuffix⟩
    · simp only [none, none']
      refine ((ih.expression rest extra _ afterOpen).widen restSuffix).bind ?_
      rintro first first' ⟨same, afterFirst, firstSuffix⟩
      have itemsSuffix := firstSuffix.trans restSuffix
      exact ((listTail_confined ih _ _ first.rest extra first'.rest afterFirst).widen
        itemsSuffix).bind fun others others' agree =>
          .pure ⟨by rw [same, agree.value], agree.rest, agree.suffix.trans itemsSuffix⟩
    · simp only [found, found']
      exact .ok ⟨rfl, afterClose, closeSuffix.trans restSuffix⟩
  case lparen =>
    dsimp only
    refine ((ih.expression rest extra _ (afterToken (by decide))).widen restSuffix).bind ?_
    rintro inner inner' ⟨same, afterInner, innerSuffix⟩
    refine ((expect_padded .rparen .groupClose afterInner).widen
      (innerSuffix.trans restSuffix)).bind ?_
    rintro ⟨_, _⟩ ⟨_, _⟩ ⟨afterClose, closeSuffix⟩
    exact .pure ⟨same, afterClose, closeSuffix.trans (innerSuffix.trans restSuffix)⟩
  case keyword word =>
    cases word
    case moi =>
      dsimp only
      by_cases zero : b = 0
      · simp only [zero, ↓reduceIte]
        exact .tooDeep
      · simp only [zero, ↓reduceIte]
        refine ((name_padded .identifier (afterToken (by decide))).widen restSuffix).bind ?_
        rintro className className' ⟨same, afterName, nameSuffix⟩
        have classSuffix := nameSuffix.trans restSuffix
        refine ((expect_padded .lparen .constructorOpen afterName).widen classSuffix).bind ?_
        rintro ⟨afterOpen, _⟩ ⟨afterOpen', _⟩ ⟨afterParen, openSuffix⟩
        have argsStart := openSuffix.trans classSuffix
        exact ((ih.arguments afterOpen extra afterOpen' afterParen).widen argsStart).bind
          fun args args' agree => .pure ⟨by rw [same, agree.value], agree.rest,
            agree.suffix.trans argsStart⟩
    all_goals first
      | exact .ok ⟨rfl, afterToken (by decide), restSuffix⟩
      | exact failed
  all_goals first
    | exact .ok ⟨rfl, afterToken (by decide), restSuffix⟩
    | exact failed

end Expressions

/-- With no budget left, no expression production reads anything. -/
theorem exprsConfined_zero : ExprsConfined 0 where
  expression _ _ _ _ := by rw [expression, expression]; exact .tooDeep
  assignment _ _ _ _ := by rw [assignment, assignment]; exact .tooDeep
  binary _ _ _ _ _ := by rw [binary, binary]; exact .tooDeep
  binaryTail _ _ _ _ _ _ := by rw [binaryTail, binaryTail]; exact .tooDeep
  unary _ _ _ _ := by rw [unary, unary]; exact .tooDeep
  suffixed _ _ _ _ := by rw [suffixed, suffixed]; exact .tooDeep
  suffixes _ _ _ _ _ := by rw [suffixes, suffixes]; exact .tooDeep
  arguments _ _ _ _ := by rw [arguments, arguments]; exact .tooDeep
  listTail _ _ _ _ _ _ := by rw [listTail, listTail]; exact .tooDeep
  primary _ _ _ _ := by rw [primary.eq_def, primary.eq_def]; exact .tooDeep

theorem exprsConfined_succ {b : Nat} (ih : ExprsConfined b) : ExprsConfined (b + 1) where
  expression := expression_confined ih
  assignment := assignment_confined ih
  binary := binary_confined ih
  binaryTail := binaryTail_confined ih
  unary := unary_confined ih
  suffixed := suffixed_confined ih
  suffixes := suffixes_confined ih
  arguments := arguments_confined ih
  listTail := listTail_confined ih
  primary := primary_confined ih

/-- Every expression production reads only the tokens it is given, whatever its budget. -/
theorem exprsConfined : ∀ b, ExprsConfined b
  | 0 => exprsConfined_zero
  | b + 1 => exprsConfined_succ (exprsConfined b)

section Declarations

theorem moreParameters_confined : Confined moreParameters := by
  refine Confined.of_shorter fun ts loop extra ts' padded => ?_
  rw [moreParameters, moreParameters]
  rcases next?_padded .comma padded with
    ⟨none, none'⟩ | ⟨tail, tail', shorter, shorter', found, found', afterComma, commaSuffix⟩
  · simp only [none, none']
    refine (expect_padded .rparen .parametersClose padded).bind ?_
    rintro ⟨_, _⟩ ⟨_, _⟩ ⟨afterClose, closeSuffix⟩
    exact .pure ⟨rfl, afterClose, closeSuffix⟩
  · simp only [found, found']
    refine ((name_padded .identifier afterComma).widen commaSuffix).bind ?_
    rintro first first' ⟨same, afterFirst, firstSuffix⟩
    have fewer : first.rest.length < ts.length := by
      have := first.shorter
      omega
    have restSuffix := firstSuffix.trans commaSuffix
    exact ((loop first.rest fewer extra first'.rest afterFirst).widen restSuffix).bind
      fun others others' agree => .pure ⟨by rw [same, agree.value], agree.rest,
        agree.suffix.trans restSuffix⟩

theorem parameters_confined (budget : Nat) : Confined (parameters budget) := by
  intro ts extra ts' padded
  unfold parameters
  rcases next?_padded .rparen padded with
    ⟨none, none'⟩ | ⟨rest, rest', shorter, shorter', found, found', afterClose, closeSuffix⟩
  · simp only [none, none']
    by_cases zero : budget = 0
    · simp only [zero, ↓reduceIte]
      exact .tooDeep
    simp only [zero, ↓reduceIte]
    refine (name_padded .identifier padded).bind ?_
    rintro first first' ⟨same, afterFirst, firstSuffix⟩
    exact ((moreParameters_confined first.rest extra first'.rest afterFirst).widen
      firstSuffix).bind fun others others' agree =>
        .pure ⟨by rw [same, agree.value], agree.rest, agree.suffix.trans firstSuffix⟩
  · simp only [found, found']
    exact .ok ⟨rfl, afterClose, closeSuffix⟩

theorem variableDecl_confined : ∀ b, Confined (variableDecl b)
  | 0 => fun _ _ _ _ => by rw [variableDecl, variableDecl]; exact .tooDeep
  | b + 1 => by
    intro ts extra ts' padded
    rw [variableDecl, variableDecl]
    refine (name_padded .variableName padded).bind ?_
    rintro n n' ⟨same, afterName, nameSuffix⟩
    refine ((expect_padded .equal .declarationEquals afterName).widen nameSuffix).bind ?_
    rintro ⟨afterEquals, _⟩ ⟨afterEquals', _⟩ ⟨afterSign, signSuffix⟩
    have valueStart := signSuffix.trans nameSuffix
    exact (((exprsConfined b).expression afterEquals extra afterEquals' afterSign).widen
      valueStart).bind fun value value' agree =>
        .pure ⟨by rw [same, agree.value], agree.rest, agree.suffix.trans valueStart⟩

end Declarations

/-- The invariant of the statement productions with budget `b`. -/
structure StmtsConfined (b : Nat) : Prop where
  declaration : Confined (declaration b)
  routine : ∀ kind, Confined (routine b kind)
  classDecl : Confined (classDecl b)
  classBody : Confined (classBody b)
  statement : Confined (statement b)
  blockRest : Confined (blockRest b)
  ifRest : Confined (ifRest b)
  whileRest : Confined (whileRest b)
  forEachRest : Confined (forEachRest b)

section Statements

variable {b : Nat}

/-- A production that starts after a keyword reads only the tokens after the keyword. -/
theorem after_keyword {α : Type} {extra ts tail tail' : List Token}
    {f : (tokens : List Token) → Except ParseFailure (Parsed tokens α)}
    (confined : Confined f) (after : VieCompiler.Padded extra tail tail') (suffix : tail <:+ ts) :
    Alike ts (Parsed.Padded extra) (f tail) (f tail') :=
  (confined tail extra tail' after).widen suffix

theorem statement_confined (ih : StmtsConfined b) : Confined (statement (b + 1)) := by
  intro ts extra ts' padded
  rw [statement, statement]
  rcases next?_padded (.keyword .neu) padded with
    ⟨none, none'⟩ | ⟨tail, tail', shorter, shorter', found, found', after, suffix⟩
  rotate_left
  · simp only [found, found']
    exact (after_keyword ih.ifRest after suffix).bind fun q q' agree =>
      .pure ⟨agree.value, agree.rest, agree.suffix.trans suffix⟩
  simp only [none, none']
  rcases next?_padded (.keyword .khi) padded with
    ⟨none, none'⟩ | ⟨tail, tail', shorter, shorter', found, found', after, suffix⟩
  rotate_left
  · simp only [found, found']
    exact (after_keyword ih.whileRest after suffix).bind fun q q' agree =>
      .pure ⟨agree.value, agree.rest, agree.suffix.trans suffix⟩
  simp only [none, none']
  rcases next?_padded (.keyword .voiMoi) padded with
    ⟨none, none'⟩ | ⟨tail, tail', shorter, shorter', found, found', after, suffix⟩
  rotate_left
  · simp only [found, found']
    exact (after_keyword ih.forEachRest after suffix).bind fun q q' agree =>
      .pure ⟨agree.value, agree.rest, agree.suffix.trans suffix⟩
  simp only [none, none']
  rcases next?_padded .lbrace padded with
    ⟨none, none'⟩ | ⟨tail, tail', shorter, shorter', found, found', after, suffix⟩
  rotate_left
  · simp only [found, found']
    exact (after_keyword ih.blockRest after suffix).bind fun q q' agree =>
      .pure ⟨by simp [Parsed.extend, Parsed.map, agree.value], agree.rest,
        agree.suffix.trans suffix⟩
  simp only [none, none']
  rcases next?_padded (.keyword .traVe) padded with
    ⟨none, none'⟩ | ⟨tail, tail', shorter, shorter', found, found', after, suffix⟩
  · simp only [none, none']
    exact ((exprsConfined b).expression ts extra ts' padded).bind fun q q' agree =>
      .pure ⟨by simp [Parsed.map, agree.value], agree.rest, agree.suffix⟩
  · -- a return, with a value unless a closing brace or the end follows
    simp only [found, found']
    rw [atCloseOrEnd_padded .rbrace after]
    by_cases closes : atCloseOrEnd .rbrace tail = true
    · simp only [closes, ↓reduceIte]
      exact .ok ⟨rfl, after, suffix⟩
    · simp only [closes, Bool.false_eq_true, ↓reduceIte]
      cases b with
      | zero => exact .tooDeep
      | succ b =>
        exact (after_keyword (exprsConfined b).expression after suffix).bind fun q q' agree =>
          .pure ⟨by simp [Parsed.extend, Parsed.map, agree.value], agree.rest,
            agree.suffix.trans suffix⟩

/-- A conditional: after its consequent, an alternative after `ngược_lại`, `ngược_lại nếu` or
`còn_nếu`, or none. -/
theorem ifRest_confined (ih : StmtsConfined b) : Confined (ifRest (b + 1)) := by
  intro ts extra ts' padded
  rw [ifRest, ifRest]
  refine (expect_padded .lparen .ifOpen padded).bind ?_
  rintro ⟨afterOpen, _⟩ ⟨afterOpen', _⟩ ⟨afterParen, openSuffix⟩
  refine (after_keyword (exprsConfined b).expression afterParen openSuffix).bind ?_
  rintro test test' ⟨sameTest, afterTest, testSuffix⟩
  have testEnd := testSuffix.trans openSuffix
  refine ((expect_padded .rparen .conditionClose afterTest).widen testEnd).bind ?_
  rintro ⟨afterClose, _⟩ ⟨afterClose', _⟩ ⟨afterParen', closeSuffix⟩
  have bodyStart := closeSuffix.trans testEnd
  refine (after_keyword ih.statement afterParen' bodyStart).bind ?_
  rintro consequent consequent' ⟨sameConsequent, afterConsequent, consequentSuffix⟩
  have consequentEnd := consequentSuffix.trans bodyStart
  dsimp only
  rw [sameTest, sameConsequent]
  rcases next?_padded (.keyword .nguocLai) afterConsequent with
    ⟨none, none'⟩ | ⟨afterElse, afterElse', shorter, shorter', found, found', elsePadded, elseSuffix⟩
  · simp only [none, none']
    rcases next?_padded (.keyword .conNeu) afterConsequent with
      ⟨none, none'⟩ | ⟨afterIf, afterIf', shorter, shorter', found, found', ifPadded, ifSuffix⟩
    · simp only [none, none']
      exact .pure ⟨rfl, afterConsequent, consequentEnd⟩
    · simp only [found, found']
      have alternateStart := ifSuffix.trans consequentEnd
      exact (after_keyword ih.ifRest ifPadded alternateStart).bind fun alternate alternate' agree =>
        .pure ⟨by rw [agree.value], agree.rest, agree.suffix.trans alternateStart⟩
  · simp only [found, found']
    have elseStart := elseSuffix.trans consequentEnd
    rcases next?_padded (.keyword .neu) elsePadded with
      ⟨none, none'⟩ | ⟨afterIf, afterIf', shorter, shorter', found, found', ifPadded, ifSuffix⟩
    · simp only [none, none']
      exact (after_keyword ih.statement elsePadded elseStart).bind fun alternate alternate' agree =>
        .pure ⟨by rw [agree.value], agree.rest, agree.suffix.trans elseStart⟩
    · simp only [found, found']
      have alternateStart := ifSuffix.trans elseStart
      exact (after_keyword ih.ifRest ifPadded alternateStart).bind fun alternate alternate' agree =>
        .pure ⟨by rw [agree.value], agree.rest, agree.suffix.trans alternateStart⟩

theorem whileRest_confined (ih : StmtsConfined b) : Confined (whileRest (b + 1)) := by
  intro ts extra ts' padded
  rw [whileRest, whileRest]
  refine (expect_padded .lparen .whileOpen padded).bind ?_
  rintro ⟨afterOpen, _⟩ ⟨afterOpen', _⟩ ⟨afterParen, openSuffix⟩
  refine (after_keyword (exprsConfined b).expression afterParen openSuffix).bind ?_
  rintro test test' ⟨sameTest, afterTest, testSuffix⟩
  have testEnd := testSuffix.trans openSuffix
  refine ((expect_padded .rparen .conditionClose afterTest).widen testEnd).bind ?_
  rintro ⟨afterClose, _⟩ ⟨afterClose', _⟩ ⟨afterParen', closeSuffix⟩
  have bodyStart := closeSuffix.trans testEnd
  exact (after_keyword ih.statement afterParen' bodyStart).bind fun body body' agree =>
    .pure ⟨by rw [sameTest, agree.value], agree.rest, agree.suffix.trans bodyStart⟩

theorem forEachRest_confined (ih : StmtsConfined b) : Confined (forEachRest (b + 1)) := by
  intro ts extra ts' padded
  rw [forEachRest, forEachRest]
  refine (expect_padded .lparen .forEachOpen padded).bind ?_
  rintro ⟨afterOpen, _⟩ ⟨afterOpen', _⟩ ⟨afterParen, openSuffix⟩
  by_cases zero : b = 0
  · simp only [zero, ↓reduceIte]
    exact .tooDeep
  simp only [zero, ↓reduceIte]
  refine ((name_padded .identifier afterParen).widen openSuffix).bind ?_
  rintro element element' ⟨sameElement, afterElement, elementSuffix⟩
  have elementEnd := elementSuffix.trans openSuffix
  refine ((expect_padded (.keyword .trong) .loopIn afterElement).widen elementEnd).bind ?_
  rintro ⟨afterIn, _⟩ ⟨afterIn', _⟩ ⟨afterWord, inSuffix⟩
  have collectionStart := inSuffix.trans elementEnd
  refine (after_keyword (exprsConfined b).expression afterWord collectionStart).bind ?_
  rintro collection collection' ⟨sameCollection, afterCollection, collectionSuffix⟩
  have collectionEnd := collectionSuffix.trans collectionStart
  refine ((expect_padded .rparen .loopHeaderClose afterCollection).widen collectionEnd).bind ?_
  rintro ⟨afterClose, _⟩ ⟨afterClose', _⟩ ⟨afterParen', closeSuffix⟩
  have bodyStart := closeSuffix.trans collectionEnd
  exact (after_keyword ih.statement afterParen' bodyStart).bind fun body body' agree =>
    .pure ⟨by rw [sameElement, sameCollection, agree.value], agree.rest,
      agree.suffix.trans bodyStart⟩

/-- The statements of a block, by induction on the tokens left. -/
theorem blockRest_confined (ih : StmtsConfined b) : Confined (blockRest (b + 1)) := by
  refine Confined.of_shorter fun ts loop extra ts' padded => ?_
  rw [blockRest, blockRest, atCloseOrEnd_padded .rbrace padded]
  by_cases closes : atCloseOrEnd .rbrace ts = true
  · simp only [closes, ↓reduceIte]
    refine (expect_padded .rbrace .blockClose padded).bind ?_
    rintro ⟨_, _⟩ ⟨_, _⟩ ⟨afterClose, closeSuffix⟩
    exact .pure ⟨rfl, afterClose, closeSuffix⟩
  · simp only [closes, Bool.false_eq_true, ↓reduceIte]
    refine (ih.declaration ts extra ts' padded).bind ?_
    rintro first first' ⟨same, afterFirst, firstSuffix⟩
    have fewer : first.rest.length < ts.length := by
      have := first.shorter
      omega
    exact ((loop first.rest fewer extra first'.rest afterFirst).widen firstSuffix).bind
      fun others others' agree => .pure ⟨by rw [same, agree.value], agree.rest,
        agree.suffix.trans firstSuffix⟩

theorem routine_confined (ih : StmtsConfined b) (kind : RoutineKind) :
    Confined (routine (b + 1) kind) := by
  intro ts extra ts' padded
  rw [routine, routine]
  refine (name_padded (.routineName kind) padded).bind ?_
  rintro n n' ⟨sameName, afterName, nameSuffix⟩
  refine ((expect_padded .lparen (.routineOpen kind) afterName).widen nameSuffix).bind ?_
  rintro ⟨afterOpen, _⟩ ⟨afterOpen', _⟩ ⟨afterParen, openSuffix⟩
  have paramsStart := openSuffix.trans nameSuffix
  refine (after_keyword (parameters_confined b) afterParen paramsStart).bind ?_
  rintro params params' ⟨sameParams, afterParams, paramsSuffix⟩
  have paramsEnd := paramsSuffix.trans paramsStart
  refine ((expect_padded .lbrace (.bodyOpen kind) afterParams).widen paramsEnd).bind ?_
  rintro ⟨afterBrace, _⟩ ⟨afterBrace', _⟩ ⟨afterOpenBrace, braceSuffix⟩
  have bodyStart := braceSuffix.trans paramsEnd
  exact (after_keyword ih.blockRest afterOpenBrace bodyStart).bind fun body body' agree =>
    .pure ⟨by rw [sameName, sameParams, agree.value], agree.rest, agree.suffix.trans bodyStart⟩

/-- The methods of a class body, by induction on the tokens left. -/
theorem classBody_confined (ih : StmtsConfined b) : Confined (classBody (b + 1)) := by
  refine Confined.of_shorter fun ts loop extra ts' padded => ?_
  rw [classBody, classBody, atCloseOrEnd_padded .rbrace padded]
  by_cases closes : atCloseOrEnd .rbrace ts = true
  · simp only [closes, ↓reduceIte]
    refine (expect_padded .rbrace .classClose padded).bind ?_
    rintro ⟨_, _⟩ ⟨_, _⟩ ⟨afterClose, closeSuffix⟩
    exact .pure ⟨rfl, afterClose, closeSuffix⟩
  simp only [closes, Bool.false_eq_true, ↓reduceIte]
  rcases next?_padded (.keyword .ham) padded with
    ⟨none, none'⟩ | ⟨tail, tail', shorter, shorter', found, found', afterWord, wordSuffix⟩
  · simp only [none, none']
    exact fail_padded .methodsOnly padded
  · simp only [found, found']
    refine (after_keyword (ih.routine .method) afterWord wordSuffix).bind ?_
    rintro method method' ⟨same, afterMethod, methodSuffix⟩
    have fewer : method.rest.length < ts.length := by
      have := method.shorter
      omega
    have restSuffix := methodSuffix.trans wordSuffix
    exact ((loop method.rest fewer extra method'.rest afterMethod).widen restSuffix).bind
      fun others others' agree => .pure ⟨by rw [same, agree.value], agree.rest,
        agree.suffix.trans restSuffix⟩

theorem classDecl_confined (ih : StmtsConfined b) : Confined (classDecl (b + 1)) := by
  intro ts extra ts' padded
  rw [classDecl, classDecl]
  by_cases zero : b = 0
  · simp only [zero, ↓reduceIte]
    exact .tooDeep
  simp only [zero, ↓reduceIte]
  refine (name_padded .identifier padded).bind ?_
  rintro n n' ⟨sameName, afterName, nameSuffix⟩
  refine ((expect_padded .lbrace .classOpen afterName).widen nameSuffix).bind ?_
  rintro ⟨afterBrace, _⟩ ⟨afterBrace', _⟩ ⟨afterOpenBrace, braceSuffix⟩
  have bodyStart := braceSuffix.trans nameSuffix
  exact (after_keyword (classBody_confined ih) afterOpenBrace bodyStart).bind
    fun methods methods' agree => .pure ⟨by rw [sameName, agree.value], agree.rest,
      agree.suffix.trans bodyStart⟩

theorem declaration_confined (ih : StmtsConfined b) : Confined (declaration (b + 1)) := by
  intro ts extra ts' padded
  rw [declaration, declaration]
  rcases next?_padded (.keyword .cho) padded with
    ⟨none, none'⟩ | ⟨tail, tail', shorter, shorter', found, found', after, suffix⟩
  rotate_left
  · simp only [found, found']
    exact (after_keyword (variableDecl_confined b) after suffix).bind fun q q' agree =>
      .pure ⟨agree.value, agree.rest, agree.suffix.trans suffix⟩
  simp only [none, none']
  rcases next?_padded (.keyword .ham) padded with
    ⟨none, none'⟩ | ⟨tail, tail', shorter, shorter', found, found', after, suffix⟩
  rotate_left
  · simp only [found, found']
    exact (after_keyword (ih.routine .function) after suffix).bind fun q q' agree =>
      .pure ⟨by simp [Parsed.extend, Parsed.map, agree.value], agree.rest,
        agree.suffix.trans suffix⟩
  simp only [none, none']
  rcases next?_padded (.keyword .lop) padded with
    ⟨none, none'⟩ | ⟨tail, tail', shorter, shorter', found, found', after, suffix⟩
  · simp only [none, none']
    exact ih.statement ts extra ts' padded
  · simp only [found, found']
    exact (after_keyword ih.classDecl after suffix).bind fun q q' agree =>
      .pure ⟨agree.value, agree.rest, agree.suffix.trans suffix⟩

end Statements

/-- With no budget left, no statement production reads anything. -/
theorem stmtsConfined_zero : StmtsConfined 0 where
  declaration _ _ _ _ := by rw [declaration, declaration]; exact .tooDeep
  routine _ _ _ _ _ := by rw [routine, routine]; exact .tooDeep
  classDecl _ _ _ _ := by rw [classDecl, classDecl]; exact .tooDeep
  classBody _ _ _ _ := by rw [classBody, classBody]; exact .tooDeep
  statement _ _ _ _ := by rw [statement, statement]; exact .tooDeep
  blockRest _ _ _ _ := by rw [blockRest, blockRest]; exact .tooDeep
  ifRest _ _ _ _ := by rw [ifRest, ifRest]; exact .tooDeep
  whileRest _ _ _ _ := by rw [whileRest, whileRest]; exact .tooDeep
  forEachRest _ _ _ _ := by rw [forEachRest, forEachRest]; exact .tooDeep

theorem stmtsConfined_succ {b : Nat} (ih : StmtsConfined b) : StmtsConfined (b + 1) where
  declaration := declaration_confined ih
  routine := routine_confined ih
  classDecl := classDecl_confined ih
  classBody := classBody_confined ih
  statement := statement_confined ih
  blockRest := blockRest_confined ih
  ifRest := ifRest_confined ih
  whileRest := whileRest_confined ih
  forEachRest := forEachRest_confined ih

/-- Every statement production reads only the tokens it is given, whatever its budget. -/
theorem stmtsConfined : ∀ b, StmtsConfined b
  | 0 => stmtsConfined_zero
  | b + 1 => stmtsConfined_succ (stmtsConfined b)

/-- The declarations up to the end of the input, by induction on the tokens left. -/
theorem topLevel_padded (budget : Nat) {extra ts ts' : List Token}
    (padded : VieCompiler.Padded extra ts ts') :
    Alike ts (fun body body' => body' = body) (topLevel budget ts) (topLevel budget ts') := by
  rw [topLevel, topLevel, atEnd_padded padded]
  by_cases ends : atEnd ts = true
  · simp only [ends, ↓reduceIte]
    exact .ok rfl
  · simp only [ends, Bool.false_eq_true, ↓reduceIte]
    refine ((stmtsConfined budget).declaration ts extra ts' padded).bind ?_
    rintro first first' ⟨same, afterFirst, firstSuffix⟩
    exact ((topLevel_padded budget afterFirst).widen firstSuffix).bind fun others others' same' =>
      .pure (by rw [same, same'])
termination_by ts.length
decreasing_by
  have := first.shorter
  omega

theorem parse_padded (budget : Nat) {extra ts ts' : List Token}
    (padded : VieCompiler.Padded extra ts ts') :
    Alike ts (fun program program' => program' = program) (parse budget ts) (parse budget ts') :=
  (topLevel_padded budget padded).map fun _ _ same => by rw [same]

/-- A syntax error names one of the tokens parsed. -/
theorem parse_error_token_mem {budget : Nat} {tokens : List Token} {error : ParseError}
    (ends : EndsAtEof tokens) (failed : parse budget tokens = .error (.error error)) :
    error.token ∈ tokens :=
  have padded : VieCompiler.Padded [] tokens tokens := ⟨(List.append_nil tokens).symm, ends⟩
  (parse_padded budget padded).names failed

/-- A number that does not read is a number token of the list whose text `float` refuses. -/
theorem parse_notANumber_token {budget : Nat} {tokens : List Token} {t : Token}
    (ends : EndsAtEof tokens) (failed : parse budget tokens = .error (.notANumber t)) :
    t ∈ tokens ∧ t.kind = .number ∧ Binary64.ofText? t.lexeme = none :=
  have padded : VieCompiler.Padded [] tokens tokens := ⟨(List.append_nil tokens).symm, ends⟩
  (parse_padded budget padded).names failed

section Recovery

variable {tokens : List Token}

/-- The scan of error recovery, started inside the list after its first position, finds a
token at each read and stops inside the list. -/
theorem resumeFrom?_within (ends : EndsAtEof tokens) {position : Nat}
    (inside : position < tokens.length) (started : 0 < position) :
    ∃ resumed, resumeFrom? tokens position = some resumed ∧ position ≤ resumed ∧
      resumed < tokens.length := by
  fun_induction resumeFrom? tokens position with
  | case1 position missing =>
    rw [List.getElem?_eq_none_iff] at missing
    omega
  | case2 position t found isEnd => exact ⟨position, rfl, Nat.le_refl _, inside⟩
  | case3 position t found notEnd noPassed =>
    -- after the first position there is always a token passed
    obtain ⟨p, rfl⟩ : ∃ p, position = p + 1 := ⟨position - 1, by omega⟩
    simp only [tokenBefore?] at noPassed
    rw [List.getElem?_eq_none_iff] at noPassed
    omega
  | case4 position t found notEnd passed passedFound stops =>
    exact ⟨position, rfl, Nat.le_refl _, inside⟩
  | case5 position t found notEnd passed passedFound goesOn _ ih =>
    -- past a token other than the end of input there is another token
    have next := ends.succ_lt_length found notEnd
    obtain ⟨resumed, resumedFound, later, within⟩ := ih next (Nat.succ_pos _)
    refine ⟨resumed, ?_, by omega, within⟩
    simp only [tokenBefore?, found, Option.bind_some, resumedFound]

/-- Error recovery from a position inside the list, unless it is an end of input at the first
position, finds a token at each read and stops inside the list after its first position. -/
theorem recover?_within (ends : EndsAtEof tokens) {position : Nat}
    (inside : position < tokens.length)
    (started : 0 < position ∨ ∀ t ∈ tokens[position]?, t.kind ≠ .eof) :
    ∃ resumed, recover? tokens position = some resumed ∧ 0 < resumed ∧
      resumed < tokens.length := by
  have found : tokens[position]? = some tokens[position] := List.getElem?_eq_getElem inside
  -- the first step passes the token there, or stays on it when it ends the input
  have stepped : ∃ next, stepFrom? tokens position = some next ∧ 0 < next ∧
      next < tokens.length := by
    by_cases isEnd : tokens[position].kind = .eof
    · have positive : 0 < position := by
        rcases started with positive | notEnd
        · exact positive
        · exact absurd isEnd (notEnd _ found)
      obtain ⟨p, rfl⟩ : ∃ p, position = p + 1 := ⟨position - 1, by omega⟩
      have passed : tokens[p]? = some tokens[p] := List.getElem?_eq_getElem (by omega)
      exact ⟨p + 1, by simp [stepFrom?, found, isEnd, tokenBefore?, passed], positive, inside⟩
    · exact ⟨position + 1, by simp [stepFrom?, found, isEnd, tokenBefore?], Nat.succ_pos _,
        ends.succ_lt_length found isEnd⟩
  obtain ⟨next, step, positive, nextInside⟩ := stepped
  obtain ⟨resumed, resumedFound, later, within⟩ := resumeFrom?_within ends nextInside positive
  exact ⟨resumed, by simp [recover?, step, resumedFound], by omega, within⟩

/-- Recovery repeated from where the last one stopped, as each enclosing declaration repeats
it, stays inside the list. -/
theorem recover?_rounds (ends : EndsAtEof tokens) :
    ∀ (rounds position : Nat), position < tokens.length →
      (0 < position ∨ ∀ t ∈ tokens[position]?, t.kind ≠ .eof) →
      ∃ resumed, (fun p : Option Nat => p.bind (recover? tokens))^[rounds] (some position) = some resumed ∧
        resumed < tokens.length
  | 0, position, inside, _ => ⟨position, rfl, inside⟩
  | rounds + 1, position, inside, started => by
    obtain ⟨resumed, recovered, positive, within⟩ := recover?_within ends inside started
    obtain ⟨last, iterated, lastInside⟩ := recover?_rounds ends rounds resumed within (.inl positive)
    refine ⟨last, ?_, lastInside⟩
    rw [Function.iterate_succ_apply]
    simpa only [Option.bind_some, recovered] using iterated

end Recovery

/-- What the parser reads of `tokens` when it parses them with `budget`. -/
structure ReadsWithin (budget : Nat) (tokens : List Token) : Prop where
  /-- Nothing at or past the end of the list: the tokens after them, if any, change nothing. -/
  past_end : ∀ more, parse budget (tokens ++ more) = parse budget tokens
  /-- The token of a syntax error is one of them. -/
  error_token : ∀ error, parse budget tokens = .error (.error error) → error.token ∈ tokens
  /-- Error recovery, repeated from any position at which a declaration can have failed, finds a
  token at each read and stops inside the list. -/
  recovery : ∀ position, position < tokens.length →
    (0 < position ∨ ∀ t ∈ tokens[position]?, t.kind ≠ .eof) →
    ∀ rounds, ∃ resumed,
      (fun p : Option Nat => p.bind (recover? tokens))^[rounds] (some position) = some resumed ∧
        resumed < tokens.length

/-- The parser never reads outside a token list that ends with an end-of-input token: the
tokens past the end change nothing, a syntax error names one of the list's tokens, and error
recovery, however many enclosing declarations repeat it, reads only tokens of the list. -/
theorem parse_reads_within {tokens : List Token} (ends : EndsAtEof tokens) (budget : Nat) :
    ReadsWithin budget tokens where
  past_end _ := (parse_padded budget ⟨rfl, ends⟩).eq
  error_token _ failed := parse_error_token_mem ends failed
  recovery position inside started rounds := recover?_rounds ends rounds position inside started

/-- An assignment cut short by the end of input: its error names the end-of-input token, and
nothing after that token is read. -/
theorem unfinished_assignment_reads_within :
    EndsAtEof [⟨.ident, "x", 1⟩, ⟨.equal, "=", 1⟩, ⟨.eof, "", 1⟩] ∧
      ReadsWithin 100 [⟨.ident, "x", 1⟩, ⟨.equal, "=", 1⟩, ⟨.eof, "", 1⟩] :=
  have ends : EndsAtEof [⟨.ident, "x", 1⟩, ⟨.equal, "=", 1⟩, ⟨.eof, "", 1⟩] :=
    ⟨[⟨.ident, "x", 1⟩, ⟨.equal, "=", 1⟩], ⟨.eof, "", 1⟩, rfl, rfl⟩
  ⟨ends, parse_reads_within ends 100⟩

end Parser

end VieCompiler
