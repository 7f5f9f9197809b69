import VieCompiler.Compile
import Mathlib

/-!
# The two spellings of an else-if

A conditional goes on with another conditional after `còn_nếu` or after `ngược_lại nếu`:
`Parser.ifRest` reads the same alternative after either. No other production reads either
keyword, so the two spellings are interchangeable anywhere in the tokens. Spelling any
`còn_nếu` token as the two tokens `ngược_lại`, `nếu` changes neither whether the tokens parse
nor the program they parse to (`Program.ofTokensAt_respelled`).

The proof is a simulation between the parser's runs on the two token lists (`Respelled`):
every production, at every budget, fails on both or reads one value from both and stops at
tokens that are again respelled (`Parser.Outcomes`). As in `VieCompiler.Proofs.WellFormed`,
the invariant of the productions at budget `b` (`Parser.ExprsAgree`, `Parser.StmtsAgree`)
gives the one at `b + 1`, production by production, and the loops of the grammar go by
induction on the tokens left.
-/

namespace VieCompiler

/-- `ts'` is `ts` with some of its `còn_nếu` tokens spelled as `ngược_lại` and `nếu`. -/
inductive Respelled : List Token → List Token → Prop
  | nil : Respelled [] []
  | cons (t : Token) {ts ts' : List Token} : Respelled ts ts' → Respelled (t :: ts) (t :: ts')
  | elseIf {c e f : Token} {ts ts' : List Token} (conNeu : c.kind = .keyword .conNeu)
      (nguocLai : e.kind = .keyword .nguocLai) (neu : f.kind = .keyword .neu) :
      Respelled ts ts' → Respelled (c :: ts) (e :: f :: ts')

namespace Respelled

theorem refl : ∀ ts : List Token, Respelled ts ts
  | [] => nil
  | t :: ts => cons t (refl ts)

/-- Respelling the `còn_nếu` token at `i` alone. -/
theorem at_index {c e f : Token} (conNeu : c.kind = .keyword .conNeu)
    (nguocLai : e.kind = .keyword .nguocLai) (neu : f.kind = .keyword .neu) :
    ∀ (ts : List Token) (i : Nat), ts[i]? = some c →
      Respelled ts (ts.take i ++ e :: f :: ts.drop (i + 1))
  | [], _, found => by cases found
  | t :: ts, 0, found => by
    cases found
    exact elseIf conNeu nguocLai neu (refl ts)
  | t :: ts, i + 1, found => cons t (at_index conNeu nguocLai neu ts i found)

end Respelled

namespace Parser

/-- A token kind other than the two that start the spellings of an else-if. -/
def Plain (kind : Token.Kind) : Prop :=
  kind ≠ .keyword .conNeu ∧ kind ≠ .keyword .nguocLai

instance : DecidablePred Plain :=
  fun _ => inferInstanceAs (Decidable (_ ∧ _))

/-- Two computations that may fail agree under `related`: both fail, or both succeed with
related results. -/
def Outcomes {β β' : Type} (related : β → β' → Prop) :
    Except ParseFailure β → Except ParseFailure β' → Prop
  | .ok b, .ok b' => related b b'
  | .error _, .error _ => True
  | _, _ => False

/-- Two reads agree: the same value, and respelled tokens after it. -/
structure Parsed.Agree {α : Type} {ts ts' : List Token} (p : Parsed ts α) (q : Parsed ts' α) :
    Prop where
  value : p.value = q.value
  rest : Respelled p.rest q.rest

/-- Two runs of a loop agree: the same value, and respelled tokens after it. -/
structure Continued.Agree {α : Type} {ts ts' : List Token} (p : Continued ts α)
    (q : Continued ts' α) : Prop where
  value : p.value = q.value
  rest : Respelled p.rest q.rest

namespace Outcomes

variable {β β' γ γ' : Type} {R : β → β' → Prop} {S : γ → γ' → Prop}

theorem pure {b : β} {b' : β'} (related : R b b') : Outcomes R (pure b) (pure b') :=
  related

theorem ok {b : β} {b' : β'} (related : R b b') : Outcomes R (.ok b) (.ok b') :=
  related

theorem error (e e' : ParseFailure) : Outcomes R (.error e) (.error e') :=
  trivial

theorem bind {x : Except ParseFailure β} {y : Except ParseFailure β'}
    {f : β → Except ParseFailure γ} {g : β' → Except ParseFailure γ'} (first : Outcomes R x y)
    (rest : ∀ b b', R b b' → Outcomes S (f b) (g b')) : Outcomes S (x >>= f) (y >>= g) := by
  cases x with
  | error e =>
    cases y with
    | error e' => trivial
    | ok b' => cases first
  | ok b =>
    cases y with
    | error e' => cases first
    | ok b' => exact rest b b' first

/-- Agreeing results agree under any relation that their relation implies. -/
theorem imp {x : Except ParseFailure β} {y : Except ParseFailure β'} {R' : β → β' → Prop}
    (agree : Outcomes R x y) (weaker : ∀ b b', R b b' → R' b b') : Outcomes R' x y := by
  cases x <;> cases y
  all_goals first | trivial | cases agree | exact weaker _ _ agree

end Outcomes

section Tokens

variable {ts ts' : List Token}

theorem next?_respelled (kind : Token.Kind) (plain : Plain kind) (respelled : Respelled ts ts') :
    (next? kind ts = none ∧ next? kind ts' = none) ∨
      ∃ tail tail' shorter shorter', next? kind ts = some ⟨tail, shorter⟩ ∧
        next? kind ts' = some ⟨tail', shorter'⟩ ∧ Respelled tail tail' := by
  cases respelled with
  | nil => exact .inl ⟨rfl, rfl⟩
  | cons t rest =>
    by_cases fits : t.kind = kind ∧ t.kind ≠ .eof
    · exact .inr ⟨_, _, Nat.lt_succ_self _, Nat.lt_succ_self _, by simp only [next?, if_pos fits],
        by simp only [next?, if_pos fits], rest⟩
    · exact .inl ⟨by simp only [next?, if_neg fits], by simp only [next?, if_neg fits]⟩
  | @elseIf c e _ _ _ conNeu nguocLai _ _ =>
    -- neither keyword that starts a spelling is of a plain kind
    have first : ¬(c.kind = kind ∧ c.kind ≠ .eof) := fun fits => plain.1 (fits.1.symm.trans conNeu)
    have first' : ¬(e.kind = kind ∧ e.kind ≠ .eof) := fun fits =>
      plain.2 (fits.1.symm.trans nguocLai)
    exact .inl ⟨by simp only [next?, first, if_false], by simp only [next?, first', if_false]⟩

theorem next?_of_kind {kind : Token.Kind} {t : Token} (rest : List Token) (same : t.kind = kind)
    (notEnd : kind ≠ .eof) : next? kind (t :: rest) = some ⟨rest, Nat.lt_succ_self _⟩ := by
  simp only [next?, same, ne_eq, notEnd, not_false_eq_true, and_self, ↓reduceIte]

theorem next?_of_ne {kind : Token.Kind} {t : Token} (rest : List Token) (other : t.kind ≠ kind) :
    next? kind (t :: rest) = none := by
  simp only [next?, other, false_and, ↓reduceIte]

theorem expect_respelled {kind : Token.Kind} {problem : Problem} (plain : Plain kind)
    (respelled : Respelled ts ts') :
    Outcomes (fun r r' => Respelled r.1 r'.1) (expect kind problem ts) (expect kind problem ts') := by
  unfold expect
  rcases next?_respelled kind plain respelled with
    ⟨none, none'⟩ | ⟨tail, tail', shorter, shorter', found, found', after⟩
  · rw [none, none']
    trivial
  · rw [found, found']
    exact after

theorem name_respelled {problem : Problem} (respelled : Respelled ts ts') :
    Outcomes Parsed.Agree (name problem ts) (name problem ts') := by
  cases respelled with
  | nil => trivial
  | cons t rest =>
    simp only [name]
    split
    · exact Outcomes.ok ⟨rfl, rest⟩
    · trivial
  | elseIf conNeu nguocLai _ _ =>
    simp [name, conNeu, nguocLai, fail, Outcomes]

/-- No binary operator is written with a keyword that starts a spelling of an else-if. -/
theorem levelOperators_plain (level : Nat) : ∀ entry ∈ levelOperators level, Plain entry.1 := by
  unfold levelOperators
  split <;> decide

theorem operator?_respelled (level : Nat) (respelled : Respelled ts ts') :
    (operator? level ts = none ∧ operator? level ts' = none) ∨
      ∃ op tail tail' shorter shorter', operator? level ts = some (op, ⟨tail, shorter⟩) ∧
        operator? level ts' = some (op, ⟨tail', shorter'⟩) ∧ Respelled tail tail' := by
  cases respelled with
  | nil => exact .inl ⟨rfl, rfl⟩
  | cons t rest =>
    simp only [operator?]
    split
    · exact .inl ⟨rfl, rfl⟩
    · cases found : (levelOperators level).find? (·.1 == t.kind) with
      | none => exact .inl ⟨rfl, rfl⟩
      | some entry => exact .inr ⟨entry.2, _, _, Nat.lt_succ_self _, Nat.lt_succ_self _, rfl, rfl, rest⟩
  | elseIf conNeu nguocLai _ _ =>
    have absent : ∀ kind, ¬Plain kind →
        (levelOperators level).find? (·.1 == kind) = none := by
      intro kind special
      refine List.find?_eq_none.mpr fun entry listed same => special ?_
      simpa [(beq_iff_eq).mp same] using levelOperators_plain level entry listed
    have notPlain : ∀ {k : Keyword}, k = .conNeu ∨ k = .nguocLai → ¬Plain (.keyword k) := by
      rintro k (rfl | rfl) plain
      · exact plain.1 rfl
      · exact plain.2 rfl
    exact .inl ⟨by simp [operator?, conNeu, absent _ (notPlain (.inl rfl))],
      by simp [operator?, nguocLai, absent _ (notPlain (.inr rfl))]⟩

theorem atEnd_respelled (respelled : Respelled ts ts') : atEnd ts = atEnd ts' := by
  cases respelled with
  | nil => rfl
  | cons t rest => rfl
  | elseIf conNeu nguocLai _ _ =>
    simp only [atEnd, peek, conNeu, nguocLai]
    decide

theorem atCloseOrEnd_respelled {kind : Token.Kind} (plain : Plain kind)
    (respelled : Respelled ts ts') : atCloseOrEnd kind ts = atCloseOrEnd kind ts' := by
  unfold atCloseOrEnd
  rw [atEnd_respelled respelled]
  rcases next?_respelled kind plain respelled with
    ⟨none, none'⟩ | ⟨tail, tail', shorter, shorter', found, found', -⟩
  · rw [none, none']
    rfl
  · rw [found, found']
    rfl

end Tokens

section Loops

variable {α : Type}

/-- The production `f` reads alike from `ts` and from every respelling of it. -/
def AgreesAt (f : (tokens : List Token) → Except ParseFailure (Parsed tokens α))
    (ts : List Token) : Prop :=
  ∀ ts', Respelled ts ts' → Outcomes Parsed.Agree (f ts) (f ts')

/-- The production `f` reads alike from respelled tokens, wherever in the input it starts. -/
def Agrees (f : (tokens : List Token) → Except ParseFailure (Parsed tokens α)) : Prop :=
  ∀ ts, AgreesAt f ts

/-- The loop `f` builds alike from one start on `ts` and on every respelling of it. -/
def AgreesFromAt (f : α → (tokens : List Token) → Except ParseFailure (Continued tokens α))
    (ts : List Token) : Prop :=
  ∀ start ts', Respelled ts ts' → Outcomes Continued.Agree (f start ts) (f start ts')

/-- The loop `f` builds alike from one start on respelled tokens. -/
def AgreesFrom (f : α → (tokens : List Token) → Except ParseFailure (Continued tokens α)) :
    Prop :=
  ∀ ts, AgreesFromAt f ts

/-- A loop of the grammar reads alike when each of its turns does, given that the rest of the
loop, on fewer tokens, does. -/
theorem Agrees.of_shorter {f : (tokens : List Token) → Except ParseFailure (Parsed tokens α)}
    (step : ∀ ts, (∀ shorter : List Token, shorter.length < ts.length → AgreesAt f shorter) →
      AgreesAt f ts) : Agrees f := by
  intro ts
  induction count : ts.length using Nat.strongRecOn generalizing ts with
  | ind n ih => exact step ts fun shorter fewer => ih _ (count ▸ fewer) shorter rfl

theorem AgreesFrom.of_shorter
    {f : α → (tokens : List Token) → Except ParseFailure (Continued tokens α)}
    (step : ∀ ts, (∀ shorter : List Token, shorter.length < ts.length → AgreesFromAt f shorter) →
      AgreesFromAt f ts) : AgreesFrom f := by
  intro ts
  induction count : ts.length using Nat.strongRecOn generalizing ts with
  | ind n ih => exact step ts fun shorter fewer => ih _ (count ▸ fewer) shorter rfl

end Loops

/-- The invariant of the expression productions with budget `b`. -/
structure ExprsAgree (b : Nat) : Prop where
  expression : Agrees (expression b)
  assignment : Agrees (assignment b)
  binary : ∀ level, Agrees (binary b level)
  binaryTail : ∀ level, AgreesFrom (binaryTail b level)
  unary : Agrees (unary b)
  suffixed : Agrees (suffixed b)
  suffixes : AgreesFrom (suffixes b)
  arguments : Agrees (arguments b)
  listTail : ∀ close problem, Plain close → Agrees (listTail b close problem)
  primary : Agrees (primary b)

section Expressions

variable {b : Nat}

theorem expression_agrees (ih : ExprsAgree b) : Agrees (expression (b + 1)) := by
  intro ts ts' respelled
  rw [expression, expression]
  exact ih.assignment ts ts' respelled

theorem assignment_agrees (ih : ExprsAgree b) : Agrees (assignment (b + 1)) := by
  intro ts ts' respelled
  rw [assignment, assignment]
  refine (ih.binary 0 ts ts' respelled).bind ?_
  rintro left left' ⟨same, afterLeft⟩
  rcases next?_respelled .equal (by decide) afterLeft with
    ⟨none, none'⟩ | ⟨tail, tail', shorter, shorter', found, found', afterEquals⟩
  · simp only [none, none']
    exact .pure ⟨same, afterLeft⟩
  · simp only [found, found']
    refine (ih.assignment tail tail' afterEquals).bind fun value value' agree => ?_
    -- the target is checked once the value has been read, on the same tree in both
    by_cases target : left.value.isTarget = true
    · rw [if_pos target, if_pos (same ▸ target)]
      exact .pure ⟨by rw [same, agree.value], agree.rest⟩
    · rw [if_neg target, if_neg (same ▸ target)]
      trivial

/-- An operand of the binary level `level`: of the next level, or unary at the tightest. -/
theorem operand_agrees (ih : ExprsAgree b) (level : Nat) {ts ts' : List Token}
    (respelled : Respelled ts ts') :
    Outcomes Parsed.Agree (if level < tightestLevel then binary b (level + 1) ts else unary b ts)
      (if level < tightestLevel then binary b (level + 1) ts' else unary b ts') := by
  by_cases tighter : level < tightestLevel
  · rw [if_pos tighter, if_pos tighter]
    exact ih.binary (level + 1) ts ts' respelled
  · rw [if_neg tighter, if_neg tighter]
    exact ih.unary ts ts' respelled

theorem binaryTail_agrees (ih : ExprsAgree b) (level : Nat) :
    AgreesFrom (binaryTail (b + 1) level) := by
  refine AgreesFrom.of_shorter fun ts loop start ts' respelled => ?_
  rw [binaryTail, binaryTail]
  rcases operator?_respelled level respelled with
    ⟨none, none'⟩ | ⟨op, tail, tail', shorter, shorter', found, found', afterOp⟩
  · simp only [none, none']
    exact .ok ⟨rfl, respelled⟩
  · simp only [found, found']
    have operand := operand_agrees ih level afterOp
    -- the operand is of the next level, or unary at the tightest, on both alike
    by_cases tighter : level < tightestLevel <;> simp only [tighter, ↓reduceIte] at operand ⊢
    all_goals
      refine operand.bind ?_
      rintro right right' ⟨same, afterRight⟩
      have fewer : right.rest.length < ts.length := by
        have := right.shorter
        omega
      rw [← same]
      exact (loop right.rest fewer _ right'.rest afterRight).bind fun whole whole' agree =>
        .pure ⟨agree.value, agree.rest⟩

theorem binary_agrees (ih : ExprsAgree b) (level : Nat) : Agrees (binary (b + 1) level) := by
  intro ts ts' respelled
  rw [binary, binary]
  have operand := operand_agrees ih level respelled
  by_cases tighter : level < tightestLevel <;> simp only [tighter, ↓reduceIte] at operand ⊢
  all_goals
    refine operand.bind ?_
    rintro first first' ⟨same, afterFirst⟩
    rw [same]
    exact (binaryTail_agrees ih level first.rest _ first'.rest afterFirst).bind
      fun whole whole' agree => .pure ⟨agree.value, agree.rest⟩

theorem unary_agrees (ih : ExprsAgree b) : Agrees (unary (b + 1)) := by
  intro ts ts' respelled
  rw [unary, unary]
  rcases next?_respelled .minus (by decide) respelled with
    ⟨none, none'⟩ | ⟨tail, tail', shorter, shorter', found, found', afterMinus⟩
  · simp only [none, none']
    exact ih.suffixed ts ts' respelled
  · simp only [found, found']
    -- a negation is read as a subtraction from zero on both
    exact (ih.unary tail tail' afterMinus).bind fun operand operand' agree =>
      .pure ⟨by simp [Parsed.extend, Parsed.map, agree.value], agree.rest⟩

/-- Calls, index accesses and field accesses after an expression, by induction on the tokens
left. -/
theorem suffixes_agrees (ih : ExprsAgree b) : AgreesFrom (suffixes (b + 1)) := by
  refine AgreesFrom.of_shorter fun ts loop target ts' respelled => ?_
  rw [suffixes, suffixes]
  rcases next?_respelled .lparen (by decide) respelled with
    ⟨none, none'⟩ | ⟨tail, tail', shorter, shorter', found, found', afterOpen⟩
  rotate_left
  · simp only [found, found']
    refine (ih.arguments tail tail' afterOpen).bind ?_
    rintro args args' ⟨same, afterArgs⟩
    have fewer : args.rest.length < ts.length := by
      have := args.shorter
      omega
    rw [same]
    exact (loop args.rest fewer _ args'.rest afterArgs).bind fun whole whole' agree =>
      .pure ⟨agree.value, agree.rest⟩
  simp only [none, none']
  rcases next?_respelled .lbracket (by decide) respelled with
    ⟨none, none'⟩ | ⟨tail, tail', shorter, shorter', found, found', afterOpen⟩
  rotate_left
  · simp only [found, found']
    refine (ih.expression tail tail' afterOpen).bind ?_
    rintro key key' ⟨same, afterKey⟩
    refine (expect_respelled (by decide) afterKey).bind ?_
    rintro ⟨afterClose, closed⟩ ⟨afterClose', closed'⟩ afterBracket
    have fewer : afterClose.length < ts.length := by
      have := key.shorter
      omega
    rw [same]
    exact (loop afterClose fewer _ afterClose' afterBracket).bind fun whole whole' agree =>
      .pure ⟨agree.value, agree.rest⟩
  simp only [none, none']
  rcases next?_respelled .dot (by decide) respelled with
    ⟨none, none'⟩ | ⟨tail, tail', shorter, shorter', found, found', afterDot⟩
  · simp only [none, none']
    exact .ok ⟨rfl, respelled⟩
  · simp only [found, found']
    by_cases zero : b = 0
    · simp only [zero, if_true]
      trivial
    · simp only [zero, if_false]
      refine (name_respelled afterDot).bind ?_
      rintro field field' ⟨same, afterField⟩
      have fewer : field.rest.length < ts.length := by
        have := field.shorter
        omega
      rw [same]
      exact (loop field.rest fewer _ field'.rest afterField).bind fun whole whole' agree =>
        .pure ⟨agree.value, agree.rest⟩

theorem suffixed_agrees (ih : ExprsAgree b) : Agrees (suffixed (b + 1)) := by
  intro ts ts' respelled
  rw [suffixed, suffixed]
  refine (ih.primary ts ts' respelled).bind ?_
  rintro head head' ⟨same, afterHead⟩
  rw [same]
  exact (suffixes_agrees ih head.rest _ head'.rest afterHead).bind fun whole whole' agree =>
    .pure ⟨agree.value, agree.rest⟩

/-- The items of a list after a comma each, and its closing token, by induction on the tokens
left. -/
theorem listTail_agrees (ih : ExprsAgree b) (close : Token.Kind) (problem : Problem)
    (plain : Plain close) : Agrees (listTail (b + 1) close problem) := by
  refine Agrees.of_shorter fun ts loop ts' respelled => ?_
  rw [listTail, listTail]
  rcases next?_respelled .comma (by decide) respelled with
    ⟨none, none'⟩ | ⟨tail, tail', shorter, shorter', found, found', afterComma⟩
  · simp only [none, none']
    refine (expect_respelled plain respelled).bind ?_
    rintro ⟨_, _⟩ ⟨_, _⟩ afterClose
    exact .pure ⟨rfl, afterClose⟩
  · simp only [found, found']
    refine (ih.expression tail tail' afterComma).bind ?_
    rintro item item' ⟨same, afterItem⟩
    have fewer : item.rest.length < ts.length := by
      have := item.shorter
      omega
    exact (loop item.rest fewer item'.rest afterItem).bind fun more more' agree =>
      .pure ⟨by rw [same, agree.value], agree.rest⟩

theorem arguments_agrees (ih : ExprsAgree b) : Agrees (arguments (b + 1)) := by
  intro ts ts' respelled
  rw [arguments, arguments]
  rcases next?_respelled .rparen (by decide) respelled with
    ⟨none, none'⟩ | ⟨rest, rest', shorter, shorter', found, found', afterClose⟩
  · simp only [none, none']
    refine (ih.expression ts ts' respelled).bind ?_
    rintro first first' ⟨same, afterFirst⟩
    exact (listTail_agrees ih _ _ (by decide) first.rest first'.rest afterFirst).bind
      fun more more' agree => .pure ⟨by rw [same, agree.value], agree.rest⟩
  · simp only [found, found']
    exact .ok ⟨rfl, afterClose⟩

/-- A primary expression. Both token lists start with the same token, which decides the
branch, or with the two keywords of an else-if, which no branch accepts. -/
theorem primary_agrees (ih : ExprsAgree b) : Agrees (primary (b + 1)) := by
  intro ts ts' respelled
  cases respelled with
  | nil =>
    rw [primary]
    trivial
  | elseIf conNeu nguocLai _ _ =>
    rw [primary, primary]
    simp only [conNeu, nguocLai]
    trivial
  | cons t respelled =>
    rw [primary, primary]
    dsimp only
    generalize t.kind = kind
    cases kind
    case number =>
      dsimp only
      cases Binary64.ofText? t.lexeme with
      | some value => exact .ok ⟨rfl, respelled⟩
      | none => exact .error _ _
    case lbracket =>
      dsimp only
      rcases next?_respelled .rbracket (by decide) respelled with
        ⟨none, none'⟩ | ⟨rest, rest', shorter, shorter', found, found', afterClose⟩
      · simp only [none, none']
        refine (ih.expression _ _ respelled).bind ?_
        rintro first first' ⟨same, afterFirst⟩
        exact (listTail_agrees ih _ _ (by decide) first.rest first'.rest afterFirst).bind
          fun more more' agree => .pure ⟨by rw [same, agree.value], agree.rest⟩
      · simp only [found, found']
        exact .ok ⟨rfl, afterClose⟩
    case lparen =>
      dsimp only
      refine (ih.expression _ _ respelled).bind ?_
      rintro inner inner' ⟨same, afterInner⟩
      refine (expect_respelled (by decide) afterInner).bind ?_
      rintro ⟨_, _⟩ ⟨_, _⟩ afterClose
      exact .pure ⟨same, afterClose⟩
    case keyword word =>
      cases word
      case moi =>
        dsimp only
        by_cases zero : b = 0
        · simp only [zero, ↓reduceIte]
          trivial
        · simp only [zero, ↓reduceIte]
          refine (name_respelled respelled).bind ?_
          rintro className className' ⟨same, afterName⟩
          refine (expect_respelled (by decide) afterName).bind ?_
          rintro ⟨afterOpen, _⟩ ⟨afterOpen', _⟩ afterParen
          exact (ih.arguments afterOpen afterOpen' afterParen).bind fun args args' agree =>
            .pure ⟨by rw [same, agree.value], agree.rest⟩
      all_goals first
        | exact .ok ⟨rfl, respelled⟩
        | exact .error _ _
    all_goals first
      | exact .ok ⟨rfl, respelled⟩
      | exact .error _ _

end Expressions

/-- With no budget left, no expression production reads anything. -/
theorem exprsAgree_zero : ExprsAgree 0 where
  expression _ _ _ := by rw [expression, expression]; trivial
  assignment _ _ _ := by rw [assignment, assignment]; trivial
  binary _ _ _ _ := by rw [binary, binary]; trivial
  binaryTail _ _ _ _ _ := by rw [binaryTail, binaryTail]; trivial
  unary _ _ _ := by rw [unary, unary]; trivial
  suffixed _ _ _ := by rw [suffixed, suffixed]; trivial
  suffixes _ _ _ _ := by rw [suffixes, suffixes]; trivial
  arguments _ _ _ := by rw [arguments, arguments]; trivial
  listTail _ _ _ _ _ _ := by rw [listTail, listTail]; trivial
  primary _ _ _ := by rw [primary.eq_def, primary.eq_def]; trivial

theorem exprsAgree_succ {b : Nat} (ih : ExprsAgree b) : ExprsAgree (b + 1) where
  expression := expression_agrees ih
  assignment := assignment_agrees ih
  binary := binary_agrees ih
  binaryTail := binaryTail_agrees ih
  unary := unary_agrees ih
  suffixed := suffixed_agrees ih
  suffixes := suffixes_agrees ih
  arguments := arguments_agrees ih
  listTail := listTail_agrees ih
  primary := primary_agrees ih

/-- Every expression production reads alike from respelled tokens, whatever its budget. -/
theorem exprsAgree : ∀ b, ExprsAgree b
  | 0 => exprsAgree_zero
  | b + 1 => exprsAgree_succ (exprsAgree b)

section Declarations

theorem moreParameters_agrees : Agrees moreParameters := by
  refine Agrees.of_shorter fun ts loop ts' respelled => ?_
  rw [moreParameters, moreParameters]
  rcases next?_respelled .comma (by decide) respelled with
    ⟨none, none'⟩ | ⟨tail, tail', shorter, shorter', found, found', afterComma⟩
  · simp only [none, none']
    refine (expect_respelled (by decide) respelled).bind ?_
    rintro ⟨_, _⟩ ⟨_, _⟩ afterClose
    exact .pure ⟨rfl, afterClose⟩
  · simp only [found, found']
    refine (name_respelled afterComma).bind ?_
    rintro first first' ⟨same, afterFirst⟩
    have fewer : first.rest.length < ts.length := by
      have := first.shorter
      omega
    exact (loop first.rest fewer first'.rest afterFirst).bind fun more more' agree =>
      .pure ⟨by rw [same, agree.value], agree.rest⟩

theorem parameters_agrees (budget : Nat) : Agrees (parameters budget) := by
  intro ts ts' respelled
  unfold parameters
  rcases next?_respelled .rparen (by decide) respelled with
    ⟨none, none'⟩ | ⟨rest, rest', shorter, shorter', found, found', afterClose⟩
  · simp only [none, none']
    by_cases zero : budget = 0
    · simp only [zero, ↓reduceIte]
      trivial
    simp only [zero, ↓reduceIte]
    refine (name_respelled respelled).bind ?_
    rintro first first' ⟨same, afterFirst⟩
    exact (moreParameters_agrees first.rest first'.rest afterFirst).bind fun more more' agree =>
      .pure ⟨by rw [same, agree.value], agree.rest⟩
  · simp only [found, found']
    exact .ok ⟨rfl, afterClose⟩

theorem variableDecl_agrees : ∀ b, Agrees (variableDecl b)
  | 0 => fun _ _ _ => by rw [variableDecl, variableDecl]; trivial
  | b + 1 => by
    intro ts ts' respelled
    rw [variableDecl, variableDecl]
    refine (name_respelled respelled).bind ?_
    rintro n n' ⟨same, afterName⟩
    refine (expect_respelled (by decide) afterName).bind ?_
    rintro ⟨afterEquals, _⟩ ⟨afterEquals', _⟩ afterSign
    exact ((exprsAgree b).expression afterEquals afterEquals' afterSign).bind
      fun value value' agree => .pure ⟨by rw [same, agree.value], agree.rest⟩

end Declarations

/-- The invariant of the statement productions with budget `b`. -/
structure StmtsAgree (b : Nat) : Prop where
  declaration : Agrees (declaration b)
  routine : ∀ kind, Agrees (routine b kind)
  classDecl : Agrees (classDecl b)
  classBody : Agrees (classBody b)
  statement : Agrees (statement b)
  blockRest : Agrees (blockRest b)
  ifRest : Agrees (ifRest b)
  whileRest : Agrees (whileRest b)
  forEachRest : Agrees (forEachRest b)

section Statements

variable {b : Nat}

theorem statement_agrees (ih : StmtsAgree b) : Agrees (statement (b + 1)) := by
  intro ts ts' respelled
  rw [statement, statement]
  rcases next?_respelled (.keyword .neu) (by decide) respelled with
    ⟨none, none'⟩ | ⟨tail, tail', shorter, shorter', found, found', after⟩
  rotate_left
  · simp only [found, found']
    exact (ih.ifRest tail tail' after).bind fun q q' agree => .pure ⟨agree.value, agree.rest⟩
  simp only [none, none']
  rcases next?_respelled (.keyword .khi) (by decide) respelled with
    ⟨none, none'⟩ | ⟨tail, tail', shorter, shorter', found, found', after⟩
  rotate_left
  · simp only [found, found']
    exact (ih.whileRest tail tail' after).bind fun q q' agree => .pure ⟨agree.value, agree.rest⟩
  simp only [none, none']
  rcases next?_respelled (.keyword .voiMoi) (by decide) respelled with
    ⟨none, none'⟩ | ⟨tail, tail', shorter, shorter', found, found', after⟩
  rotate_left
  · simp only [found, found']
    exact (ih.forEachRest tail tail' after).bind fun q q' agree =>
      .pure ⟨agree.value, agree.rest⟩
  simp only [none, none']
  rcases next?_respelled .lbrace (by decide) respelled with
    ⟨none, none'⟩ | ⟨tail, tail', shorter, shorter', found, found', after⟩
  rotate_left
  · simp only [found, found']
    exact (ih.blockRest tail tail' after).bind fun q q' agree =>
      .pure ⟨by simp [Parsed.extend, Parsed.map, agree.value], agree.rest⟩
  simp only [none, none']
  rcases next?_respelled (.keyword .traVe) (by decide) respelled with
    ⟨none, none'⟩ | ⟨tail, tail', shorter, shorter', found, found', after⟩
  · simp only [none, none']
    exact ((exprsAgree b).expression ts ts' respelled).bind fun q q' agree =>
      .pure ⟨by simp [Parsed.map, agree.value], agree.rest⟩
  · -- a return, with a value unless a closing brace or the end follows
    simp only [found, found']
    rw [atCloseOrEnd_respelled (by decide) after]
    by_cases closes : atCloseOrEnd .rbrace tail' = true
    · simp only [closes, ↓reduceIte]
      exact .ok ⟨rfl, after⟩
    · simp only [closes, Bool.false_eq_true, ↓reduceIte]
      cases b with
      | zero => trivial
      | succ b =>
        exact ((exprsAgree b).expression tail tail' after).bind fun q q' agree =>
          .pure ⟨by simp [Parsed.extend, Parsed.map, agree.value], agree.rest⟩

/-- A conditional. After its consequent the two spellings of an else-if meet: a `còn_nếu` on
one side and the `ngược_lại` `nếu` that stands for it on the other both go on with another
conditional, on respelled tokens. -/
theorem ifRest_agrees (ih : StmtsAgree b) : Agrees (ifRest (b + 1)) := by
  intro ts ts' respelled
  rw [ifRest, ifRest]
  refine (expect_respelled (by decide) respelled).bind ?_
  rintro ⟨afterOpen, _⟩ ⟨afterOpen', _⟩ afterParen
  refine ((exprsAgree b).expression afterOpen afterOpen' afterParen).bind ?_
  rintro test test' ⟨sameTest, afterTest⟩
  refine (expect_respelled (by decide) afterTest).bind ?_
  rintro ⟨afterClose, _⟩ ⟨afterClose', _⟩ afterParen'
  refine (ih.statement afterClose afterClose' afterParen').bind ?_
  rintro ⟨consequent, rest, _⟩ ⟨consequent', rest', _⟩ ⟨sameConsequent, afterConsequent⟩
  dsimp only at sameConsequent afterConsequent ⊢
  rw [sameTest, sameConsequent]
  -- what follows the consequent: the tokens after it are respelled
  cases afterConsequent with
  | nil => exact .ok ⟨rfl, .nil⟩
  | cons t after =>
    by_cases otherwise : t.kind = .keyword .nguocLai
    · -- `ngược_lại` on both: another conditional after `nếu`, or else a statement
      rw [next?_of_kind _ otherwise (by decide), next?_of_kind _ otherwise (by decide)]
      dsimp only
      rcases next?_respelled (.keyword .neu) (by decide) after with
        ⟨none, none'⟩ | ⟨tail, tail', shorter, shorter', found, found', afterIf⟩
      · simp only [none, none']
        exact (ih.statement _ _ after).bind fun alternate alternate' agree =>
          .pure ⟨by rw [agree.value], agree.rest⟩
      · simp only [found, found']
        exact (ih.ifRest tail tail' afterIf).bind fun alternate alternate' agree =>
          .pure ⟨by rw [agree.value], agree.rest⟩
    · rw [next?_of_ne _ otherwise, next?_of_ne _ otherwise]
      dsimp only
      by_cases elseIf : t.kind = .keyword .conNeu
      · -- `còn_nếu` on both
        rw [next?_of_kind _ elseIf (by decide), next?_of_kind _ elseIf (by decide)]
        exact (ih.ifRest _ _ after).bind fun alternate alternate' agree =>
          .pure ⟨by rw [agree.value], agree.rest⟩
      · -- no alternative on either
        rw [next?_of_ne _ elseIf, next?_of_ne _ elseIf]
        exact .pure ⟨rfl, .cons t after⟩
  | @elseIf c _ _ _ _ conNeu nguocLai neu after =>
    -- `còn_nếu` here, `ngược_lại` `nếu` there: another conditional on both
    have notElse : c.kind ≠ .keyword .nguocLai := by
      rw [conNeu]
      decide
    rw [next?_of_ne _ notElse, next?_of_kind _ nguocLai (by decide)]
    dsimp only
    rw [next?_of_kind _ conNeu (by decide), next?_of_kind _ neu (by decide)]
    exact (ih.ifRest _ _ after).bind fun alternate alternate' agree =>
      .pure ⟨by rw [agree.value], agree.rest⟩

theorem whileRest_agrees (ih : StmtsAgree b) : Agrees (whileRest (b + 1)) := by
  intro ts ts' respelled
  rw [whileRest, whileRest]
  refine (expect_respelled (by decide) respelled).bind ?_
  rintro ⟨afterOpen, _⟩ ⟨afterOpen', _⟩ afterParen
  refine ((exprsAgree b).expression afterOpen afterOpen' afterParen).bind ?_
  rintro test test' ⟨sameTest, afterTest⟩
  refine (expect_respelled (by decide) afterTest).bind ?_
  rintro ⟨afterClose, _⟩ ⟨afterClose', _⟩ afterParen'
  exact (ih.statement afterClose afterClose' afterParen').bind fun body body' agree =>
    .pure ⟨by rw [sameTest, agree.value], agree.rest⟩

theorem forEachRest_agrees (ih : StmtsAgree b) : Agrees (forEachRest (b + 1)) := by
  intro ts ts' respelled
  rw [forEachRest, forEachRest]
  refine (expect_respelled (by decide) respelled).bind ?_
  rintro ⟨afterOpen, _⟩ ⟨afterOpen', _⟩ afterParen
  by_cases zero : b = 0
  · simp only [zero, ↓reduceIte]
    trivial
  simp only [zero, ↓reduceIte]
  refine (name_respelled afterParen).bind ?_
  rintro element element' ⟨sameElement, afterElement⟩
  refine (expect_respelled (by decide) afterElement).bind ?_
  rintro ⟨afterIn, _⟩ ⟨afterIn', _⟩ afterWord
  refine ((exprsAgree b).expression afterIn afterIn' afterWord).bind ?_
  rintro collection collection' ⟨sameCollection, afterCollection⟩
  refine (expect_respelled (by decide) afterCollection).bind ?_
  rintro ⟨afterClose, _⟩ ⟨afterClose', _⟩ afterParen'
  exact (ih.statement afterClose afterClose' afterParen').bind fun body body' agree =>
    .pure ⟨by rw [sameElement, sameCollection, agree.value], agree.rest⟩

/-- The statements of a block, by induction on the tokens left. -/
theorem blockRest_agrees (ih : StmtsAgree b) : Agrees (blockRest (b + 1)) := by
  refine Agrees.of_shorter fun ts loop ts' respelled => ?_
  rw [blockRest, blockRest, atCloseOrEnd_respelled (by decide) respelled]
  by_cases closes : atCloseOrEnd .rbrace ts' = true
  · simp only [closes, ↓reduceIte]
    refine (expect_respelled (by decide) respelled).bind ?_
    rintro ⟨_, _⟩ ⟨_, _⟩ afterClose
    exact .pure ⟨rfl, afterClose⟩
  · simp only [closes, Bool.false_eq_true, ↓reduceIte]
    refine (ih.declaration ts ts' respelled).bind ?_
    rintro first first' ⟨same, afterFirst⟩
    have fewer : first.rest.length < ts.length := by
      have := first.shorter
      omega
    exact (loop first.rest fewer first'.rest afterFirst).bind fun more more' agree =>
      .pure ⟨by rw [same, agree.value], agree.rest⟩

theorem routine_agrees (ih : StmtsAgree b) (kind : RoutineKind) :
    Agrees (routine (b + 1) kind) := by
  intro ts ts' respelled
  rw [routine, routine]
  refine (name_respelled respelled).bind ?_
  rintro n n' ⟨sameName, afterName⟩
  refine (expect_respelled (by decide) afterName).bind ?_
  rintro ⟨afterOpen, _⟩ ⟨afterOpen', _⟩ afterParen
  refine (parameters_agrees b afterOpen afterOpen' afterParen).bind ?_
  rintro params params' ⟨sameParams, afterParams⟩
  refine (expect_respelled (by decide) afterParams).bind ?_
  rintro ⟨afterBrace, _⟩ ⟨afterBrace', _⟩ afterOpenBrace
  exact (ih.blockRest afterBrace afterBrace' afterOpenBrace).bind fun body body' agree =>
    .pure ⟨by rw [sameName, sameParams, agree.value], agree.rest⟩

/-- The methods of a class body, by induction on the tokens left. -/
theorem classBody_agrees (ih : StmtsAgree b) : Agrees (classBody (b + 1)) := by
  refine Agrees.of_shorter fun ts loop ts' respelled => ?_
  rw [classBody, classBody, atCloseOrEnd_respelled (by decide) respelled]
  by_cases closes : atCloseOrEnd .rbrace ts' = true
  · simp only [closes, ↓reduceIte]
    refine (expect_respelled (by decide) respelled).bind ?_
    rintro ⟨_, _⟩ ⟨_, _⟩ afterClose
    exact .pure ⟨rfl, afterClose⟩
  simp only [closes, Bool.false_eq_true, ↓reduceIte]
  rcases next?_respelled (.keyword .ham) (by decide) respelled with
    ⟨none, none'⟩ | ⟨tail, tail', shorter, shorter', found, found', afterWord⟩
  · simp only [none, none']
    trivial
  · simp only [found, found']
    refine (ih.routine .method tail tail' afterWord).bind ?_
    rintro method method' ⟨same, afterMethod⟩
    have fewer : method.rest.length < ts.length := by
      have := method.shorter
      omega
    exact (loop method.rest fewer method'.rest afterMethod).bind fun more more' agree =>
      .pure ⟨by rw [same, agree.value], agree.rest⟩

theorem classDecl_agrees (ih : StmtsAgree b) : Agrees (classDecl (b + 1)) := by
  intro ts ts' respelled
  rw [classDecl, classDecl]
  by_cases zero : b = 0
  · simp only [zero, ↓reduceIte]
    trivial
  simp only [zero, ↓reduceIte]
  refine (name_respelled respelled).bind ?_
  rintro n n' ⟨sameName, afterName⟩
  refine (expect_respelled (by decide) afterName).bind ?_
  rintro ⟨afterBrace, _⟩ ⟨afterBrace', _⟩ afterOpenBrace
  exact (classBody_agrees ih afterBrace afterBrace' afterOpenBrace).bind
    fun methods methods' agree => .pure ⟨by rw [sameName, agree.value], agree.rest⟩

theorem declaration_agrees (ih : StmtsAgree b) : Agrees (declaration (b + 1)) := by
  intro ts ts' respelled
  rw [declaration, declaration]
  rcases next?_respelled (.keyword .cho) (by decide) respelled with
    ⟨none, none'⟩ | ⟨tail, tail', shorter, shorter', found, found', after⟩
  rotate_left
  · simp only [found, found']
    exact (variableDecl_agrees b tail tail' after).bind fun q q' agree =>
      .pure ⟨agree.value, agree.rest⟩
  simp only [none, none']
  rcases next?_respelled (.keyword .ham) (by decide) respelled with
    ⟨none, none'⟩ | ⟨tail, tail', shorter, shorter', found, found', after⟩
  rotate_left
  · simp only [found, found']
    exact (ih.routine .function tail tail' after).bind fun q q' agree =>
      .pure ⟨by simp [Parsed.extend, Parsed.map, agree.value], agree.rest⟩
  simp only [none, none']
  rcases next?_respelled (.keyword .lop) (by decide) respelled with
    ⟨none, none'⟩ | ⟨tail, tail', shorter, shorter', found, found', after⟩
  · simp only [none, none']
    exact ih.statement ts ts' respelled
  · simp only [found, found']
    exact (ih.classDecl tail tail' after).bind fun q q' agree => .pure ⟨agree.value, agree.rest⟩

end Statements

/-- With no budget left, no statement production reads anything. -/
theorem stmtsAgree_zero : StmtsAgree 0 where
  declaration _ _ _ := by rw [declaration, declaration]; trivial
  routine _ _ _ _ := by rw [routine, routine]; trivial
  classDecl _ _ _ := by rw [classDecl, classDecl]; trivial
  classBody _ _ _ := by rw [classBody, classBody]; trivial
  statement _ _ _ := by rw [statement, statement]; trivial
  blockRest _ _ _ := by rw [blockRest, blockRest]; trivial
  ifRest _ _ _ := by rw [ifRest, ifRest]; trivial
  whileRest _ _ _ := by rw [whileRest, whileRest]; trivial
  forEachRest _ _ _ := by rw [forEachRest, forEachRest]; trivial

theorem stmtsAgree_succ {b : Nat} (ih : StmtsAgree b) : StmtsAgree (b + 1) where
  declaration := declaration_agrees ih
  routine := routine_agrees ih
  classDecl := classDecl_agrees ih
  classBody := classBody_agrees ih
  statement := statement_agrees ih
  blockRest := blockRest_agrees ih
  ifRest := ifRest_agrees ih
  whileRest := whileRest_agrees ih
  forEachRest := forEachRest_agrees ih

/-- Every statement production reads alike from respelled tokens, whatever its budget. -/
theorem stmtsAgree : ∀ b, StmtsAgree b
  | 0 => stmtsAgree_zero
  | b + 1 => stmtsAgree_succ (stmtsAgree b)

/-- The declarations up to the end of the input, by induction on the tokens left. -/
theorem topLevel_respelled (budget : Nat) {ts ts' : List Token} (respelled : Respelled ts ts') :
    Outcomes (· = ·) (topLevel budget ts) (topLevel budget ts') := by
  rw [topLevel, topLevel, atEnd_respelled respelled]
  by_cases ends : atEnd ts' = true
  · simp only [ends, ↓reduceIte]
    exact .ok rfl
  · simp only [ends, Bool.false_eq_true, ↓reduceIte]
    refine ((stmtsAgree budget).declaration ts ts' respelled).bind ?_
    rintro first first' ⟨same, afterFirst⟩
    exact (topLevel_respelled budget afterFirst).bind fun more more' sameMore =>
      .pure (by rw [same, sameMore])
termination_by ts.length
decreasing_by
  have := first.shorter
  omega

/-- Respelling `còn_nếu` tokens as `ngược_lại` `nếu` changes neither whether the tokens parse
nor the program they parse to. -/
theorem parse_respelled (budget : Nat) {ts ts' : List Token} (respelled : Respelled ts ts')
    (program : Program) : parse budget ts = .ok program ↔ parse budget ts' = .ok program := by
  have agree := topLevel_respelled budget respelled
  unfold parse
  cases parsed : topLevel budget ts with
  | error e =>
    cases parsed' : topLevel budget ts' with
    | error e' => simp [Except.map]
    | ok body' =>
      rw [parsed, parsed'] at agree
      cases agree
  | ok body =>
    cases parsed' : topLevel budget ts' with
    | error e' =>
      rw [parsed, parsed'] at agree
      cases agree
    | ok body' =>
      rw [parsed, parsed'] at agree
      cases agree
      rfl

end Parser

/-- Reporting failures differently keeps every success as it is. -/
theorem Except.mapError_eq_ok_iff {ε ε' α : Type} {f : ε → ε'} {x : Except ε α} {a : α} :
    x.mapError f = .ok a ↔ x = .ok a := by
  cases x <;> simp [Except.mapError]

/-- The two spellings of an else-if are interchangeable: for every token list and every
`còn_nếu` token in it, spelling that token as the two tokens `ngược_lại`, `nếu` changes neither
whether the list parses nor the program it parses to. -/
theorem Program.ofTokensAt_respelled (active : Nat) (ts : List Token) (i : Nat) {c e f : Token}
    (found : ts[i]? = some c) (conNeu : c.kind = .keyword .conNeu)
    (nguocLai : e.kind = .keyword .nguocLai) (neu : f.kind = .keyword .neu) (program : Program) :
    Program.ofTokensAt active ts = .ok program ↔
      Program.ofTokensAt active (ts.take i ++ e :: f :: ts.drop (i + 1)) = .ok program := by
  unfold Program.ofTokensAt
  rw [Except.mapError_eq_ok_iff, Except.mapError_eq_ok_iff]
  exact Parser.parse_respelled (parseBudget active)
    (Respelled.at_index conNeu nguocLai neu ts i found) program

/-- The two spellings of an else-if in `nếu (a) { } còn_nếu (b) { } ngược_lại { }`. -/
theorem elseIf_spellings_interchangeable :
    ([⟨.keyword .neu, "nếu", 1⟩, ⟨.lparen, "(", 1⟩, ⟨.ident, "a", 1⟩, ⟨.rparen, ")", 1⟩,
        ⟨.lbrace, "\x7b", 1⟩, ⟨.rbrace, "\x7d", 1⟩, ⟨.keyword .conNeu, "còn_nếu", 1⟩,
        ⟨.lparen, "(", 1⟩, ⟨.ident, "b", 1⟩, ⟨.rparen, ")", 1⟩, ⟨.lbrace, "\x7b", 1⟩,
        ⟨.rbrace, "\x7d", 1⟩, ⟨.keyword .nguocLai, "ngược_lại", 1⟩, ⟨.lbrace, "\x7b", 1⟩,
        ⟨.rbrace, "\x7d", 1⟩, ⟨.eof, "", 1⟩] : List Token)[6]? =
        some ⟨.keyword .conNeu, "còn_nếu", 1⟩ ∧
      (Program.ofTokensAt 0
          [⟨.keyword .neu, "nếu", 1⟩, ⟨.lparen, "(", 1⟩, ⟨.ident, "a", 1⟩, ⟨.rparen, ")", 1⟩,
            ⟨.lbrace, "\x7b", 1⟩, ⟨.rbrace, "\x7d", 1⟩, ⟨.keyword .conNeu, "còn_nếu", 1⟩,
            ⟨.lparen, "(", 1⟩, ⟨.ident, "b", 1⟩, ⟨.rparen, ")", 1⟩, ⟨.lbrace, "\x7b", 1⟩,
            ⟨.rbrace, "\x7d", 1⟩, ⟨.keyword .nguocLai, "ngược_lại", 1⟩, ⟨.lbrace, "\x7b", 1⟩,
            ⟨.rbrace, "\x7d", 1⟩, ⟨.eof, "", 1⟩] =
          .ok ⟨[.ifElse (.ident "a") (.block []) (some (.ifElse (.ident "b") (.block [])
            (some (.block []))))]⟩ ↔
        Program.ofTokensAt 0
          [⟨.keyword .neu, "nếu", 1⟩, ⟨.lparen, "(", 1⟩, ⟨.ident, "a", 1⟩, ⟨.rparen, ")", 1⟩,
            ⟨.lbrace, "\x7b", 1⟩, ⟨.rbrace, "\x7d", 1⟩, ⟨.keyword .nguocLai, "ngược_lại", 1⟩,
            ⟨.keyword .neu, "nếu", 1⟩, ⟨.lparen, "(", 1⟩, ⟨.ident, "b", 1⟩, ⟨.rparen, ")", 1⟩,
            ⟨.lbrace, "\x7b", 1⟩, ⟨.rbrace, "\x7d", 1⟩, ⟨.keyword .nguocLai, "ngược_lại", 1⟩,
            ⟨.lbrace, "\x7b", 1⟩, ⟨.rbrace, "\x7d", 1⟩, ⟨.eof, "", 1⟩] =
          .ok ⟨[.ifElse (.ident "a") (.block []) (some (.ifElse (.ident "b") (.block [])
            (some (.block []))))]⟩) :=
  ⟨rfl, Program.ofTokensAt_respelled 0 _ 6 rfl rfl rfl rfl _⟩

end VieCompiler
