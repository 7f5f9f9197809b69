import VieCompiler.Proofs.PrintedText
import VieCompiler.Proofs.Continuations
import VieCompiler.Proofs.ElseIf
import Mathlib

/-!
# Reading printed expressions back

The parser reads the tokens of a printed expression back to that expression
(`Parser.exprsReadBack`). Each place of the grammar is read by its production, and the printer
has put an expression in parentheses exactly where it binds more loosely than its place. What
follows the expression's tokens stops an expression at that place (`Parser.Stops`), so the
production ends where the printed expression ends.

The operations of a level and the postfix forms are read by loops that build on what they read
first. Their tokens are read by induction on how many there are: the left operand of an
operation of the level, or the object of a postfix form, is printed first, and the loop goes on
from it (`Parser.binary_chain`, `Parser.suffixed_chain`).

Every production may run out of budget: the read-back says that the production reads the
expression or runs out (`Parser.Yields`). Which budget suffices is the business of
`VieCompiler.Proofs.Budget`.

The leaves have the shapes the lexer gives them (`Leaves.lexical`). Of these the parser needs
two: a number read from digits is whole, so the numeral the printer writes for it reads as the
same number (`Binary64.ofText?_wholeDigits`), and every assignment is to a name, a field or an
index, which the parser checks.
-/

namespace VieCompiler

/-- A number of the lexer's shape is read back from its numeral. -/
theorem Binary64.ofText?_wholeDigits {v : Binary64} (read : Leaves.lexical.number v) :
    Binary64.ofText? (String.ofList v.wholeDigits) = some v := by
  obtain ⟨digits, nonempty, all, found⟩ := read
  rw [Binary64.ofText?_digits nonempty all] at found
  cases found
  obtain ⟨filled, numeral⟩ := Binary64.wholeDigits_digits (Binary64.ofNat (Binary64.digitValue digits))
  rw [Binary64.ofText?_digits filled numeral, Binary64.ofNat_wholeDigits]

namespace Expr

theorem precedence_le (e : Expr) : e.precedence ≤ 8 := by
  cases e <;> simp [precedence]
  case binary op _ => have := op.level_le; omega

/-- An expression of the precedence of a binary level is an operation of that level. -/
theorem eq_binary_of_precedence {e : Expr} {level : Nat} (bounded : level ≤ 5)
    (own : e.precedence = level + 1) : ∃ left op right, e = .binary left op right ∧ op.level = level := by
  cases e with
  | binary left op right => exact ⟨left, op, right, rfl, by simp [precedence] at own; omega⟩
  | _ => simp [precedence] at own <;> omega

/-- An expression of the postfix precedence is a field access, an index access or a call. -/
theorem suffixForm_of_precedence {e : Expr} (seven : e.precedence = 7) :
    (∃ object name, e = .field object name) ∨ (∃ object key, e = .index object key) ∨
      ∃ callee args, e = .call callee args := by
  cases e with
  | field object name => exact .inl ⟨object, name, rfl⟩
  | index object key => exact .inr (.inl ⟨object, key, rfl⟩)
  | call callee args => exact .inr (.inr ⟨callee, args, rfl⟩)
  | binary _ op _ => have := op.level_le; simp [precedence] at seven; omega
  | _ => simp [precedence] at seven

/-- A place that an expression's precedence does not fit exactly is printed as the next
tighter place is. -/
theorem printedAt_succ {e : Expr} {context : Nat} (other : e.precedence ≠ context) :
    e.printedAt context = e.printedAt (context + 1) := by
  by_cases loose : e.precedence < context
  · rw [printedAt_of_lt loose, printedAt_of_lt (by omega)]
  · rw [printedAt_of_le (by omega), printedAt_of_le (by omega)]

end Expr

/-- An operator's token continues no operand of its right side. -/
theorem BinaryOp.token_continuesAt (op : BinaryOp) :
    op.token.1.continuesAt (op.level + 2) = false := by
  cases op <;> decide

namespace Parser

section Outcomes

variable {β γ : Type} {x : Except ParseFailure β} {good : β → Prop}

/-- `x` ends with a result that `good` holds of, or runs out of budget. -/
def Yields (x : Except ParseFailure β) (good : β → Prop) : Prop :=
  x = .error .tooDeep ∨ ∃ r, x = .ok r ∧ good r

theorem Yields.tooDeep : Yields (.error .tooDeep : Except ParseFailure β) good :=
  .inl rfl

theorem Yields.ok {r : β} (holds : good r) : Yields (.ok r) good :=
  .inr ⟨r, rfl, holds⟩

theorem Yields.bind {f : β → Except ParseFailure γ} {good' : γ → Prop} (first : Yields x good)
    (next : ∀ r, good r → Yields (f r) good') : Yields (x >>= f) good' := by
  rcases first with deep | ⟨r, found, holds⟩
  · rw [deep]
    exact .tooDeep
  · rw [found]
    exact next r holds

theorem Yields.bind_ok {f : β → Except ParseFailure γ} {good' : γ → Prop} {r : β}
    (found : x = .ok r) (next : Yields (f r) good') : Yields (x >>= f) good' := by
  rw [found]
  exact next

end Outcomes

/-- The production read `v` and left `rest`, or it ran out of budget. -/
def ReadsBack {ts : List Token} {α : Type} (x : Except ParseFailure (Parsed ts α)) (v : α)
    (rest : List Token) : Prop :=
  Yields x fun p => p.value = v ∧ p.rest = rest

/-- The loop ended with `v` and left `rest`, or it ran out of budget. -/
def GoesOnTo {ts : List Token} {α : Type} (x : Except ParseFailure (Continued ts α)) (v : α)
    (rest : List Token) : Prop :=
  Yields x fun p => p.value = v ∧ p.rest = rest

section Reading

variable {ts : List Token} {α γ : Type} {v : α} {rest : List Token} {good : γ → Prop}

/-- What follows a production that read `v` and left `rest` goes on from exactly these. -/
theorem ReadsBack.bind {x : Except ParseFailure (Parsed ts α)}
    {f : Parsed ts α → Except ParseFailure γ} (first : ReadsBack x v rest)
    (next : ∀ shorter, Yields (f ⟨v, rest, shorter⟩) good) : Yields (x >>= f) good := by
  refine Yields.bind first ?_
  rintro ⟨v', rest', shorter⟩ ⟨same, left⟩
  dsimp only at same left
  subst same left
  exact next shorter

theorem GoesOnTo.bind {x : Except ParseFailure (Continued ts α)}
    {f : Continued ts α → Except ParseFailure γ} (first : GoesOnTo x v rest)
    (next : ∀ noLonger, Yields (f ⟨v, rest, noLonger⟩) good) : Yields (x >>= f) good := by
  refine Yields.bind first ?_
  rintro ⟨v', rest', noLonger⟩ ⟨same, left⟩
  dsimp only at same left
  subst same left
  exact next noLonger

end Reading

section Tokens

variable {kind : Token.Kind} {problem : Problem} {t : Token} {rest : List Token}

theorem expect_of_kind (same : t.kind = kind) (notEnd : kind ≠ .eof) :
    expect kind problem (t :: rest) = .ok ⟨rest, Nat.lt_succ_self _⟩ := by
  simp only [expect, next?_of_kind rest same notEnd]

theorem name_of_ident (isName : t.kind = .ident) :
    name problem (t :: rest) = .ok ⟨t.lexeme, rest, Nat.lt_succ_self _⟩ := by
  simp only [name, isName, if_true]

/-- A token spelled as an operator is read as that operator at its level. -/
theorem operator?_of_token {op : BinaryOp} (spelled : t.spelling = op.token) :
    operator? op.level (t :: rest) = some (op, ⟨rest, Nat.lt_succ_self _⟩) := by
  have kind : t.kind = op.token.1 := congrArg Prod.fst spelled
  have notEnd : op.token.1 ≠ .eof := by
    cases op <;> decide
  simp only [operator?, kind, notEnd, if_false, BinaryOp.find?_levelOperators, Option.map_some]

theorem stops_of_continuesAt {context : Nat} (rest : List Token)
    (stops : t.kind.continuesAt context = false) : Stops context (t :: rest) := by
  intro u head
  cases head
  exact stops

theorem next?_equal_of_stops {ts : List Token} (stops : Stops 0 ts) : next? .equal ts = none := by
  cases ts with
  | nil => rfl
  | cons t rest => exact next?_of_ne rest (stops.head.2.2.2.1 rfl)

theorem operator?_of_stops {level : Nat} {ts : List Token} (bounded : level ≤ 5)
    (stops : Stops (level + 1) ts) : operator? level ts = none := by
  cases ts with
  | nil => rfl
  | cons t rest =>
    refine operator?_eq_none bounded rest fun own => ?_
    have := stops.head.2.2.2.2 level own
    omega

/-- Tokens spelled as a list that starts as `kinds` says start with a token of one of them. -/
theorem StartsAs.spelled {kinds : List Token.Kind} {opens : Bool}
    {tokens : List (Token.Kind × String)} (starts : StartsAs kinds opens tokens)
    {front : List Token} (spelled : front.map Token.spelling = tokens) :
    ∃ t more, front = t :: more ∧ t.kind ∈ kinds ∧
      (t.kind = .lparen ∨ t.kind = .lbracket ↔ opens = true) := by
  obtain ⟨first, others, split, within, bracket⟩ := starts
  rw [split] at spelled
  obtain ⟨t, more, rfl, head, -⟩ := List.map_eq_cons_iff.mp spelled
  have kind : t.kind = first.1 := congrArg Prod.fst head
  exact ⟨t, more, rfl, kind ▸ within, kind ▸ bracket⟩

/-- Tokens that start as `kinds` says do not start with a token of another kind. -/
theorem next?_of_startsAs {kinds : List Token.Kind} {opens : Bool}
    {tokens : List (Token.Kind × String)} (starts : StartsAs kinds opens tokens)
    {front : List Token} (spelled : front.map Token.spelling = tokens) (other : kind ∉ kinds) :
    next? kind (front ++ rest) = none := by
  obtain ⟨t, more, rfl, within, -⟩ := StartsAs.spelled starts spelled
  exact next?_of_ne _ fun same => other (same ▸ within)

end Tokens

section Lists

variable {close : Token.Kind × String}

/-- The tokens that close a list of expressions: a parenthesis or a bracket. -/
def Closing (close : Token.Kind × String) : Prop :=
  close = (.rparen, ")") ∨ close = (.rbracket, "]")

/-- After an expression of a list comes a comma or the closing token, which stop it. -/
theorem stops_printedMore (closing : Closing close) {es : List Expr} {front rest : List Token}
    (spelled : front.map Token.spelling = Expr.printedMore es ++ [close]) :
    Stops 0 (front ++ rest) := by
  cases es with
  | nil =>
    obtain ⟨u, more, rfl, head, -⟩ := List.map_eq_cons_iff.mp spelled
    have kind : u.kind = close.1 := congrArg Prod.fst head
    refine stops_of_continuesAt _ ?_
    rcases closing with rfl | rfl <;> rw [kind] <;> rfl
  | cons e es =>
    obtain ⟨c, more, rfl, head, -⟩ := List.map_eq_cons_iff.mp spelled
    have kind : c.kind = .comma := congrArg Prod.fst head
    exact stops_of_continuesAt _ (by rw [kind]; rfl)

/-- The tokens of a list of expressions start with no closing token. -/
theorem next?_printedList_cons {e : Expr} {es : List Expr} {front rest : List Token}
    (spelled : front.map Token.spelling = e.printed ++ Expr.printedMore es ++ [close])
    (other : kind ∉ Expr.starts) : next? kind (front ++ rest) = none := by
  rw [List.append_assoc] at spelled
  obtain ⟨f₁, f₂, rfl, spelled₁, -⟩ := List.map_eq_append_iff.mp spelled
  rw [List.append_assoc]
  exact next?_of_startsAs (Expr.printed_startsAs e) spelled₁ other

end Lists

section Expressions

/-- The production `f`, on the tokens of every well-formed expression printed at a place of
precedence `context` followed by tokens that stop an expression there, reads that expression
back. -/
def ReadsPrinted (context : Nat)
    (f : (ts : List Token) → Except ParseFailure (Parsed ts Expr)) : Prop :=
  ∀ e, e.WellFormed Leaves.lexical → ∀ front rest,
    front.map Token.spelling = e.printedAt context → Stops context rest →
      ReadsBack (f (front ++ rest)) e rest

/-- The invariant of the expression productions with budget `b`: each reads back what the
printer writes for its place. A primary expression is read without looking past it, and the
arguments of a call up to their closing parenthesis. -/
structure ExprsReadBack (b : Nat) : Prop where
  expression : ReadsPrinted 0 (expression b)
  assignment : ReadsPrinted 0 (assignment b)
  binary : ∀ level, level ≤ 5 → ReadsPrinted (level + 1) (binary b level)
  unary : ReadsPrinted 7 (unary b)
  suffixed : ReadsPrinted 7 (suffixed b)
  primary : ∀ e, e.WellFormed Leaves.lexical → ∀ front rest,
    front.map Token.spelling = e.printedAt 8 → ReadsBack (primary b (front ++ rest)) e rest
  arguments : ∀ args, Expr.ListWellFormed Leaves.lexical args → ∀ front rest,
    front.map Token.spelling = Expr.printedList args ++ [(.rparen, ")")] →
      ReadsBack (arguments b (front ++ rest)) args rest

variable {b : Nat}

/-- The further expressions of a list, each after its comma, by induction on the list. -/
theorem listTail_readsBack (ih : ExprsReadBack b) {close : Token.Kind × String}
    (problem : Problem) (closing : Closing close) :
    ∀ es, Expr.ListWellFormed Leaves.lexical es → ∀ front rest,
      front.map Token.spelling = Expr.printedMore es ++ [close] →
        ReadsBack (listTail (b + 1) close.1 problem (front ++ rest)) es rest
  | [], _, front, rest, spelled => by
    obtain ⟨u, more, rfl, head, moreSpelled⟩ := List.map_eq_cons_iff.mp spelled
    obtain rfl := List.map_eq_nil_iff.mp moreSpelled
    have kind : u.kind = close.1 := congrArg Prod.fst head
    have notComma : u.kind ≠ .comma := by
      rcases closing with rfl | rfl <;> rw [kind] <;> decide
    have notEnd : close.1 ≠ .eof := by
      rcases closing with rfl | rfl <;> decide
    rw [List.singleton_append, listTail, next?_of_ne _ notComma]
    exact Yields.bind_ok (expect_of_kind kind notEnd) (.ok ⟨rfl, rfl⟩)
  | e :: es, ⟨good, goodMore⟩, front, rest, spelled => by
    simp only [Expr.printedMore, List.cons_append, List.append_assoc] at spelled
    obtain ⟨c, more, rfl, head, moreSpelled⟩ := List.map_eq_cons_iff.mp spelled
    obtain ⟨f₁, f₂, rfl, spelled₁, spelled₂⟩ := List.map_eq_append_iff.mp moreSpelled
    have comma : c.kind = .comma := congrArg Prod.fst head
    rw [List.cons_append, List.append_assoc, listTail, next?_of_kind _ comma (by decide)]
    refine ReadsBack.bind (ih.expression e good f₁ (f₂ ++ rest) (by rwa [Expr.printedAt_zero])
      (stops_printedMore closing spelled₂)) fun _ => ?_
    refine ReadsBack.bind (listTail_readsBack ih problem closing es goodMore f₂ rest spelled₂) fun _ => .ok ⟨rfl, rfl⟩

theorem arguments_readsBack (ih : ExprsReadBack b) (args : List Expr)
    (good : Expr.ListWellFormed Leaves.lexical args) (front rest : List Token)
    (spelled : front.map Token.spelling = Expr.printedList args ++ [(.rparen, ")")]) :
    ReadsBack (arguments (b + 1) (front ++ rest)) args rest := by
  cases args with
  | nil =>
    obtain ⟨u, more, rfl, head, moreSpelled⟩ := List.map_eq_cons_iff.mp spelled
    obtain rfl := List.map_eq_nil_iff.mp moreSpelled
    rw [List.singleton_append, arguments, next?_of_kind _ (congrArg Prod.fst head) (by decide)]
    exact .ok ⟨rfl, rfl⟩
  | cons e es =>
    obtain ⟨goodFirst, goodMore⟩ := good
    rw [arguments, next?_printedList_cons spelled (by decide)]
    rw [Expr.printedList, List.append_assoc] at spelled
    obtain ⟨f₁, f₂, rfl, spelled₁, spelled₂⟩ := List.map_eq_append_iff.mp spelled
    rw [List.append_assoc]
    refine ReadsBack.bind (ih.expression e goodFirst f₁ (f₂ ++ rest) (by rwa [Expr.printedAt_zero])
      (stops_printedMore (.inl rfl) spelled₂)) fun _ => ?_
    refine ReadsBack.bind (listTail_readsBack ih .argumentsClose (.inl rfl) es goodMore f₂ rest
      spelled₂) fun _ => .ok ⟨rfl, rfl⟩

theorem spelled_singleton {front : List Token} {tok : Token.Kind × String}
    (spelled : front.map Token.spelling = [tok]) :
    ∃ t, front = [t] ∧ t.kind = tok.1 ∧ t.lexeme = tok.2 := by
  obtain ⟨t, more, rfl, head, moreSpelled⟩ := List.map_eq_cons_iff.mp spelled
  obtain rfl := List.map_eq_nil_iff.mp moreSpelled
  exact ⟨t, rfl, congrArg Prod.fst head, congrArg Prod.snd head⟩

/-- A primary expression is read from its own tokens; one that binds more loosely is read from
its tokens in parentheses. -/
theorem primary_readsBack (ih : ExprsReadBack b) (e : Expr) (good : e.WellFormed Leaves.lexical)
    (front rest : List Token) (spelled : front.map Token.spelling = e.printedAt 8) :
    ReadsBack (primary (b + 1) (front ++ rest)) e rest := by
  by_cases loose : e.precedence < 8
  · rw [Expr.printedAt_of_lt loose] at spelled
    obtain ⟨t, inner, rfl, opening, innerSpelled⟩ := List.map_eq_cons_iff.mp spelled
    obtain ⟨f, closing, rfl, spelledInner, closeSpelled⟩ :=
      List.map_eq_append_iff.mp innerSpelled
    obtain ⟨u, rfl, closeKind, -⟩ := spelled_singleton closeSpelled
    have openKind : t.kind = .lparen := congrArg Prod.fst opening
    rw [List.cons_append, List.append_assoc, List.singleton_append, primary]
    simp only [openKind]
    refine ReadsBack.bind (ih.expression e good f (u :: rest) (by rwa [Expr.printedAt_zero])
      (stops_of_continuesAt rest (by rw [closeKind]; rfl))) fun _ => ?_
    exact Yields.bind_ok (expect_of_kind closeKind (by decide)) (.ok ⟨rfl, rfl⟩)
  have tight : e.precedence = 8 := by
    have := e.precedence_le
    omega
  rw [Expr.printedAt_of_le (by omega)] at spelled
  cases e with
  | ident name =>
    obtain ⟨t, rfl, kind, lexeme⟩ := spelled_singleton spelled
    rw [List.singleton_append, primary]
    simp only [kind]
    exact .ok ⟨by rw [lexeme], rfl⟩
  | self =>
    obtain ⟨t, rfl, kind, -⟩ := spelled_singleton spelled
    rw [List.singleton_append, primary]
    simp only [kind]
    exact .ok ⟨rfl, rfl⟩
  | number value =>
    obtain ⟨t, rfl, kind, lexeme⟩ := spelled_singleton spelled
    rw [List.singleton_append, primary]
    simp only [kind, lexeme, Binary64.ofText?_wholeDigits good]
    exact .ok ⟨rfl, rfl⟩
  | string value =>
    obtain ⟨t, rfl, kind, lexeme⟩ := spelled_singleton spelled
    rw [List.singleton_append, primary]
    simp only [kind]
    exact .ok ⟨by rw [lexeme], rfl⟩
  | bool value =>
    cases value
    all_goals
      obtain ⟨t, rfl, kind, -⟩ := spelled_singleton spelled
      rw [List.singleton_append, primary]
      simp only [kind]
      exact .ok ⟨rfl, rfl⟩
  | null =>
    obtain ⟨t, rfl, kind, -⟩ := spelled_singleton spelled
    rw [List.singleton_append, primary]
    simp only [kind]
    exact .ok ⟨rfl, rfl⟩
  | array elements =>
    obtain ⟨t, inner, rfl, opening, innerSpelled⟩ := List.map_eq_cons_iff.mp spelled
    have openKind : t.kind = .lbracket := congrArg Prod.fst opening
    rw [List.cons_append, primary]
    simp only [openKind]
    cases elements with
    | nil =>
      obtain ⟨u, rfl, closeKind, -⟩ := spelled_singleton innerSpelled
      rw [List.singleton_append, next?_of_kind _ closeKind (by decide)]
      exact .ok ⟨rfl, rfl⟩
    | cons first more =>
      obtain ⟨goodFirst, goodMore⟩ := good
      rw [next?_printedList_cons innerSpelled (by decide)]
      rw [Expr.printedList, List.append_eq, List.append_assoc] at innerSpelled
      obtain ⟨f₁, f₂, rfl, spelled₁, spelled₂⟩ := List.map_eq_append_iff.mp innerSpelled
      rw [List.append_assoc]
      refine ReadsBack.bind (ih.expression first goodFirst f₁ (f₂ ++ rest)
        (by rwa [Expr.printedAt_zero]) (stops_printedMore (.inr rfl) spelled₂)) fun _ => ?_
      refine ReadsBack.bind (listTail_readsBack ih .arrayClose (.inr rfl) more goodMore f₂ rest
        spelled₂) fun _ => .ok ⟨rfl, rfl⟩
  | new className args =>
    obtain ⟨named, goodArgs⟩ := good
    obtain ⟨t₁, more₁, rfl, keyword, spelled₁⟩ := List.map_eq_cons_iff.mp spelled
    obtain ⟨t₂, more₂, rfl, classSpelled, spelled₂⟩ := List.map_eq_cons_iff.mp spelled₁
    obtain ⟨t₃, f, rfl, opening, argsSpelled⟩ := List.map_eq_cons_iff.mp spelled₂
    have newKind : t₁.kind = .keyword .moi := congrArg Prod.fst keyword
    rw [List.cons_append, List.cons_append, List.cons_append, primary]
    simp only [newKind]
    split
    · exact .tooDeep
    refine Yields.bind_ok (name_of_ident (congrArg Prod.fst classSpelled)) ?_
    refine Yields.bind_ok (expect_of_kind (congrArg Prod.fst opening) (by decide)) ?_
    have lexeme : t₂.lexeme = className := congrArg Prod.snd classSpelled
    refine ReadsBack.bind (ih.arguments args goodArgs f rest argsSpelled) fun _ => .ok ⟨?_, rfl⟩
    show Expr.new t₂.lexeme args = Expr.new className args
    rw [lexeme]
  | binary _ op _ =>
    have := op.level_le
    simp only [Expr.precedence] at tight
    omega
  | field | index | assign | call => simp [Expr.precedence] at tight

/-- A call after the expression it calls: the loop reads the arguments and goes on from the
call. -/
theorem suffixes_call (ih : ExprsReadBack b) {callee : Expr} {args : List Expr}
    (good : Expr.ListWellFormed Leaves.lexical args) {t : Token} {f rest : List Token}
    (opening : t.kind = .lparen)
    (spelled : f.map Token.spelling = Expr.printedList args ++ [(.rparen, ")")]) {v : Expr}
    {after : List Token} (goesOn : GoesOnTo (suffixes (b + 1) (.call callee args) rest) v after) :
    GoesOnTo (suffixes (b + 1) callee (t :: (f ++ rest))) v after := by
  rw [suffixes, next?_of_kind _ opening (by decide)]
  refine ReadsBack.bind (ih.arguments args good f rest spelled) fun _ => ?_
  exact GoesOnTo.bind goesOn fun _ => .ok ⟨rfl, rfl⟩

/-- An index access after its object. -/
theorem suffixes_index (ih : ExprsReadBack b) {object key : Expr}
    (good : key.WellFormed Leaves.lexical) {t u : Token} {f rest : List Token}
    (opening : t.kind = .lbracket) (spelled : f.map Token.spelling = key.printed)
    (closing : u.kind = .rbracket) {v : Expr} {after : List Token}
    (goesOn : GoesOnTo (suffixes (b + 1) (.index object key) rest) v after) :
    GoesOnTo (suffixes (b + 1) object (t :: (f ++ u :: rest))) v after := by
  rw [suffixes, next?_of_ne _ (by rw [opening]; decide), next?_of_kind _ opening (by decide)]
  refine ReadsBack.bind (ih.expression key good f (u :: rest) (by rwa [Expr.printedAt_zero])
    (stops_of_continuesAt rest (by rw [closing]; rfl))) fun _ => ?_
  refine Yields.bind_ok (expect_of_kind closing (by decide)) ?_
  exact GoesOnTo.bind goesOn fun _ => .ok ⟨rfl, rfl⟩

/-- A field access after its object. -/
theorem suffixes_field {object : Expr} {name : String} {t u : Token} {rest : List Token}
    (dot : t.kind = .dot) (named : u.kind = .ident) (lexeme : u.lexeme = name) {v : Expr}
    {after : List Token} (goesOn : GoesOnTo (suffixes (b + 1) (.field object name) rest) v after) :
    GoesOnTo (suffixes (b + 1) object (t :: u :: rest)) v after := by
  rw [suffixes, next?_of_ne _ (by rw [dot]; decide), next?_of_ne _ (by rw [dot]; decide),
    next?_of_kind _ dot (by decide)]
  dsimp only
  split
  · exact .tooDeep
  refine Yields.bind_ok (name_of_ident named) ?_
  rw [lexeme]
  exact GoesOnTo.bind goesOn fun _ => .ok ⟨rfl, rfl⟩

/-- The postfix forms printed after their object, by induction on their tokens: the object's
own forms come first, and the loop goes on from the object. -/
theorem suffixed_chain (ih : ExprsReadBack b) :
    ∀ front, ∀ e, e.WellFormed Leaves.lexical → ∀ rest,
      front.map Token.spelling = e.printedAt 7 → ∀ v after,
        GoesOnTo (suffixes (b + 1) e rest) v after →
          ReadsBack (suffixed (b + 1) (front ++ rest)) v after := by
  refine forall_of_shorter fun front loop e good rest spelled v after goesOn => ?_
  by_cases seven : e.precedence = 7
  · rw [Expr.printedAt_of_le (by omega)] at spelled
    rcases Expr.suffixForm_of_precedence seven with
      ⟨object, name, rfl⟩ | ⟨object, key, rfl⟩ | ⟨callee, args, rfl⟩
    · obtain ⟨goodObject, named⟩ := good
      rw [Expr.printed_field] at spelled
      obtain ⟨f₁, f₂, rfl, spelled₁, spelled₂⟩ := List.map_eq_append_iff.mp spelled
      obtain ⟨t, more, rfl, dotSpelled, moreSpelled⟩ := List.map_eq_cons_iff.mp spelled₂
      obtain ⟨u, rfl, nameKind, lexeme⟩ := spelled_singleton moreSpelled
      rw [List.append_assoc, List.cons_append, List.singleton_append]
      exact loop f₁ (by simp) object goodObject (t :: u :: rest) spelled₁ v after
        (suffixes_field (congrArg Prod.fst dotSpelled) nameKind lexeme goesOn)
    · obtain ⟨goodObject, goodKey⟩ := good
      rw [Expr.printed_index, List.append_assoc, List.cons_append] at spelled
      obtain ⟨f₁, f₂, rfl, spelled₁, spelled₂⟩ := List.map_eq_append_iff.mp spelled
      obtain ⟨t, g, rfl, openSpelled, gSpelled⟩ := List.map_eq_cons_iff.mp spelled₂
      obtain ⟨g₁, g₂, rfl, keySpelled, closeSpelled⟩ := List.map_eq_append_iff.mp gSpelled
      obtain ⟨u, rfl, closeKind, -⟩ := spelled_singleton closeSpelled
      rw [List.append_assoc, List.cons_append, List.append_assoc, List.singleton_append]
      exact loop f₁ (by simp) object goodObject (t :: (g₁ ++ u :: rest)) spelled₁ v after
        (suffixes_index ih goodKey (congrArg Prod.fst openSpelled) keySpelled closeKind goesOn)
    · obtain ⟨goodCallee, goodArgs⟩ := good
      rw [Expr.printed_call, List.append_assoc, List.cons_append] at spelled
      obtain ⟨f₁, f₂, rfl, spelled₁, spelled₂⟩ := List.map_eq_append_iff.mp spelled
      obtain ⟨t, g, rfl, openSpelled, argsSpelled⟩ := List.map_eq_cons_iff.mp spelled₂
      rw [List.append_assoc, List.cons_append]
      exact loop f₁ (by simp) callee goodCallee (t :: (g ++ rest)) spelled₁ v after
        (suffixes_call ih goodArgs (congrArg Prod.fst openSpelled) argsSpelled goesOn)
  · -- a primary expression, read on its own
    rw [Expr.printedAt_succ seven] at spelled
    rw [suffixed]
    refine ReadsBack.bind (ih.primary e good front rest spelled) fun _ => ?_
    exact GoesOnTo.bind goesOn fun _ => .ok ⟨rfl, rfl⟩

/-- The postfix loop ends where no parenthesis, bracket or dot follows. -/
theorem suffixes_of_stops {e : Expr} {rest : List Token} (stops : Stops 7 rest) :
    suffixes (b + 1) e rest = .ok ⟨e, rest, le_refl _⟩ := by
  cases rest with
  | nil => rw [suffixes]; rfl
  | cons t more =>
    obtain ⟨paren, bracket, dot, -, -⟩ := stops.head
    rw [suffixes, next?_of_ne _ paren, next?_of_ne _ bracket, next?_of_ne _ dot]

theorem suffixed_readsBack (ih : ExprsReadBack b) : ReadsPrinted 7 (suffixed (b + 1)) := by
  intro e good front rest spelled stops
  refine suffixed_chain ih front e good rest spelled e rest ?_
  rw [GoesOnTo, suffixes_of_stops stops]
  exact .ok ⟨rfl, rfl⟩

/-- No printed expression starts with a minus, so a unary expression is read as a postfix
one. -/
theorem unary_readsBack (ih : ExprsReadBack b) : ReadsPrinted 7 (unary (b + 1)) := by
  intro e good front rest spelled stops
  rw [unary, next?_of_startsAs (Expr.startsAs_printedAt (Expr.printed_startsAs e) 7) spelled
    (by decide)]
  exact ih.suffixed e good front rest spelled stops

/-- The operand of a binary level, which the printer writes one place tighter: an operation
of the next level, or a unary expression at the tightest. -/
theorem operand_readsBack (ih : ExprsReadBack b) {level : Nat} (bounded : level ≤ 5) {e : Expr}
    (good : e.WellFormed Leaves.lexical) {front rest : List Token}
    (spelled : front.map Token.spelling = e.printedAt (level + 2))
    (stops : Stops (level + 2) rest) :
    ReadsBack (if level < tightestLevel then binary b (level + 1) (front ++ rest)
      else unary b (front ++ rest)) e rest := by
  split
  · rename_i tighter
    exact ih.binary (level + 1) (by simp only [tightestLevel] at tighter; omega) e good front
      rest spelled stops
  · rename_i notTighter
    obtain rfl := tightest_of_not_lt bounded notTighter
    exact ih.unary e good front rest spelled stops

/-- An operator and its right operand after the left one: the loop reads them and goes on from
the operation. -/
theorem binaryTail_step (ih : ExprsReadBack b) {left right : Expr} {op : BinaryOp}
    (good : right.WellFormed Leaves.lexical) {t : Token} {f rest : List Token}
    (opSpelled : t.spelling = op.token)
    (spelled : f.map Token.spelling = right.printedAt (op.level + 2))
    (stops : Stops (op.level + 2) rest) {v : Expr} {after : List Token}
    (goesOn : GoesOnTo (binaryTail (b + 1) op.level (.binary left op right) rest) v after) :
    GoesOnTo (binaryTail (b + 1) op.level left (t :: (f ++ rest))) v after := by
  have operand := operand_readsBack ih op.level_le good spelled stops
  rw [binaryTail, operator?_of_token opSpelled]
  by_cases tighter : op.level < tightestLevel <;> simp only [tighter, ↓reduceIte] at operand ⊢
  all_goals
    refine ReadsBack.bind operand fun _ => ?_
    exact GoesOnTo.bind goesOn fun _ => .ok ⟨rfl, rfl⟩

/-- The operations of a level printed after their left operand, by induction on their tokens:
an operation of the level is printed after its own left operand, and the loop goes on from it
with the operator and the right operand. -/
theorem binary_chain (ih : ExprsReadBack b) (level : Nat) (bounded : level ≤ 5) :
    ∀ front, ∀ e, e.WellFormed Leaves.lexical → ∀ rest,
      front.map Token.spelling = e.printedAt (level + 1) → Stops (level + 2) rest → ∀ v after,
        GoesOnTo (binaryTail (b + 1) level e rest) v after →
          ReadsBack (binary (b + 1) level (front ++ rest)) v after := by
  refine forall_of_shorter fun front loop e good rest spelled stops v after goesOn => ?_
  by_cases own : e.precedence = level + 1
  · obtain ⟨left, op, right, rfl, rfl⟩ := Expr.eq_binary_of_precedence bounded own
    obtain ⟨goodLeft, goodRight⟩ := good
    rw [Expr.printedAt_of_le (le_of_eq own.symm), Expr.printed_binary] at spelled
    obtain ⟨f₁, more, rfl, spelled₁, moreSpelled⟩ := List.map_eq_append_iff.mp spelled
    obtain ⟨t, f₂, rfl, opSpelled, spelled₂⟩ := List.map_eq_cons_iff.mp moreSpelled
    rw [List.append_assoc, List.cons_append]
    have opKind : t.kind = op.token.1 := congrArg Prod.fst opSpelled
    have opStops : Stops (op.level + 2) (t :: (f₂ ++ rest)) :=
      stops_of_continuesAt _ (by rw [opKind]; exact op.token_continuesAt)
    exact loop f₁ (by simp) left goodLeft (t :: (f₂ ++ rest)) spelled₁ opStops v after
      (binaryTail_step ih goodRight opSpelled spelled₂ stops goesOn)
  · -- the first operand is the whole expression, read one place tighter
    rw [Expr.printedAt_succ own] at spelled
    have operand := operand_readsBack ih bounded good spelled stops
    rw [binary]
    by_cases tighter : level < tightestLevel <;> simp only [tighter, ↓reduceIte] at operand ⊢
    all_goals
      refine ReadsBack.bind operand fun _ => ?_
      exact GoesOnTo.bind goesOn fun _ => .ok ⟨rfl, rfl⟩

theorem binary_readsBack (ih : ExprsReadBack b) (level : Nat) (bounded : level ≤ 5) :
    ReadsPrinted (level + 1) (binary (b + 1) level) := by
  intro e good front rest spelled stops
  refine binary_chain ih level bounded front e good rest spelled (stops.mono (by omega)) e rest ?_
  rw [GoesOnTo, binaryTail, operator?_of_stops bounded stops]
  exact .ok ⟨rfl, rfl⟩

/-- An assignment is read as its target, at the loosest binary level, and then the value; any
other expression binds at least as tightly as that level and is followed by no `=`. -/
theorem assignment_readsBack (ih : ExprsReadBack b) : ReadsPrinted 0 (assignment (b + 1)) := by
  intro e good front rest spelled stops
  rw [Expr.printedAt_zero] at spelled
  rw [assignment]
  by_cases isAssignment : ∃ target value, e = .assign target value
  · obtain ⟨target, value, rfl⟩ := isAssignment
    obtain ⟨isTarget, goodTarget, goodValue⟩ := good
    rw [Expr.printed_assign] at spelled
    obtain ⟨f₁, more, rfl, spelled₁, moreSpelled⟩ := List.map_eq_append_iff.mp spelled
    obtain ⟨t, f₂, rfl, equalSpelled, spelled₂⟩ := List.map_eq_cons_iff.mp moreSpelled
    have equalKind : t.kind = .equal := congrArg Prod.fst equalSpelled
    rw [List.append_assoc, List.cons_append]
    refine ReadsBack.bind (ih.binary 0 (by omega) target goodTarget f₁ (t :: (f₂ ++ rest)) spelled₁
      (stops_of_continuesAt _ (by rw [equalKind]; rfl))) fun _ => ?_
    rw [next?_of_kind _ equalKind (by decide)]
    refine ReadsBack.bind (ih.assignment value goodValue f₂ rest (by rwa [Expr.printedAt_zero])
      stops) fun _ => ?_
    rw [if_pos isTarget]
    exact .ok ⟨rfl, rfl⟩
  · have fits : 1 ≤ e.precedence := by
      cases e <;> simp [Expr.precedence] at isAssignment ⊢
    refine ReadsBack.bind (ih.binary 0 (by omega) e good front rest
      (by rwa [Expr.printedAt_of_le fits]) (stops.mono (by omega))) fun _ => ?_
    rw [next?_equal_of_stops stops]
    exact .ok ⟨rfl, rfl⟩

theorem expression_readsBack (ih : ExprsReadBack b) : ReadsPrinted 0 (expression (b + 1)) := by
  intro e good front rest spelled stops
  rw [expression]
  exact ih.assignment e good front rest spelled stops

/-- With no budget left, every production runs out. -/
theorem exprsReadBack_zero : ExprsReadBack 0 where
  expression _ _ _ _ _ _ := by rw [expression]; exact .tooDeep
  assignment _ _ _ _ _ _ := by rw [assignment]; exact .tooDeep
  binary _ _ _ _ _ _ _ _ := by rw [binary]; exact .tooDeep
  unary _ _ _ _ _ _ := by rw [unary]; exact .tooDeep
  suffixed _ _ _ _ _ _ := by rw [suffixed]; exact .tooDeep
  primary _ _ _ _ _ := by rw [primary]; exact .tooDeep
  arguments _ _ _ _ _ := by rw [arguments]; exact .tooDeep

theorem exprsReadBack_succ (ih : ExprsReadBack b) : ExprsReadBack (b + 1) where
  expression := expression_readsBack ih
  assignment := assignment_readsBack ih
  binary := binary_readsBack ih
  unary := unary_readsBack ih
  suffixed := suffixed_readsBack ih
  primary := primary_readsBack ih
  arguments := arguments_readsBack ih

end Expressions

/-- Every expression production, at every budget, reads back what the printer writes. -/
theorem exprsReadBack : ∀ b, ExprsReadBack b
  | 0 => exprsReadBack_zero
  | b + 1 => exprsReadBack_succ (exprsReadBack b)

end Parser

end VieCompiler
