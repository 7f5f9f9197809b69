import VieCompiler.Compile
import VieCompiler.Proofs.Confinement
import Mathlib

/-!
# Sixteen calls a token are enough

Every production of the parser hands the productions it calls one unit less of its depth
budget, and one called with none left fails with `ParseFailure.tooDeep`. Between two tokens
that it consumes, the parser makes fewer than sixteen nested calls: each production either
consumes a token before it calls another, or calls one lower in the grammar, from a
declaration through the statement, the expression, the assignment, the six binary levels and
the unary and postfix expressions down to a primary expression, which consumes a token. The
loops of the grammar keep their production's budget and go on with fewer tokens.

So a budget of sixteen calls for every token, and sixteen more, is never exhausted
(`Parser.parse_settled`): parsing ends with a program, a syntax error, or a number token of the
list whose text `float` refuses (`Parser.parse_settles_of_budget`). The measure is the
budget that a production needs on the tokens `ts`: sixteen for each token, and the
production's height above a primary expression (`Parser.ExprsSettle`, `Parser.StmtsSettle`).
As in the other invariants of the parser, the one with budget `b` gives the one with `b + 1`,
production by production, and the loops go by induction on the tokens left.

The budget of a request is fixed, so a program nested deeply enough does exhaust it. A pair
of parentheses around an expression costs eleven calls (`Parser.expression_grouped_tooDeep`),
and a number in 3000 pairs of them is too deep to compile (`deeply_grouped_number_tooDeep`).
-/

namespace VieCompiler

namespace Parser

/-- A run that did not run out of budget: it read something, or stopped at a syntax error. -/
def Settled {α : Type} (x : Except ParseFailure α) : Prop :=
  x ≠ .error .tooDeep

/-- The production `f` does not run out of the budget `b` on any tokens for which `b` has
room for sixteen calls a token and `height` more. -/
def Settles {β : List Token → Type} (b height : Nat)
    (f : (tokens : List Token) → Except ParseFailure (β tokens)) : Prop :=
  ∀ ts, 16 * ts.length + height ≤ b → Settled (f ts)

section Settled

variable {α β : Type}

theorem settled_pure (a : α) : Settled (pure a : Except ParseFailure α) := nofun

theorem settled_syntaxError (error : ParseError) :
    Settled (.error (.error error) : Except ParseFailure α) := nofun

theorem settled_notANumber (t : Token) :
    Settled (.error (.notANumber t) : Except ParseFailure α) := nofun

theorem Settled.bind {x : Except ParseFailure α} {f : α → Except ParseFailure β}
    (first : Settled x) (rest : ∀ a, Settled (f a)) : Settled (x >>= f) := by
  cases x with
  | error failure =>
    have passed : (Except.error failure >>= f : Except ParseFailure β) = .error failure := rfl
    rw [passed]
    intro deep
    cases deep
    exact first rfl
  | ok a => exact rest a

theorem settled_fail (problem : Problem) (ts : List Token) :
    Settled (fail problem ts : Except ParseFailure α) :=
  settled_syntaxError _

theorem settled_expect (kind : Token.Kind) (problem : Problem) (ts : List Token) :
    Settled (expect kind problem ts) := by
  unfold expect
  cases next? kind ts with
  | some rest => exact settled_pure _
  | none => exact settled_fail problem ts

theorem settled_name (problem : Problem) (ts : List Token) : Settled (name problem ts) := by
  cases ts with
  | nil => exact settled_fail problem []
  | cons t rest =>
    by_cases isName : t.kind = .ident
    · rw [name, if_pos isName]
      exact settled_pure _
    · rw [name, if_neg isName]
      exact settled_fail problem _

end Settled

/-- The loops of the grammar go on with fewer tokens, so what they do not do goes by induction
on the tokens left. -/
theorem forall_of_shorter {P : List Token → Prop}
    (step : ∀ ts, (∀ shorter : List Token, shorter.length < ts.length → P shorter) → P ts) :
    ∀ ts, P ts := by
  intro ts
  induction count : ts.length using Nat.strongRecOn generalizing ts with
  | ind n ih => exact step ts fun shorter fewer => ih _ (count ▸ fewer) shorter rfl

/-- The invariant of the expression productions with budget `b`: each settles on the tokens
that leave room for its height, which is one for a primary expression and otherwise one more
than the heights of the productions it calls on the same tokens. -/
structure ExprsSettle (b : Nat) : Prop where
  expression : Settles b 11 (expression b)
  assignment : Settles b 10 (assignment b)
  binary : ∀ level, Settles b (4 + (5 - level)) (binary b level)
  binaryTail : ∀ level left, Settles b (4 + (5 - level)) (binaryTail b level left)
  unary : Settles b 3 (unary b)
  suffixed : Settles b 2 (suffixed b)
  suffixes : ∀ target, Settles b 2 (suffixes b target)
  arguments : Settles b 12 (arguments b)
  listTail : ∀ close problem, Settles b 12 (listTail b close problem)
  primary : Settles b 1 (primary b)

section Expressions

variable {b : Nat}

theorem expression_settles (ih : ExprsSettle b) : Settles (b + 1) 11 (expression (b + 1)) := by
  intro ts enough
  rw [expression]
  exact ih.assignment ts (by omega)

theorem assignment_settles (ih : ExprsSettle b) : Settles (b + 1) 10 (assignment (b + 1)) := by
  intro ts enough
  rw [assignment]
  refine (ih.binary 0 ts (by omega)).bind fun left => ?_
  have := left.shorter
  cases next? .equal left.rest with
  | some next =>
    obtain ⟨afterEquals, shorter⟩ := next
    refine (ih.assignment afterEquals (by omega)).bind fun value => ?_
    by_cases isTarget : left.value.isTarget = true
    · rw [if_pos isTarget]
      exact settled_pure _
    · rw [if_neg isTarget]
      exact settled_syntaxError _
  | none => exact settled_pure left

/-- An operand of the binary level `level`: of the next level, or unary at the tightest. -/
theorem operand_settles (ih : ExprsSettle b) (level : Nat) (ts : List Token)
    (enough : 16 * ts.length + 3 + (5 - level) ≤ b) :
    Settled (if level < tightestLevel then binary b (level + 1) ts else unary b ts) := by
  by_cases tighter : level < tightestLevel
  · rw [if_pos tighter]
    exact ih.binary (level + 1) ts (by simp only [tightestLevel] at tighter; omega)
  · rw [if_neg tighter]
    exact ih.unary ts (by omega)

/-- The operators and operands after the first operand of a binary level, by induction on the
tokens left. -/
theorem binaryTail_settles (ih : ExprsSettle b) (level : Nat) (left : Expr) :
    Settles (b + 1) (4 + (5 - level)) (binaryTail (b + 1) level left) := by
  suffices ∀ ts left, 16 * ts.length + (4 + (5 - level)) ≤ b + 1 →
      Settled (binaryTail (b + 1) level left ts) from fun ts => this ts left
  refine forall_of_shorter fun ts loop left enough => ?_
  rw [binaryTail]
  cases operator? level ts with
  | some next =>
    obtain ⟨op, tail, shorter⟩ := next
    have operand := operand_settles ih level tail (by omega)
    by_cases tighter : level < tightestLevel <;> simp only [tighter, ↓reduceIte] at operand ⊢
    all_goals
      refine operand.bind fun right => ?_
      have := right.shorter
      exact (loop right.rest (by omega) _ (by omega)).bind fun _ => settled_pure _
  | none => exact settled_pure _

theorem binary_settles (ih : ExprsSettle b) (level : Nat) :
    Settles (b + 1) (4 + (5 - level)) (binary (b + 1) level) := by
  intro ts enough
  rw [binary]
  have operand := operand_settles ih level ts (by omega)
  by_cases tighter : level < tightestLevel <;> simp only [tighter, ↓reduceIte] at operand ⊢
  all_goals
    refine operand.bind fun first => ?_
    have := first.shorter
    exact (binaryTail_settles ih level _ first.rest (by omega)).bind fun _ => settled_pure _

theorem unary_settles (ih : ExprsSettle b) : Settles (b + 1) 3 (unary (b + 1)) := by
  intro ts enough
  rw [unary]
  cases next? .minus ts with
  | some next =>
    obtain ⟨tail, shorter⟩ := next
    exact (ih.unary tail (by omega)).bind fun _ => settled_pure _
  | none => exact ih.suffixed ts (by omega)

/-- Calls, index accesses and field accesses after an expression, by induction on the tokens
left. -/
theorem suffixes_settles (ih : ExprsSettle b) (target : Expr) :
    Settles (b + 1) 2 (suffixes (b + 1) target) := by
  suffices ∀ ts target, 16 * ts.length + 2 ≤ b + 1 → Settled (suffixes (b + 1) target ts) from
    fun ts => this ts target
  refine forall_of_shorter fun ts loop target enough => ?_
  rw [suffixes]
  cases next? .lparen ts
  case some next =>
    obtain ⟨tail, shorter⟩ := next
    refine (ih.arguments tail (by omega)).bind fun args => ?_
    have := args.shorter
    exact (loop args.rest (by omega) _ (by omega)).bind fun _ => settled_pure _
  cases next? .lbracket ts
  case some next =>
    obtain ⟨tail, shorter⟩ := next
    refine (ih.expression tail (by omega)).bind fun key => ?_
    refine (settled_expect .rbracket .indexClose key.rest).bind ?_
    rintro ⟨afterClose, closed⟩
    have := key.shorter
    exact (loop afterClose (by omega) _ (by omega)).bind fun _ => settled_pure _
  cases next? .dot ts
  case some next =>
    obtain ⟨tail, shorter⟩ := next
    dsimp only
    rw [if_neg (by omega)]
    refine (settled_name .identifier tail).bind fun field => ?_
    have := field.shorter
    exact (loop field.rest (by omega) _ (by omega)).bind fun _ => settled_pure _
  exact settled_pure _

theorem suffixed_settles (ih : ExprsSettle b) : Settles (b + 1) 2 (suffixed (b + 1)) := by
  intro ts enough
  rw [suffixed]
  refine (ih.primary ts (by omega)).bind fun head => ?_
  have := head.shorter
  exact (suffixes_settles ih _ head.rest (by omega)).bind fun _ => settled_pure _

/-- The items of a list after a comma each, and its closing token, by induction on the tokens
left. -/
theorem listTail_settles (ih : ExprsSettle b) (close : Token.Kind) (problem : Problem) :
    Settles (b + 1) 12 (listTail (b + 1) close problem) := by
  refine forall_of_shorter fun ts loop enough => ?_
  rw [listTail]
  cases next? .comma ts with
  | some next =>
    obtain ⟨tail, shorter⟩ := next
    refine (ih.expression tail (by omega)).bind fun item => ?_
    have := item.shorter
    exact (loop item.rest (by omega) (by omega)).bind fun _ => settled_pure _
  | none => exact (settled_expect close problem ts).bind fun _ => settled_pure _

theorem arguments_settles (ih : ExprsSettle b) : Settles (b + 1) 12 (arguments (b + 1)) := by
  intro ts enough
  rw [arguments]
  cases next? .rparen ts with
  | some closed => exact settled_pure _
  | none =>
    refine (ih.expression ts (by omega)).bind fun first => ?_
    have := first.shorter
    exact (listTail_settles ih .rparen .argumentsClose first.rest (by omega)).bind
      fun _ => settled_pure _

theorem primary_settles (ih : ExprsSettle b) : Settles (b + 1) 1 (primary (b + 1)) := by
  intro ts enough
  cases ts with
  | nil =>
    rw [primary]
    exact settled_fail .expression []
  | cons t rest =>
    simp only [List.length_cons] at enough
    rw [primary]
    dsimp only
    generalize t.kind = kind
    -- the array, the construction and the group read on; every other token is read or refused
    cases kind
    case number =>
      dsimp only
      cases Binary64.ofText? t.lexeme with
      | some value => exact settled_pure _
      | none => exact settled_notANumber t
    case lbracket =>
      dsimp only
      cases next? .rbracket rest with
      | some closed => exact settled_pure _
      | none =>
        refine (ih.expression rest (by omega)).bind fun first => ?_
        have := first.shorter
        exact (listTail_settles ih .rbracket .arrayClose first.rest (by omega)).bind
          fun _ => settled_pure _
    case lparen =>
      dsimp only
      refine (ih.expression rest (by omega)).bind fun inner => ?_
      exact (settled_expect .rparen .groupClose inner.rest).bind fun _ => settled_pure _
    case keyword word =>
      cases word
      case moi =>
        dsimp only
        rw [if_neg (by omega)]
        refine (settled_name .identifier rest).bind fun className => ?_
        refine (settled_expect .lparen .constructorOpen className.rest).bind ?_
        rintro ⟨afterOpen, opened⟩
        have := className.shorter
        exact (ih.arguments afterOpen (by omega)).bind fun _ => settled_pure _
      all_goals first
        | exact settled_pure _
        | exact settled_fail .expression _
    all_goals first
      | exact settled_pure _
      | exact settled_fail .expression _

end Expressions

/-- With no budget, no expression production has room for anything. -/
theorem exprsSettle_zero : ExprsSettle 0 where
  expression _ enough := by omega
  assignment _ enough := by omega
  binary _ _ enough := by omega
  binaryTail _ _ _ enough := by omega
  unary _ enough := by omega
  suffixed _ enough := by omega
  suffixes _ _ enough := by omega
  arguments _ enough := by omega
  listTail _ _ _ enough := by omega
  primary _ enough := by omega

theorem exprsSettle_succ {b : Nat} (ih : ExprsSettle b) : ExprsSettle (b + 1) where
  expression := expression_settles ih
  assignment := assignment_settles ih
  binary := binary_settles ih
  binaryTail := binaryTail_settles ih
  unary := unary_settles ih
  suffixed := suffixed_settles ih
  suffixes := suffixes_settles ih
  arguments := arguments_settles ih
  listTail := listTail_settles ih
  primary := primary_settles ih

/-- Every expression production settles on the tokens its budget has room for. -/
theorem exprsSettle : ∀ b, ExprsSettle b
  | 0 => exprsSettle_zero
  | b + 1 => exprsSettle_succ (exprsSettle b)

theorem variableDecl_settles : ∀ b, Settles b 14 (variableDecl b)
  | 0 => fun _ enough => by omega
  | b + 1 => by
    intro ts enough
    rw [variableDecl]
    refine (settled_name .variableName ts).bind fun n => ?_
    refine (settled_expect .equal .declarationEquals n.rest).bind ?_
    rintro ⟨afterEquals, signed⟩
    have := n.shorter
    exact ((exprsSettle b).expression afterEquals (by omega)).bind fun _ => settled_pure _

/-- The parameters of a routine are names, which need no budget. -/
theorem settled_moreParameters : ∀ ts, Settled (moreParameters ts) := by
  refine forall_of_shorter fun ts loop => ?_
  rw [moreParameters]
  cases next? .comma ts with
  | some next =>
    obtain ⟨tail, shorter⟩ := next
    refine (settled_name .identifier tail).bind fun first => ?_
    have := first.shorter
    exact (loop first.rest (by omega)).bind fun _ => settled_pure _
  | none => exact (settled_expect .rparen .parametersClose ts).bind fun _ => settled_pure _

/-- A routine's first parameter is read one unit further down, so its parameters need a unit
of budget to spare. -/
theorem settled_parameters {budget : Nat} (spare : budget ≠ 0) (ts : List Token) :
    Settled (parameters budget ts) := by
  rw [parameters]
  cases next? .rparen ts with
  | some closed => exact settled_pure _
  | none =>
    rw [if_neg spare]
    exact (settled_name .identifier ts).bind fun first =>
      (settled_moreParameters first.rest).bind fun _ => settled_pure _

/-- The invariant of the statement productions with budget `b`. -/
structure StmtsSettle (b : Nat) : Prop where
  declaration : Settles b 13 (declaration b)
  routine : ∀ kind, Settles b 14 (routine b kind)
  classDecl : Settles b 14 (classDecl b)
  classBody : Settles b 14 (classBody b)
  statement : Settles b 12 (statement b)
  blockRest : Settles b 14 (blockRest b)
  ifRest : Settles b 14 (ifRest b)
  whileRest : Settles b 14 (whileRest b)
  forEachRest : Settles b 14 (forEachRest b)

section Statements

variable {b : Nat}

theorem statement_settles (ih : StmtsSettle b) : Settles (b + 1) 12 (statement (b + 1)) := by
  intro ts enough
  rw [statement]
  -- the first of `nếu`, `khi`, `với_mỗi`, `{` and `trả_về` that the tokens start with
  cases next? (.keyword .neu) ts
  case some next =>
    obtain ⟨tail, shorter⟩ := next
    exact (ih.ifRest tail (by omega)).bind fun _ => settled_pure _
  cases next? (.keyword .khi) ts
  case some next =>
    obtain ⟨tail, shorter⟩ := next
    exact (ih.whileRest tail (by omega)).bind fun _ => settled_pure _
  cases next? (.keyword .voiMoi) ts
  case some next =>
    obtain ⟨tail, shorter⟩ := next
    exact (ih.forEachRest tail (by omega)).bind fun _ => settled_pure _
  cases next? .lbrace ts
  case some next =>
    obtain ⟨tail, shorter⟩ := next
    exact (ih.blockRest tail (by omega)).bind fun _ => settled_pure _
  cases next? (.keyword .traVe) ts
  case some next =>
    -- a return, with a value unless a closing brace or the end follows
    obtain ⟨tail, shorter⟩ := next
    dsimp only
    cases atCloseOrEnd .rbrace tail with
    | true => exact settled_pure _
    | false =>
      cases b with
      | zero => omega
      | succ b =>
        exact ((exprsSettle b).expression tail (by omega)).bind fun _ => settled_pure _
  exact ((exprsSettle b).expression ts (by omega)).bind fun _ => settled_pure _

/-- A conditional: after its consequent, an alternative after `ngược_lại`, `ngược_lại nếu` or
`còn_nếu`, or none. -/
theorem ifRest_settles (ih : StmtsSettle b) : Settles (b + 1) 14 (ifRest (b + 1)) := by
  intro ts enough
  rw [ifRest]
  refine (settled_expect .lparen .ifOpen ts).bind ?_
  rintro ⟨afterOpen, opened⟩
  refine ((exprsSettle b).expression afterOpen (by omega)).bind fun test => ?_
  refine (settled_expect .rparen .conditionClose test.rest).bind ?_
  rintro ⟨afterClose, closed⟩
  have := test.shorter
  refine (ih.statement afterClose (by omega)).bind fun consequent => ?_
  have := consequent.shorter
  dsimp only
  cases next? (.keyword .nguocLai) consequent.rest with
  | some next =>
    obtain ⟨afterElse, shorter⟩ := next
    dsimp only
    cases next? (.keyword .neu) afterElse with
    | some next =>
      obtain ⟨afterIf, shorter'⟩ := next
      exact (ih.ifRest afterIf (by omega)).bind fun _ => settled_pure _
    | none => exact (ih.statement afterElse (by omega)).bind fun _ => settled_pure _
  | none =>
    cases next? (.keyword .conNeu) consequent.rest with
    | some next =>
      obtain ⟨afterIf, shorter⟩ := next
      exact (ih.ifRest afterIf (by omega)).bind fun _ => settled_pure _
    | none => exact settled_pure _

theorem whileRest_settles (ih : StmtsSettle b) : Settles (b + 1) 14 (whileRest (b + 1)) := by
  intro ts enough
  rw [whileRest]
  refine (settled_expect .lparen .whileOpen ts).bind ?_
  rintro ⟨afterOpen, opened⟩
  refine ((exprsSettle b).expression afterOpen (by omega)).bind fun test => ?_
  refine (settled_expect .rparen .conditionClose test.rest).bind ?_
  rintro ⟨afterClose, closed⟩
  have := test.shorter
  exact (ih.statement afterClose (by omega)).bind fun _ => settled_pure _

theorem forEachRest_settles (ih : StmtsSettle b) : Settles (b + 1) 14 (forEachRest (b + 1)) := by
  intro ts enough
  rw [forEachRest]
  refine (settled_expect .lparen .forEachOpen ts).bind ?_
  rintro ⟨afterOpen, opened⟩
  have nonzero : b ≠ 0 := by omega
  simp only [nonzero, ↓reduceIte]
  refine (settled_name .identifier afterOpen).bind fun element => ?_
  refine (settled_expect (.keyword .trong) .loopIn element.rest).bind ?_
  rintro ⟨afterIn, read⟩
  have := element.shorter
  refine ((exprsSettle b).expression afterIn (by omega)).bind fun collection => ?_
  refine (settled_expect .rparen .loopHeaderClose collection.rest).bind ?_
  rintro ⟨afterClose, closed⟩
  have := collection.shorter
  exact (ih.statement afterClose (by omega)).bind fun _ => settled_pure _

/-- The statements of a block, by induction on the tokens left. -/
theorem blockRest_settles (ih : StmtsSettle b) : Settles (b + 1) 14 (blockRest (b + 1)) := by
  refine forall_of_shorter fun ts loop enough => ?_
  rw [blockRest]
  cases atCloseOrEnd .rbrace ts with
  | true => exact (settled_expect .rbrace .blockClose ts).bind fun _ => settled_pure _
  | false =>
    refine (ih.declaration ts (by omega)).bind fun first => ?_
    have := first.shorter
    exact (loop first.rest (by omega) (by omega)).bind fun _ => settled_pure _

theorem routine_settles (ih : StmtsSettle b) (kind : RoutineKind) :
    Settles (b + 1) 14 (routine (b + 1) kind) := by
  intro ts enough
  have nonzero : b ≠ 0 := by omega
  rw [routine]
  refine (settled_name (.routineName kind) ts).bind fun n => ?_
  refine (settled_expect .lparen (.routineOpen kind) n.rest).bind ?_
  rintro ⟨afterOpen, opened⟩
  refine (settled_parameters nonzero afterOpen).bind fun params => ?_
  refine (settled_expect .lbrace (.bodyOpen kind) params.rest).bind ?_
  rintro ⟨afterBrace, braced⟩
  have := n.shorter
  have := params.shorter
  exact (ih.blockRest afterBrace (by omega)).bind fun _ => settled_pure _

/-- The methods of a class body, by induction on the tokens left. -/
theorem classBody_settles (ih : StmtsSettle b) : Settles (b + 1) 14 (classBody (b + 1)) := by
  refine forall_of_shorter fun ts loop enough => ?_
  rw [classBody]
  cases atCloseOrEnd .rbrace ts
  case true => exact (settled_expect .rbrace .classClose ts).bind fun _ => settled_pure _
  cases next? (.keyword .ham) ts with
  | some next =>
    obtain ⟨tail, shorter⟩ := next
    refine (ih.routine .method tail (by omega)).bind fun method => ?_
    have := method.shorter
    exact (loop method.rest (by omega) (by omega)).bind fun _ => settled_pure _
  | none => exact settled_fail .methodsOnly ts

theorem classDecl_settles (ih : StmtsSettle b) : Settles (b + 1) 14 (classDecl (b + 1)) := by
  intro ts enough
  have nonzero : b ≠ 0 := by omega
  rw [classDecl]
  simp only [nonzero, ↓reduceIte]
  refine (settled_name .identifier ts).bind fun n => ?_
  refine (settled_expect .lbrace .classOpen n.rest).bind ?_
  rintro ⟨afterBrace, braced⟩
  have := n.shorter
  exact (classBody_settles ih afterBrace (by omega)).bind fun _ => settled_pure _

theorem declaration_settles (ih : StmtsSettle b) : Settles (b + 1) 13 (declaration (b + 1)) := by
  intro ts enough
  rw [declaration]
  -- the first of `cho`, `hàm` and `lớp` that the tokens start with, or a statement
  cases next? (.keyword .cho) ts
  case some next =>
    obtain ⟨tail, shorter⟩ := next
    exact (variableDecl_settles b tail (by omega)).bind fun _ => settled_pure _
  cases next? (.keyword .ham) ts
  case some next =>
    obtain ⟨tail, shorter⟩ := next
    exact (ih.routine .function tail (by omega)).bind fun _ => settled_pure _
  cases next? (.keyword .lop) ts
  case some next =>
    obtain ⟨tail, shorter⟩ := next
    exact (ih.classDecl tail (by omega)).bind fun _ => settled_pure _
  exact ih.statement ts (by omega)

end Statements

/-- With no budget, no statement production has room for anything. -/
theorem stmtsSettle_zero : StmtsSettle 0 where
  declaration _ enough := by omega
  routine _ _ enough := by omega
  classDecl _ enough := by omega
  classBody _ enough := by omega
  statement _ enough := by omega
  blockRest _ enough := by omega
  ifRest _ enough := by omega
  whileRest _ enough := by omega
  forEachRest _ enough := by omega

theorem stmtsSettle_succ {b : Nat} (ih : StmtsSettle b) : StmtsSettle (b + 1) where
  declaration := declaration_settles ih
  routine := routine_settles ih
  classDecl := classDecl_settles ih
  classBody := classBody_settles ih
  statement := statement_settles ih
  blockRest := blockRest_settles ih
  ifRest := ifRest_settles ih
  whileRest := whileRest_settles ih
  forEachRest := forEachRest_settles ih

/-- Every statement production settles on the tokens its budget has room for. -/
theorem stmtsSettle : ∀ b, StmtsSettle b
  | 0 => stmtsSettle_zero
  | b + 1 => stmtsSettle_succ (stmtsSettle b)

/-- The declarations up to the end of the input, each with the whole budget, by induction on
the tokens left. -/
theorem topLevel_settles (budget : Nat) :
    ∀ ts : List Token, 16 * ts.length + 13 ≤ budget → Settled (topLevel budget ts) := by
  refine forall_of_shorter fun ts loop enough => ?_
  rw [topLevel]
  cases atEnd ts with
  | true => exact settled_pure _
  | false =>
    refine ((stmtsSettle budget).declaration ts enough).bind fun first => ?_
    have := first.shorter
    exact (loop first.rest (by omega) (by omega)).bind fun _ => settled_pure _

/-- Parsing does not run out of a budget of sixteen nested calls for every token and sixteen
more. -/
theorem parse_settled {budget : Nat} {tokens : List Token}
    (enough : 16 * (tokens.length + 1) ≤ budget) : Settled (parse budget tokens) := by
  have settled := topLevel_settles budget tokens (by omega)
  unfold parse
  cases parsed : topLevel budget tokens with
  | ok body => exact settled_pure _
  | error failure =>
    rw [parsed] at settled
    intro deep
    injection deep with same
    exact settled (by rw [same])

/-- Parsing a list that ends at the end of input, with a budget of sixteen nested calls for
every token and sixteen more, ends with a program, with a syntax error, or at a number token of
the list whose text `float` refuses. -/
theorem parse_settles_of_budget {budget : Nat} {tokens : List Token} (ends : EndsAtEof tokens)
    (enough : 16 * (tokens.length + 1) ≤ budget) :
    (∃ program, parse budget tokens = .ok program) ∨
      (∃ error, parse budget tokens = .error (.error error)) ∨
      ∃ t ∈ tokens, t.kind = .number ∧ Binary64.ofText? t.lexeme = none ∧
        parse budget tokens = .error (.notANumber t) := by
  have settled := parse_settled enough
  cases parsed : parse budget tokens with
  | ok program => exact .inl ⟨program, rfl⟩
  | error failure =>
    rw [parsed] at settled
    cases failure with
    | error error => exact .inr (.inl ⟨error, rfl⟩)
    | tooDeep => exact absurd rfl settled
    | notANumber t =>
      obtain ⟨mem, isNumber, unread⟩ := parse_notANumber_token ends parsed
      exact .inr (.inr ⟨t, mem, isNumber, unread, rfl⟩)

/-- A declaration of five tokens whose number reads as no number is parsed with ninety-six
calls, and ends at that number. -/
theorem unreadable_declaration_settles :
    EndsAtEof [⟨.keyword .cho, "cho", 1⟩, ⟨.ident, "a", 1⟩, ⟨.equal, "=", 1⟩, ⟨.number, "x", 1⟩,
        ⟨.eof, "", 1⟩] ∧
      16 * (([⟨.keyword .cho, "cho", 1⟩, ⟨.ident, "a", 1⟩, ⟨.equal, "=", 1⟩, ⟨.number, "x", 1⟩,
        ⟨.eof, "", 1⟩] : List Token).length + 1) ≤ 96 ∧
      ((∃ program, parse 96 [⟨.keyword .cho, "cho", 1⟩, ⟨.ident, "a", 1⟩, ⟨.equal, "=", 1⟩,
          ⟨.number, "x", 1⟩, ⟨.eof, "", 1⟩] = .ok program) ∨
        (∃ error, parse 96 [⟨.keyword .cho, "cho", 1⟩, ⟨.ident, "a", 1⟩, ⟨.equal, "=", 1⟩,
          ⟨.number, "x", 1⟩, ⟨.eof, "", 1⟩] = .error (.error error)) ∨
        ∃ t ∈ ([⟨.keyword .cho, "cho", 1⟩, ⟨.ident, "a", 1⟩, ⟨.equal, "=", 1⟩,
            ⟨.number, "x", 1⟩, ⟨.eof, "", 1⟩] : List Token),
          t.kind = .number ∧ Binary64.ofText? t.lexeme = none ∧
          parse 96 [⟨.keyword .cho, "cho", 1⟩, ⟨.ident, "a", 1⟩, ⟨.equal, "=", 1⟩,
            ⟨.number, "x", 1⟩, ⟨.eof, "", 1⟩] = .error (.notANumber t)) :=
  have ends : EndsAtEof [⟨.keyword .cho, "cho", 1⟩, ⟨.ident, "a", 1⟩, ⟨.equal, "=", 1⟩,
      ⟨.number, "x", 1⟩, ⟨.eof, "", 1⟩] :=
    ⟨[⟨.keyword .cho, "cho", 1⟩, ⟨.ident, "a", 1⟩, ⟨.equal, "=", 1⟩, ⟨.number, "x", 1⟩],
      ⟨.eof, "", 1⟩, rfl, rfl⟩
  ⟨ends, by decide, parse_settles_of_budget ends (by decide)⟩

section RunningOut

/-! The other way round: a production whose budget is below its height runs out before it
reads a token, and so does one whose first call runs out. -/

variable {ts : List Token}

theorem bind_tooDeep {α β : Type} {x : Except ParseFailure α} {f : α → Except ParseFailure β}
    (deep : x = .error .tooDeep) : x >>= f = .error .tooDeep := by
  subst deep
  rfl

theorem suffixed_tooDeep_of_primary {b : Nat} (deep : primary b ts = .error .tooDeep) :
    suffixed (b + 1) ts = .error .tooDeep := by
  rw [suffixed]
  exact bind_tooDeep deep

theorem unary_tooDeep_of_suffixed {b : Nat} (notMinus : next? .minus ts = none)
    (deep : suffixed b ts = .error .tooDeep) : unary (b + 1) ts = .error .tooDeep := by
  rw [unary, notMinus]
  exact deep

theorem binary_tooDeep_of_operand {b level : Nat}
    (deep : (if level < tightestLevel then binary b (level + 1) ts else unary b ts) =
      .error .tooDeep) :
    binary (b + 1) level ts = .error .tooDeep := by
  rw [binary]
  by_cases tighter : level < tightestLevel <;> simp only [tighter, ↓reduceIte] at deep ⊢
  all_goals exact bind_tooDeep deep

theorem assignment_tooDeep_of_binary {b : Nat} (deep : binary b 0 ts = .error .tooDeep) :
    assignment (b + 1) ts = .error .tooDeep := by
  rw [assignment]
  exact bind_tooDeep deep

theorem suffixed_tooDeep {b : Nat} (low : b < 2) : suffixed b ts = .error .tooDeep := by
  match b with
  | 0 => rw [suffixed]
  | 1 => exact suffixed_tooDeep_of_primary (by rw [primary.eq_def])

theorem unary_tooDeep : ∀ {b : Nat} (ts : List Token), b < 3 → unary b ts = .error .tooDeep
  | 0, _, _ => by rw [unary]
  | b + 1, ts, low => by
    rw [unary]
    cases next? .minus ts with
    | some next =>
      obtain ⟨tail, shorter⟩ := next
      exact bind_tooDeep (unary_tooDeep tail (by omega))
    | none => exact suffixed_tooDeep (by omega)

theorem binary_tooDeep : ∀ {b : Nat} (level : Nat), b < 4 + (5 - level) →
    binary b level ts = .error .tooDeep
  | 0, _, _ => by rw [binary]
  | b + 1, level, low => by
    apply binary_tooDeep_of_operand
    by_cases tighter : level < tightestLevel
    · rw [if_pos tighter]
      exact binary_tooDeep (level + 1) (by simp only [tightestLevel] at tighter; omega)
    · rw [if_neg tighter]
      exact unary_tooDeep ts (by simp only [tightestLevel] at tighter; omega)

/-- An expression with budget below eleven runs out before it reads a token. -/
theorem expression_tooDeep {b : Nat} (ts : List Token) (low : b < 11) :
    expression b ts = .error .tooDeep := by
  match b with
  | 0 => rw [expression]
  | 1 => rw [expression, assignment]
  | b + 2 =>
    rw [expression]
    exact assignment_tooDeep_of_binary (binary_tooDeep 0 (by omega))

/-- A unary expression that runs out runs out at every binary level above it, one call more
for each level. -/
theorem binary_tooDeep_of_unary {b : Nat} (deep : unary b ts = .error .tooDeep) (k : Nat)
    (le : k ≤ 5) : binary (b + 1 + k) (5 - k) ts = .error .tooDeep := by
  induction k with
  | zero =>
    apply binary_tooDeep_of_operand
    rw [if_neg (by simp [tightestLevel])]
    exact deep
  | succ k ih =>
    rw [show b + 1 + (k + 1) = b + 1 + k + 1 by omega]
    apply binary_tooDeep_of_operand
    rw [if_pos (by simp only [tightestLevel]; omega), show 5 - (k + 1) + 1 = 5 - k by omega]
    exact ih (by omega)

/-- A primary expression that runs out, at a token other than a minus, makes an expression ten
calls above it run out. -/
theorem expression_tooDeep_of_primary {b : Nat} (notMinus : next? .minus ts = none)
    (deep : primary b ts = .error .tooDeep) : expression (b + 10) ts = .error .tooDeep := by
  have unaryDeep := unary_tooDeep_of_suffixed notMinus (suffixed_tooDeep_of_primary deep)
  have binaryDeep := binary_tooDeep_of_unary unaryDeep 5 (by omega)
  rw [show b + 10 = b + 8 + 1 + 1 by omega, expression]
  exact assignment_tooDeep_of_binary binaryDeep

/-- A pair of parentheses costs an expression eleven calls: down through the assignment, the
six binary levels and the unary and postfix expressions to the primary expression that reads
the parenthesis, and then the expression inside. -/
theorem expression_group_tooDeep {b : Nat} {t : Token} {rest : List Token}
    (isOpen : t.kind = .lparen) (deep : expression b rest = .error .tooDeep) :
    expression (b + 11) (t :: rest) = .error .tooDeep := by
  have primaryDeep : primary (b + 1) (t :: rest) = .error .tooDeep := by
    rw [primary]
    simp only [isOpen]
    exact bind_tooDeep deep
  have notMinus : next? .minus (t :: rest) = none := by
    simp [next?, isOpen]
  rw [show b + 11 = b + 1 + 10 by omega]
  exact expression_tooDeep_of_primary notMinus primaryDeep

/-- An expression in `n` pairs of parentheses runs out of every budget up to `11 * n + 10`,
whatever stands inside them. -/
theorem expression_grouped_tooDeep {t : Token} (isOpen : t.kind = .lparen) (rest : List Token) :
    ∀ n b, b ≤ 11 * n + 10 → expression b (List.replicate n t ++ rest) = .error .tooDeep
  | 0, b, shallow => expression_tooDeep _ (by omega)
  | n + 1, b, shallow => by
    by_cases low : b < 11
    · exact expression_tooDeep _ low
    · obtain ⟨b, rfl⟩ : ∃ b', b = b' + 11 := ⟨b - 11, by omega⟩
      rw [List.replicate_succ, List.cons_append]
      exact expression_group_tooDeep isOpen (expression_grouped_tooDeep isOpen rest n b (by omega))

/-- A declaration that starts with a parenthesis is an expression two calls down. -/
theorem declaration_tooDeep_of_expression {b : Nat} {t : Token} {rest : List Token}
    (isOpen : t.kind = .lparen) (deep : expression b (t :: rest) = .error .tooDeep) :
    declaration (b + 2) (t :: rest) = .error .tooDeep := by
  rw [declaration, statement]
  simp [next?, isOpen]
  exact bind_tooDeep deep

end RunningOut

end Parser

/-- A number in 3000 pairs of parentheses is too deep to compile: the declaration has a budget
of 990 calls, and the parentheses cost eleven each. -/
theorem deeply_grouped_number_tooDeep :
    Program.ofTokensAt requestDepth (List.replicate 3000 ⟨.lparen, "(", 1⟩ ++
      (⟨.number, "1", 1⟩ :: List.replicate 3000 ⟨.rparen, ")", 1⟩ ++ [⟨.eof, "", 1⟩])) =
      .error .tooDeep := by
  have deep := Parser.expression_grouped_tooDeep (t := ⟨.lparen, "(", 1⟩) rfl
    (⟨.number, "1", 1⟩ :: List.replicate 3000 ⟨.rparen, ")", 1⟩ ++ [⟨.eof, "", 1⟩]) 3000 988
    (by omega)
  rw [List.replicate_succ, List.cons_append] at deep
  have declared := Parser.declaration_tooDeep_of_expression rfl deep
  rw [List.replicate_succ, List.cons_append, Program.ofTokensAt, Parser.parse, Parser.topLevel]
  have budget : parseBudget requestDepth = 988 + 2 := rfl
  simp only [Parser.atEnd, Parser.peek, budget, declared]
  rfl

end VieCompiler
