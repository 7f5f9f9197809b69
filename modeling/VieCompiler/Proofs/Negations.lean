import VieCompiler.Proofs.Budget
import VieCompiler.Proofs.ReadingBack
import Mathlib

/-!
# What a negation costs

The parser reads a minus sign in front of a unary expression as a subtraction from zero
(`Expr.negation`), and reading it costs one call: `k` minus signs before a number are read
with a budget of `k + 13` (`Program.ofSourceAt_negations`).

The printer writes a negation as the subtraction it is, and a subtraction whose right operand is
again a subtraction puts that operand in parentheses: the print of `k + 1` negations is
`0 - ( 0 - ( … ) )`. Each pair of parentheses there costs eleven calls, from the expression
inside it up through the assignment, the six binary levels and the unary and postfix
expressions to the primary expression that reads the parenthesis
(`Parser.expression_negation_tooDeep`). So the print runs out of every budget up to `11 * k + 12`
(`Program.ofSourceAt_print_negations`), while the source it was read from needed only `k + 14`.
-/

namespace VieCompiler

/-- The expression the parser reads for a minus sign in front of `operand`. -/
def Expr.negation (operand : Expr) : Expr :=
  .binary (.number .zero) .sub operand

theorem Expr.negation_iterate_succ (k : Nat) (e : Expr) :
    Expr.negation^[k + 1] e = .binary (.number .zero) .sub (Expr.negation^[k] e) :=
  Function.iterate_succ_apply' Expr.negation k e

theorem Program.ofSourceAt_of_tokenize {active : Nat} {source : String} {tokens : List Token}
    (lexed : tokenize source = .ok tokens) :
    Program.ofSourceAt active source = Program.ofTokensAt active tokens := by
  rw [Program.ofSourceAt, lexed]
  rfl

section Source

/-- A minus sign and a space are read as a minus token. -/
theorem tokenizeFrom_minus (line : Nat) (chars : List Char) :
    tokenizeFrom line ('-' :: ' ' :: chars) =
      (⟨.minus, "-", line⟩ :: ·) <$> tokenizeFrom line chars := by
  rw [tokenizeFrom_single line rfl, tokenizeFrom_separator line (by decide)]
  rfl

/-- `k` minus signs, each followed by a space, and the digit `1` are read as `k` minus tokens, a
number and the end of input. -/
theorem tokenizeFrom_negations (line : Nat) :
    ∀ k, tokenizeFrom line ((List.replicate k ['-', ' ']).flatten ++ ['1']) =
      .ok (List.replicate k ⟨.minus, "-", line⟩ ++ [⟨.number, "1", line⟩, ⟨.eof, "", line⟩])
  | 0 => by
    have number : tokenizeFrom line ['1'] =
        (⟨.number, String.ofList ['1'], line⟩ :: ·) <$> tokenizeFrom line [] :=
      @tokenizeFrom_number line [] '1' [] rfl (by simp) (by simp)
    rw [List.replicate_zero, List.flatten_nil, List.nil_append, number, tokenizeFrom_nil]
    rfl
  | k + 1 => by
    simp only [List.replicate_succ, List.flatten_cons, List.cons_append, List.nil_append]
    rw [tokenizeFrom_minus, tokenizeFrom_negations line k]
    rfl

end Source

namespace Parser

theorem bind_of_ok {α β : Type} {x : Except ParseFailure α} {a : α}
    {f : α → Except ParseFailure β} (found : x = .ok a) : x >>= f = f a := by
  rw [found]
  rfl

section Reading

variable {b : Nat} {ts : List Token}

theorem operator?_end (level last : Nat) : operator? level [⟨.eof, "", last⟩] = none := by
  simp [operator?]

theorem binaryTail_end (level last : Nat) (left : Expr) :
    binaryTail (b + 1) level left [⟨.eof, "", last⟩] = .ok ⟨left, _, Nat.le_refl _⟩ := by
  rw [binaryTail, operator?_end]

theorem suffixes_end (last : Nat) (target : Expr) :
    suffixes (b + 1) target [⟨.eof, "", last⟩] = .ok ⟨target, _, Nat.le_refl _⟩ := by
  rw [suffixes]
  rfl

theorem primary_number {t : Token} (isNumber : t.kind = .number) {value : Binary64}
    (read : Binary64.ofText? t.lexeme = some value) (rest : List Token) :
    primary (b + 1) (t :: rest) = .ok ⟨.number value, rest, Nat.lt_succ_self _⟩ := by
  rw [primary]
  simp only [isNumber, read]

/-- A minus sign in front of a unary expression makes its negation. -/
theorem unary_minus {t : Token} (isMinus : t.kind = .minus) {rest : List Token} {v : Expr}
    {left : List Token} {shorter : left.length < rest.length}
    (read : unary b rest = .ok ⟨v, left, shorter⟩) :
    ∃ shorter', unary (b + 1) (t :: rest) = .ok ⟨v.negation, left, shorter'⟩ := by
  rw [unary, next?_of_kind _ isMinus (by decide)]
  dsimp only
  rw [bind_of_ok read]
  exact ⟨_, rfl⟩

/-- `k` minus signs in front of a unary expression make `k` negations of it, one call each, by
induction on `k`. -/
theorem unary_negations {t : Token} (isMinus : t.kind = .minus) {rest : List Token} {v : Expr}
    {left : List Token} {shorter : left.length < rest.length}
    (read : unary b rest = .ok ⟨v, left, shorter⟩) :
    ∀ k, ∃ shorter', unary (b + k) (List.replicate k t ++ rest) =
      .ok ⟨Expr.negation^[k] v, left, shorter'⟩
  | 0 => ⟨shorter, read⟩
  | k + 1 => by
    obtain ⟨_, readMore⟩ := unary_negations isMinus read k
    rw [List.replicate_succ, List.cons_append, ← Nat.add_assoc, Function.iterate_succ_apply']
    exact unary_minus isMinus readMore

/-- A number before the end of input is a unary expression with three calls. -/
theorem unary_number {t : Token} (isNumber : t.kind = .number) {value : Binary64}
    (read : Binary64.ofText? t.lexeme = some value) (last : Nat) :
    ∃ shorter, unary (b + 3) [t, ⟨.eof, "", last⟩] =
      .ok ⟨.number value, [⟨.eof, "", last⟩], shorter⟩ := by
  rw [unary, next?_of_ne _ (by rw [isNumber]; decide), suffixed,
    bind_of_ok (primary_number isNumber read _)]
  dsimp only
  rw [bind_of_ok (suffixes_end _ _)]
  exact ⟨_, rfl⟩

/-- A unary expression before the end of input is the expression of every binary level above
it, one call more for each level. -/
theorem binary_of_unary_end {v : Expr} {last : Nat} {shorter}
    (read : unary b ts = .ok ⟨v, [⟨.eof, "", last⟩], shorter⟩) :
    ∀ k, k ≤ 5 → ∃ shorter', binary (b + 1 + k) (5 - k) ts =
      .ok ⟨v, [⟨.eof, "", last⟩], shorter'⟩
  | 0, _ => by
    rw [binary, if_neg (by simp [tightestLevel]), bind_of_ok read]
    dsimp only
    rw [bind_of_ok (binaryTail_end _ _ _)]
    exact ⟨_, rfl⟩
  | k + 1, le => by
    obtain ⟨_, readLevel⟩ := binary_of_unary_end read k (by omega)
    rw [show b + 1 + (k + 1) = b + 1 + k + 1 by omega, binary,
      if_pos (by simp only [tightestLevel]; omega), show 5 - (k + 1) + 1 = 5 - k by omega,
      bind_of_ok readLevel]
    dsimp only
    rw [bind_of_ok (binaryTail_end _ _ _)]
    exact ⟨_, rfl⟩

/-- An expression of the loosest binary level before the end of input is the whole expression. -/
theorem expression_of_binary_end {v : Expr} {last : Nat} {shorter}
    (read : binary b 0 ts = .ok ⟨v, [⟨.eof, "", last⟩], shorter⟩) :
    expression (b + 2) ts = .ok ⟨v, [⟨.eof, "", last⟩], shorter⟩ := by
  rw [expression, assignment, bind_of_ok read]
  rfl

/-- Tokens that start with neither a keyword nor a brace are an expression statement, two calls
down. -/
theorem declaration_of_expression
    (plain : ∀ t ∈ ts.head?, (∀ k, t.kind ≠ .keyword k) ∧ t.kind ≠ .lbrace) :
    declaration (b + 2) ts = (expression b ts) >>= fun p => pure (p.map Stmt.expr) := by
  cases ts with
  | nil =>
    rw [declaration, statement]
    rfl
  | cons t rest =>
    obtain ⟨notKeyword, notBrace⟩ := plain t rfl
    rw [declaration, next?_of_ne _ (notKeyword _), next?_of_ne _ (notKeyword _),
      next?_of_ne _ (notKeyword _), statement, next?_of_ne _ (notKeyword _),
      next?_of_ne _ (notKeyword _), next?_of_ne _ (notKeyword _), next?_of_ne _ notBrace,
      next?_of_ne _ (notKeyword _)]

theorem topLevel_end (budget last : Nat) : topLevel budget [⟨.eof, "", last⟩] = .ok [] := by
  rw [topLevel]
  rfl

end Reading

section RunningOut

variable {b : Nat}

/-- An operator of the level whose right operand runs out makes the rest of the level run out. -/
theorem binaryTail_tooDeep_of_operand {level : Nat} {left : Expr} {ts tail : List Token}
    {op : BinaryOp} {shorter : tail.length < ts.length}
    (found : operator? level ts = some (op, ⟨tail, shorter⟩))
    (deep : (if level < tightestLevel then binary b (level + 1) tail else unary b tail) =
      .error .tooDeep) :
    binaryTail (b + 1) level left ts = .error .tooDeep := by
  rw [binaryTail, found]
  dsimp only
  by_cases tighter : level < tightestLevel <;> simp only [tighter, ↓reduceIte] at deep ⊢
  all_goals exact bind_tooDeep deep

/-- A level whose first operand is read and whose operators then run out runs out. -/
theorem binary_tooDeep_of_tail {level : Nat} {ts : List Token} {p : Parsed ts Expr}
    (first : (if level < tightestLevel then binary b (level + 1) ts else unary b ts) = .ok p)
    (deep : binaryTail (b + 1) level p.value p.rest = .error .tooDeep) :
    binary (b + 1) level ts = .error .tooDeep := by
  rw [binary]
  by_cases tighter : level < tightestLevel <;> simp only [tighter, ↓reduceIte] at first ⊢
  all_goals
    rw [bind_of_ok first]
    exact bind_tooDeep deep

/-- A binary level that runs out makes every looser level run out, one call more for each. -/
theorem binary_tooDeep_of_tighter {level : Nat} {ts : List Token} (bounded : level ≤ 5)
    (deep : binary b level ts = .error .tooDeep) :
    ∀ j, j ≤ level → binary (b + j) (level - j) ts = .error .tooDeep
  | 0, _ => deep
  | j + 1, le => by
    rw [← Nat.add_assoc]
    apply binary_tooDeep_of_operand
    rw [if_pos (by simp only [tightestLevel]; omega), show level - (j + 1) + 1 = level - j by omega]
    exact binary_tooDeep_of_tighter bounded deep j (by omega)

/-- A number before a minus sign is read at the tightest binary level, which stops at the
minus. -/
theorem binary_number_before_minus {z m : Token} (isNumber : z.kind = .number) {value : Binary64}
    (read : Binary64.ofText? z.lexeme = some value) (isMinus : m.kind = .minus)
    (rest : List Token) :
    ∃ p, binary (b + 4) 5 (z :: m :: rest) = .ok p ∧ p.rest = m :: rest := by
  have stopped : suffixes (b + 1 + 1) (.number value) (m :: rest) =
      .ok ⟨.number value, m :: rest, Nat.le_refl _⟩ := by
    rw [suffixes, next?_of_ne _ (by rw [isMinus]; decide), next?_of_ne _ (by rw [isMinus]; decide),
      next?_of_ne _ (by rw [isMinus]; decide)]
  rw [binary, if_neg (by simp [tightestLevel]), unary, next?_of_ne _ (by rw [isNumber]; decide),
    suffixed, bind_of_ok (primary_number isNumber read _)]
  dsimp only
  rw [bind_of_ok stopped]
  simp only [pure_bind]
  rw [binaryTail, operator?_eq_none (by omega) rest (by rw [isMinus]; decide)]
  exact ⟨_, rfl, rfl⟩

/-- The parentheses after `0 -` cost eleven calls: the right operand of the subtraction is read
at the tightest binary level, down through the unary and postfix expressions to the primary
expression that reads the parenthesis, and the subtraction itself sits under the looser
levels, the assignment and the expression. -/
theorem expression_negation_tooDeep {z m l : Token} (isNumber : z.kind = .number)
    {value : Binary64} (read : Binary64.ofText? z.lexeme = some value)
    (isMinus : m.kind = .minus) (isOpen : l.kind = .lparen) {rest : List Token}
    (deep : expression b rest = .error .tooDeep) :
    expression (b + 11) (z :: m :: l :: rest) = .error .tooDeep := by
  have primaryDeep : primary (b + 1) (l :: rest) = .error .tooDeep := by
    rw [primary]
    simp only [isOpen]
    exact bind_tooDeep deep
  have unaryDeep : unary (b + 3) (l :: rest) = .error .tooDeep :=
    unary_tooDeep_of_suffixed (next?_of_ne _ (by rw [isOpen]; decide))
      (suffixed_tooDeep_of_primary primaryDeep)
  have operandDeep : binary (b + 4) 5 (l :: rest) = .error .tooDeep :=
    binary_tooDeep_of_operand (by rw [if_neg (by simp [tightestLevel])]; exact unaryDeep)
  have subtracted : operator? 4 (m :: l :: rest) =
      some (.sub, ⟨l :: rest, Nat.lt_succ_self _⟩) := by
    simp [operator?, isMinus, levelOperators]
  obtain ⟨p, leftRead, left⟩ := binary_number_before_minus (b := b) isNumber read isMinus (l :: rest)
  have termDeep : binary (b + 5) 4 (z :: m :: l :: rest) = .error .tooDeep := by
    refine binary_tooDeep_of_tail (by rw [if_pos (by simp [tightestLevel])]; exact leftRead) ?_
    rw [left]
    exact binaryTail_tooDeep_of_operand subtracted
      (by rw [if_pos (by simp [tightestLevel])]; exact operandDeep)
  have loosestDeep := binary_tooDeep_of_tighter (by omega) termDeep 4 le_rfl
  rw [show b + 11 = b + 9 + 1 + 1 by omega, expression]
  exact assignment_tooDeep_of_binary loosestDeep

/-- Tokens that start with a number are a declaration that runs out when the expression two
calls down does. -/
theorem declaration_tooDeep_of_number {t : Token} {rest : List Token}
    (isNumber : t.kind = .number) :
    ∀ {budget}, (∀ b, budget = b + 2 → expression b (t :: rest) = .error .tooDeep) →
      declaration budget (t :: rest) = .error .tooDeep
  | 0, _ => by rw [declaration]
  | 1, _ => by
    rw [declaration, next?_of_ne _ (by rw [isNumber]; decide), next?_of_ne _ (by rw [isNumber]; decide),
      next?_of_ne _ (by rw [isNumber]; decide), statement]
  | b + 2, deep => by
    rw [declaration_of_expression fun u first => by
      cases first
      exact ⟨(fun k same => by rw [isNumber] at same; cases same), by rw [isNumber]; decide⟩]
    exact bind_tooDeep (deep b rfl)

end RunningOut

/-- The print of `k + 1` negations of any expression, and whatever follows it, runs out of every
budget up to `11 * k + 10`: each negation but the innermost puts its operand in parentheses. By
induction on `k`. -/
theorem expression_negations_tooDeep (e : Expr) :
    ∀ k b (front rest : List Token),
      front.map Token.spelling = (Expr.negation^[k + 1] e).printed → b ≤ 11 * k + 10 →
        expression b (front ++ rest) = .error .tooDeep
  | 0, b, _, _, _, shallow => expression_tooDeep _ (by omega)
  | k + 1, b, front, rest, spelled, shallow => by
    by_cases low : b < 11
    · exact expression_tooDeep _ low
    obtain ⟨b, rfl⟩ : ∃ b', b = b' + 11 := ⟨b - 11, by omega⟩
    have loose : (Expr.negation^[k + 1] e).precedence < BinaryOp.sub.level + 2 := by
      rw [Expr.negation_iterate_succ]
      exact Nat.lt_succ_self _
    rw [Expr.negation_iterate_succ, Expr.printed_binary, Expr.printedAt_of_le (by decide),
      Expr.printedAt_of_lt loose] at spelled
    obtain ⟨z, more, rfl, zero, spelledMore⟩ := List.map_eq_cons_iff.mp spelled
    obtain ⟨m, more', rfl, minus, spelledOpen⟩ := List.map_eq_cons_iff.mp spelledMore
    obtain ⟨l, more'', rfl, opening, spelledInner⟩ := List.map_eq_cons_iff.mp spelledOpen
    obtain ⟨inner, closing, rfl, spelledInner', -⟩ := List.map_eq_append_iff.mp spelledInner
    have isNumber : z.kind = .number := congrArg Prod.fst zero
    -- the `0` is written as the numeral of zero, which reads back
    have lexeme : z.lexeme = String.ofList Binary64.zero.wholeDigits := congrArg Prod.snd zero
    have read : Binary64.ofText? z.lexeme = some Binary64.zero := by
      rw [lexeme]
      exact Binary64.ofText?_wholeDigits Leaves.lexical.number_zero
    have isMinus : m.kind = .minus := congrArg Prod.fst minus
    have isOpen : l.kind = .lparen := congrArg Prod.fst opening
    rw [List.cons_append, List.cons_append, List.cons_append, List.append_assoc]
    exact expression_negation_tooDeep isNumber read isMinus isOpen
      (expression_negations_tooDeep e k b inner (closing ++ rest) spelledInner' (by omega))

end Parser

/-- `k` minus signs before the number `1` are read as `k` negations of it, with room for
thirteen calls and one more for every minus sign. -/
theorem Program.ofSourceAt_negations {active k : Nat} (enough : k + 13 ≤ parseBudget active) :
    Program.ofSourceAt active (String.ofList ((List.replicate k ['-', ' ']).flatten ++ ['1'])) =
      .ok ⟨[.expr (Expr.negation^[k] (.number (Binary64.ofNat 1)))]⟩ := by
  have lexed : tokenize (String.ofList ((List.replicate k ['-', ' ']).flatten ++ ['1'])) =
      .ok (List.replicate k ⟨.minus, "-", 1⟩ ++ [⟨.number, "1", 1⟩, ⟨.eof, "", 1⟩]) := by
    rw [tokenize, String.toList_ofList]
    exact tokenizeFrom_negations 1 k
  rw [Program.ofSourceAt_of_tokenize lexed, Program.ofTokensAt, Parser.parse]
  obtain ⟨b, budget⟩ : ∃ b, parseBudget active = b + k + 13 :=
    ⟨parseBudget active - k - 13, by omega⟩
  -- the number, then the minus signs, then the binary levels and the assignment
  have one : Binary64.ofText? "1" = some (Binary64.ofNat 1) :=
    (Binary64.ofText?_digits (List.cons_ne_nil '1' []) (forall_mem_of_all_decide (by decide))).trans rfl
  obtain ⟨_, readNumber⟩ := Parser.unary_number (b := b) (t := ⟨.number, "1", 1⟩) rfl one 1
  obtain ⟨_, readUnary⟩ := Parser.unary_negations (t := ⟨.minus, "-", 1⟩) rfl readNumber k
  obtain ⟨_, readBinary⟩ := Parser.binary_of_unary_end readUnary 5 le_rfl
  have readExpression := Parser.expression_of_binary_end readBinary
  -- the first token is a minus sign, or the number when there is none
  have plain : ∀ t ∈ (List.replicate k (⟨.minus, "-", 1⟩ : Token) ++
      ([⟨.number, "1", 1⟩, ⟨.eof, "", 1⟩] : List Token)).head?, (∀ kw, t.kind ≠ .keyword kw) ∧
        t.kind ≠ .lbrace := by
    cases k with
    | zero => simp
    | succ k => simp [List.replicate_succ]
  have notEnd : Parser.atEnd (List.replicate k (⟨.minus, "-", 1⟩ : Token) ++
      ([⟨.number, "1", 1⟩, ⟨.eof, "", 1⟩] : List Token)) = false := by
    cases k <;> rfl
  have declared := Parser.declaration_of_expression (b := b + 3 + k + 1 + 5 + 2) plain
  rw [readExpression] at declared
  rw [budget, Parser.topLevel, if_neg (by rw [notEnd]; decide),
    show b + k + 13 = b + 3 + k + 1 + 5 + 2 + 2 by omega, Parser.bind_of_ok declared]
  dsimp only [Parser.Parsed.map]
  rw [Parser.bind_of_ok (Parser.topLevel_end _ _)]
  rfl

/-- The print of `k + 1` negations runs out of every budget up to `11 * k + 12`. -/
theorem Program.ofSourceAt_print_negations {active k : Nat} {e : Expr}
    (lexical : Stmt.ListWellFormed Leaves.lexical [.expr (Expr.negation^[k + 1] e)])
    (shallow : parseBudget active ≤ 11 * k + 12) :
    Program.ofSourceAt active (Program.print ⟨[.expr (Expr.negation^[k + 1] e)]⟩) =
      .error .tooDeep := by
  obtain ⟨front, last, lexed, spelled⟩ :=
    @Program.tokenize_print ⟨[.expr (Expr.negation^[k + 1] e)]⟩ lexical
  have spelledNegations : front.map Token.spelling = (Expr.negation^[k + 1] e).printed := by
    rw [spelled]
    exact List.append_nil _
  -- the print starts with the `0` of the outermost subtraction
  have startsZero := spelledNegations
  rw [Expr.negation_iterate_succ, Expr.printed_binary, Expr.printedAt_of_le (by decide)] at startsZero
  obtain ⟨z, more, rfl, zero, -⟩ := List.map_eq_cons_iff.mp startsZero
  have isNumber : z.kind = .number := congrArg Prod.fst zero
  have deep : Parser.declaration (parseBudget active) (z :: (more ++ [⟨.eof, "", last⟩])) =
      .error .tooDeep :=
    Parser.declaration_tooDeep_of_number isNumber fun b same =>
      Parser.expression_negations_tooDeep e k b (z :: more) [⟨.eof, "", last⟩]
        spelledNegations (by omega)
  rw [Program.ofSourceAt_of_tokenize lexed, Program.ofTokensAt, Parser.parse, List.cons_append,
    Parser.topLevel, if_neg (by simp [Parser.atEnd, Parser.peek, isNumber]), Parser.bind_tooDeep deep]
  rfl

end VieCompiler
