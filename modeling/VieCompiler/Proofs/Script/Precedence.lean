import VieCompiler.Proofs.Script.Productions

/-!
# Operands and precedence

An operand that no operator follows is read the same way at every precedence level, and an
operation at the level of its operator. So a unary expression before a closing bracket, a
comma or a semicolon climbs the levels of `binary` up to an assignment expression, and a
parenthesized operation is a primary expression whatever its operator.

The last section names the tokens that an expression starts with. None of them opens a
statement of another kind or a declaration, so an expression statement is read as one.
-/

namespace VieCompiler.Script

/-- The punctuators that end an expression: closing brackets and braces, commas and
semicolons. -/
def closingWords : List String :=
  [")", "]", "\x7d", ",", ";"]

/-- The tokens end an expression: they are used up, or the next one closes. -/
def ClosesExpression (m : List Token) : Prop :=
  ∀ t ∈ m.head?, ∃ p ∈ closingWords, t.kind = .punctuator p

/-- No operator of `level` or of a tighter level stands at the head of `m`. -/
def NoOperatorFrom (level : Nat) (m : List Token) : Prop :=
  ∀ j, level ≤ j → operator (binaryLevels.getD j []) m = none

theorem binaryLevels_getD_of_le {j : Nat} (beyond : binaryLevels.length ≤ j) :
    binaryLevels.getD j [] = [] := by
  simp [List.getD_eq_getElem?_getD, List.getElem?_eq_none beyond]

/-- No operator closes an expression, and each operator belongs to one level only. -/
theorem binaryLevels_apart :
    (∀ j < binaryLevels.length, ∀ p ∈ closingWords, p ∉ binaryLevels.getD j []) ∧
      ∀ i < binaryLevels.length, ∀ j < binaryLevels.length, i ≠ j →
        ∀ op ∈ binaryLevels.getD i [], op ∉ binaryLevels.getD j [] := by
  decide

theorem level_lt_of_mem {level : Nat} {op : String} (member : op ∈ binaryLevels.getD level []) :
    level < binaryLevels.length := by
  rcases Nat.lt_or_ge level binaryLevels.length with within | beyond
  · exact within
  · rw [binaryLevels_getD_of_le beyond] at member
    cases member

section Climbing

variable {ts m m₁ : List Token} {x y : Expr} {flag f : Bool}

/-- A token that belongs to no level is no operator of any level. -/
theorem noOperatorFrom_of_foreign {t : Token}
    (foreign : ∀ j < binaryLevels.length, t.text ∉ binaryLevels.getD j []) (level : Nat) :
    NoOperatorFrom level (t :: m) := by
  intro j _
  apply operator_cons_of_not_mem
  by_cases within : j < binaryLevels.length
  · exact foreign j within
  · rw [binaryLevels_getD_of_le (Nat.le_of_not_lt within)]
    exact List.not_mem_nil

theorem noOperatorFrom_of_closes (closes : ClosesExpression m) (level : Nat) :
    NoOperatorFrom level m := by
  cases m with
  | nil => exact fun _ _ => rfl
  | cons t rest =>
    obtain ⟨p, closing, kind⟩ := closes t rfl
    have text : t.text = p := by
      obtain ⟨k, b⟩ := t
      subst kind
      rfl
    exact noOperatorFrom_of_foreign
      (fun j within => text ▸ binaryLevels_apart.1 j within p closing) level

/-- An operator of one level is no operator of another. -/
theorem noOperatorFrom_of_operator {level : Nat} {t : Token}
    (op : t.text ∈ binaryLevels.getD level []) : NoOperatorFrom (level + 1) (t :: m) := by
  intro j above
  apply operator_cons_of_not_mem
  by_cases within : j < binaryLevels.length
  · exact binaryLevels_apart.2 level (level_lt_of_mem op) j within (by omega) t.text op
  · rw [binaryLevels_getD_of_le (Nat.le_of_not_lt within)]
    exact List.not_mem_nil

mutual

/-- A unary expression that no operator of a tighter level follows is an operand of
`level`. -/
theorem reads_binaryOperand_of_unary (level : Nat) (operand : Reads unary ts x m)
    (noOperator : NoOperatorFrom (level + 1) m) : Reads (binaryOperand level) ts x m := by
  by_cases next : level + 1 < binaryLevels.length
  · exact reads_binaryOperand_next next (reads_binary_of_unary (level + 1) operand noOperator)
  · exact reads_binaryOperand_unary (Nat.le_of_not_lt next) operand
termination_by (binaryLevels.length - level, 0)

/-- A unary expression that no operator of `level` or a tighter level follows is an
expression of `level`. -/
theorem reads_binary_of_unary (level : Nat) (operand : Reads unary ts x m)
    (noOperator : NoOperatorFrom level m) : Reads (binary level) ts x m :=
  reads_binary (reads_binaryOperand_of_unary level operand fun j above => noOperator j (by omega))
    (continues_binaryTail_stop (noOperator level (Nat.le_refl level)))
termination_by (binaryLevels.length - level, 1)

end

/-- An operation between two unary expressions is an expression of its operator's level,
when no operator of that level or a tighter one follows. -/
theorem reads_binary_operation {level : Nat} {t : Token}
    (op : t.text ∈ binaryLevels.getD level []) (left : Reads unary ts x (t :: m₁))
    (right : Reads unary m₁ y m) (noOperator : NoOperatorFrom level m) :
    Reads (binary level) ts (.binary x t.text y) m :=
  reads_binary (reads_binaryOperand_of_unary level left (noOperatorFrom_of_operator op))
    (continues_binaryTail_operator op
      (reads_binaryOperand_of_unary level right fun j above => noOperator j (by omega))
      (continues_binaryTail_stop (noOperator level (Nat.le_refl level))))

/-- An expression of `level` that no operator of a looser level down to `i` follows is an
expression of level `i`. -/
theorem reads_binary_of_tighter {i level : Nat} (inner : Reads (binary level) ts x m)
    (le : i ≤ level) (within : level < binaryLevels.length)
    (noOperator : ∀ j, i ≤ j → j < level → operator (binaryLevels.getD j []) m = none) :
    Reads (binary i) ts x m := by
  rcases Nat.lt_or_eq_of_le le with below | rfl
  · have next : Reads (binary (i + 1)) ts x m :=
      reads_binary_of_tighter inner below within fun j above under => noOperator j (by omega) under
    exact reads_binary (reads_binaryOperand_next (by omega) next)
      (continues_binaryTail_stop (noOperator i (Nat.le_refl i) below))
  · exact inner
termination_by level - i

theorem reads_assignment_of_binary (left : Reads (binary 0) ts x m)
    (closes : ClosesExpression m) : Reads assignment ts x m := by
  have notArrow : ∀ t ∈ m.head?, t ≠ ⟨.punctuator "=>", false⟩ := by
    intro t first same
    obtain ⟨p, closing, kind⟩ := closes t first
    subst same
    simp only [Token.Kind.punctuator.injEq] at kind
    subst kind
    revert closing
    decide
  have notEquals : ∀ t ∈ m.head?, t.kind ≠ .punctuator "=" := by
    intro t first same
    obtain ⟨p, closing, kind⟩ := closes t first
    rw [same, Token.Kind.punctuator.injEq] at kind
    subst kind
    revert closing
    decide
  exact reads_assignment_plain left (accept_eq_none_of_head notEquals) (asyncArrow_eq_none notArrow)

/-- A unary expression before the end of an expression is an assignment expression. -/
theorem reads_assignment_of_unary (operand : Reads unary ts x m) (closes : ClosesExpression m) :
    Reads assignment ts x m :=
  reads_assignment_of_binary (reads_binary_of_unary 0 operand (noOperatorFrom_of_closes closes 0))
    closes

/-- An operation between two unary expressions, before the end of an expression, is an
assignment expression whatever its operator's level. -/
theorem reads_assignment_operation (level : Nat) {t : Token}
    (op : t.text ∈ binaryLevels.getD level []) (left : Reads unary ts x (t :: m₁))
    (right : Reads unary m₁ y m) (closes : ClosesExpression m) :
    Reads assignment ts (.binary x t.text y) m := by
  have atLevel := reads_binary_operation op left right (noOperatorFrom_of_closes closes level)
  have loosest := reads_binary_of_tighter atLevel (Nat.zero_le level) (level_lt_of_mem op)
    fun j _ _ => noOperatorFrom_of_closes closes j j (Nat.le_refl j)
  exact reads_assignment_of_binary loosest closes

end Climbing

/-- Whether an expression may start with the token: `new`, an opening bracket or
parenthesis, a prefix operator, or a token that is an expression by itself. -/
def startsExpression (t : Token) : Bool :=
  t.kind == .name "new" || t.kind == .punctuator "[" || t.kind == .punctuator "(" ||
    unaryOperators.contains t.text || (atomOf t.kind).isSome

section Heads

/-- The tokens do not start an expression. -/
def StartsNoExpression (ts : List Token) : Prop :=
  ∀ t ∈ ts.head?, startsExpression t = false

variable {ts : List Token}

theorem accept_of_startsNoExpression {k : Token.Kind} (noStart : StartsNoExpression ts)
    (starts : ∀ t : Token, t.kind = k → startsExpression t = true) : accept k ts = none := by
  apply accept_eq_none_of_head
  intro t first same
  have := noStart t first
  rw [starts t same] at this
  cases this

theorem primary_eq_none (noStart : StartsNoExpression ts) : primary ts = none := by
  have bracket := accept_of_startsNoExpression (k := .punctuator "[") noStart (by intro t same; simp [startsExpression, same])
  have paren := accept_of_startsNoExpression (k := .punctuator "(") noStart (by intro t same; simp [startsExpression, same])
  rw [primary, bracket, paren]
  cases ts with
  | nil => rfl
  | cons t rest =>
    have := noStart t rfl
    simp only [startsExpression, Bool.or_eq_false_iff, Option.isSome_eq_false_iff] at this
    simp [atom, single, Option.isNone_iff_eq_none.mp this.2]

theorem memberExpression_eq_none (noStart : StartsNoExpression ts) : memberExpression ts = none := by
  have newWord := accept_of_startsNoExpression (k := .name "new") noStart (by intro t same; simp [startsExpression, same])
  rw [memberExpression, newWord]
  simp [primary_eq_none noStart]

theorem leftHandSide_eq_none (noStart : StartsNoExpression ts) : leftHandSide ts = none := by
  rw [leftHandSide]
  simp [memberExpression_eq_none noStart]

theorem unary_eq_none (noStart : StartsNoExpression ts) : unary ts = none := by
  have notOperator : operator unaryOperators ts = none := by
    cases ts with
    | nil => rfl
    | cons t rest =>
      have := noStart t rfl
      simp only [startsExpression, Bool.or_eq_false_iff] at this
      exact operator_cons_of_not_mem rest (by simpa using this.1.2)
  rw [unary, notOperator]
  exact leftHandSide_eq_none noStart

theorem binary_eq_none (noStart : StartsNoExpression ts) (level : Nat) : binary level ts = none := by
  have operand : binaryOperand level ts = none := by
    rw [binaryOperand]
    split
    · exact binary_eq_none noStart (level + 1)
    · exact unary_eq_none noStart
  rw [binary]
  simp [operand]
termination_by binaryLevels.length - level

theorem assignment_eq_none (noStart : StartsNoExpression ts) : assignment ts = none := by
  rw [assignment]
  simp [binary_eq_none noStart 0]

/-- An expression starts with a token that may start one. -/
theorem startsExpression_of_reads {x : Expr} {m : List Token} (h : Reads assignment ts x m) :
    ∃ t rest, ts = t :: rest ∧ startsExpression t = true := by
  cases ts with
  | nil =>
    obtain ⟨p, found, -⟩ := h
    rw [assignment_eq_none (by simp [StartsNoExpression])] at found
    cases found
  | cons t rest =>
    refine ⟨t, rest, rfl, ?_⟩
    cases starts : startsExpression t
    · obtain ⟨p, found, -⟩ := h
      rw [assignment_eq_none (by simpa [StartsNoExpression] using starts)] at found
      cases found
    · rfl

/-- No word that opens another statement or a declaration starts an expression, and neither
does `else`, a closing brace nor a semicolon. -/
theorem kind_ne_of_startsExpression {t : Token} (starts : startsExpression t = true) :
    ∀ k ∈ statementWords ++ declarationWords ++
      [.name "else", .punctuator "\x7d", .punctuator ";"], t.kind ≠ k := by
  intro k listed same
  obtain ⟨kind, flag⟩ := t
  subst same
  revert starts
  simp only [statementWords, declarationWords, List.cons_append, List.nil_append, List.mem_cons,
    List.not_mem_nil, or_false] at listed
  rcases listed with rfl | rfl | rfl | rfl | rfl | rfl | rfl | rfl | rfl | rfl | rfl <;> cases flag <;>
    decide

/-- An expression followed by a semicolon is an expression statement, and an item of a
list of statements. -/
theorem reads_expressionItem {ret f : Bool} {x : Expr} {m : List Token}
    (value : Reads assignment ts x (⟨.punctuator ";", f⟩ :: m)) :
    Reads (statementListItem ret) ts (.expr x) m := by
  obtain ⟨t, rest, rfl, starts⟩ := startsExpression_of_reads value
  have other := kind_ne_of_startsExpression starts
  exact reads_statementListItem_of_statement
    (fun k listed => accept_cons_of_ne rest (other k (by simp [listed])))
    (reads_expressionStatement
      (fun k listed => accept_cons_of_ne rest (other k (by simp [listed]))) value)

end Heads

end VieCompiler.Script
