import VieCompiler.Proofs.Closers

/-!
# Tokens that finish a read

A read that a syntax error cut short can often be finished: other tokens in place of the error
make it succeed. `Parser.Completes closers b height reads x` says that some tokens after `x`
make the run `reads` read up to any tokens that start with one of `closers`, as long as the
budget `b` has room for sixteen calls a token of `x` and `height` more, the measure of
`VieCompiler.Proofs.Budget`.

The tokens that finish a production from its start are the shortest the grammar takes: the
literal `đúng` for an expression or a statement, the closing token of a list or a block, and a
header with an empty body for the compound statements. This module proves that each production
reads them (`Parser.expression_truth`, `Parser.ifRest_finishes`, `Parser.routine_finishes`, ...);
`VieCompiler.Proofs.ErrorDecision` puts them together into tokens that finish everything read
before a syntax error.
-/

namespace VieCompiler

namespace Token

/-- A token of `kind` with no text on no line, as the tokens that finish a read are made of. -/
def filler (kind : Token.Kind) : Token := ⟨kind, "", 0⟩

/-- The literal `đúng`: the shortest expression, and the shortest statement. -/
def truth : Token := filler (.keyword .dung)

end Token

namespace Parser

open Token (filler truth)
open Token.Kind (expressionClosers statementClosers)

section Runs

variable {α : Type}

/-- `f` reads `ts` up to its suffix `rest`. -/
def Reads (f : (tokens : List Token) → Except ParseFailure (Parsed tokens α))
    (ts rest : List Token) : Prop :=
  ∃ p, f ts = .ok p ∧ p.rest = rest

/-- The loop `f` from `start` reads `ts` up to its suffix `rest`. -/
def ReadsFrom (f : α → (tokens : List Token) → Except ParseFailure (Continued tokens α))
    (start : α) (ts rest : List Token) : Prop :=
  ∃ p, f start ts = .ok p ∧ p.rest = rest

/-- `expect kind problem` reads `ts` up to its suffix `rest`. -/
def Expects (kind : Token.Kind) (problem : Problem) (ts rest : List Token) : Prop :=
  ∃ shorter, expect kind problem ts = .ok ⟨rest, shorter⟩

/-- The tokens `x` can be finished as a run of `reads`: some tokens `c` after them make it read
up to any tokens `k` that start with one of `closers`, when the budget `b` has room for sixteen
calls a token of `x` and `height` more. -/
def Completes (closers : List Token.Kind) (b height : Nat)
    (reads : List Token → List Token → Prop) (x : List Token) : Prop :=
  ∃ c, 16 * x.length + height ≤ b → ∀ k, Closes closers k → reads (x ++ c ++ k) k

end Runs

section Tokens

variable {closers : List Token.Kind} {k : List Token}

theorem next?_filler (kind : Token.Kind) (notEnd : kind ≠ .eof) (k : List Token) :
    next? kind (filler kind :: k) = some ⟨k, by simp⟩ := by
  simp [next?, filler, notEnd]

theorem expect_filler (kind : Token.Kind) (problem : Problem) (notEnd : kind ≠ .eof)
    (k : List Token) : expect kind problem (filler kind :: k) = .ok ⟨k, by simp⟩ := by
  rw [expect, next?_filler kind notEnd]

theorem name_filler (problem : Problem) (k : List Token) :
    name problem (filler .ident :: k) = .ok ⟨"", k, by simp⟩ := by
  simp [name, filler]

/-- No production but a primary expression looks for the literal `đúng`. -/
theorem next?_truth {kind : Token.Kind} (other : kind ≠ .keyword .dung) (k : List Token) :
    next? kind (truth :: k) = none := by
  have differs : Token.Kind.keyword .dung ≠ kind := fun same => other same.symm
  simp [next?, truth, filler, differs]

theorem Closes.filler (kind : Token.Kind) (closer : kind ∈ closers) (k : List Token) :
    Closes closers (filler kind :: k) :=
  ⟨_, k, rfl, closer⟩

/-- A token that `expect` looks for is a token it reads. -/
theorem expects_filler (kind : Token.Kind) (problem : Problem) (notEnd : kind ≠ .eof)
    (k : List Token) : Expects kind problem (filler kind :: k) k :=
  ⟨_, expect_filler kind problem notEnd k⟩

theorem name_reads_filler (problem : Problem) (k : List Token) :
    Reads (name problem) (filler .ident :: k) k :=
  ⟨_, name_filler problem k, rfl⟩

end Tokens

section Expressions

variable {b : Nat} {k : List Token}

/-- The loop of a binary level reads nothing in front of a closing token. -/
theorem binaryTail_closes (closes : Closes expressionClosers k) (level : Nat) (start : Expr) :
    ReadsFrom (binaryTail (b + 1) level) start k k := by
  unfold ReadsFrom
  refine ⟨⟨start, k, Nat.le_refl _⟩, ?_, rfl⟩
  rw [binaryTail, operator?_of_closes closes]

/-- The suffixes of an expression: none in front of a closing token. -/
theorem suffixes_closes (closes : Closes expressionClosers k) (target : Expr) :
    ReadsFrom (suffixes (b + 1)) target k k := by
  have noCall : next? .lparen k = none := next?_of_closes closes (by decide)
  have noIndex : next? .lbracket k = none := next?_of_closes closes (by decide)
  have noField : next? .dot k = none := next?_of_closes closes (by decide)
  unfold ReadsFrom
  refine ⟨⟨target, k, Nat.le_refl _⟩, ?_, rfl⟩
  rw [suffixes, noCall, noIndex, noField]

theorem primary_truth (enough : 1 ≤ b) (k : List Token) : Reads (primary b) (truth :: k) k := by
  obtain ⟨b, rfl⟩ : ∃ b', b = b' + 1 := ⟨b - 1, by omega⟩
  unfold Reads
  rw [primary]
  exact ⟨_, rfl, rfl⟩

theorem suffixed_truth (enough : 2 ≤ b) (closes : Closes expressionClosers k) :
    Reads (suffixed b) (truth :: k) k := by
  obtain ⟨b, rfl⟩ : ∃ b', b = b' + 1 := ⟨b - 1, by omega⟩
  obtain ⟨head, headRan, headRest⟩ := primary_truth (b := b) (by omega) k
  obtain ⟨whole, wholeRan, wholeRest⟩ :=
    suffixes_closes (b := b) (headRest ▸ closes) head.value
  unfold Reads
  rw [suffixed, headRan]
  simp only [bind, Except.bind, wholeRan]
  exact ⟨_, rfl, wholeRest.trans headRest⟩

theorem unary_truth (enough : 3 ≤ b) (closes : Closes expressionClosers k) :
    Reads (unary b) (truth :: k) k := by
  obtain ⟨b, rfl⟩ : ∃ b', b = b' + 1 := ⟨b - 1, by omega⟩
  unfold Reads
  rw [unary, next?_truth (by decide)]
  exact suffixed_truth (by omega) closes

/-- The literal `đúng` is an expression of every binary level, read down the levels from
`level` to the tightest. -/
theorem binary_truth (closes : Closes expressionClosers k) :
    ∀ n level b, 5 - level = n → 4 + n ≤ b → Reads (binary b level) (truth :: k) k := by
  intro n
  induction n with
  | zero =>
    intro level b tightest enough
    obtain ⟨b, rfl⟩ : ∃ b', b = b' + 1 := ⟨b - 1, by omega⟩
    have notTighter : ¬level < tightestLevel := by simp only [tightestLevel]; omega
    obtain ⟨first, firstRan, firstRest⟩ := unary_truth (b := b) (by omega) closes
    obtain ⟨whole, wholeRan, wholeRest⟩ :=
      binaryTail_closes (b := b) (firstRest ▸ closes) level first.value
    unfold Reads
    rw [binary]
    simp only [notTighter, ↓reduceIte, bind, Except.bind, firstRan, wholeRan]
    exact ⟨_, rfl, wholeRest.trans firstRest⟩
  | succ n ih =>
    intro level b looser enough
    obtain ⟨b, rfl⟩ : ∃ b', b = b' + 1 := ⟨b - 1, by omega⟩
    have tighter : level < tightestLevel := by simp only [tightestLevel]; omega
    obtain ⟨first, firstRan, firstRest⟩ := ih (level + 1) b (by omega) (by omega)
    obtain ⟨whole, wholeRan, wholeRest⟩ :=
      binaryTail_closes (b := b) (firstRest ▸ closes) level first.value
    unfold Reads
    rw [binary]
    simp only [tighter, ↓reduceIte, bind, Except.bind, firstRan, wholeRan]
    exact ⟨_, rfl, wholeRest.trans firstRest⟩

theorem assignment_truth (enough : 10 ≤ b) (closes : Closes expressionClosers k) :
    Reads (assignment b) (truth :: k) k := by
  obtain ⟨b, rfl⟩ : ∃ b', b = b' + 1 := ⟨b - 1, by omega⟩
  obtain ⟨left, leftRan, leftRest⟩ := binary_truth closes 5 0 b rfl (by omega)
  have noEquals : next? .equal left.rest = none := by
    rw [leftRest]
    exact next?_of_closes closes (by decide)
  unfold Reads
  rw [assignment, leftRan]
  simp only [bind, Except.bind, noEquals]
  exact ⟨_, rfl, leftRest⟩

theorem expression_truth (enough : 11 ≤ b) (closes : Closes expressionClosers k) :
    Reads (expression b) (truth :: k) k := by
  obtain ⟨b, rfl⟩ : ∃ b', b = b' + 1 := ⟨b - 1, by omega⟩
  unfold Reads
  rw [expression]
  exact assignment_truth (by omega) closes

/-- A list closed at once: its closing token alone. -/
theorem listTail_close {close : Token.Kind} (problem : Problem) (enough : 1 ≤ b)
    (notComma : close ≠ .comma) (notEnd : close ≠ .eof) (k : List Token) :
    Reads (listTail b close problem) (filler close :: k) k := by
  obtain ⟨b, rfl⟩ : ∃ b', b = b' + 1 := ⟨b - 1, by omega⟩
  have noComma : next? .comma (filler close :: k) = none := by
    simp [next?, filler, notComma]
  unfold Reads
  rw [listTail, noComma]
  simp only [bind, Except.bind, expect_filler close problem notEnd]
  exact ⟨_, rfl, rfl⟩

theorem arguments_close (enough : 1 ≤ b) (k : List Token) :
    Reads (arguments b) (filler .rparen :: k) k := by
  obtain ⟨b, rfl⟩ : ∃ b', b = b' + 1 := ⟨b - 1, by omega⟩
  unfold Reads
  rw [arguments, next?_filler .rparen (by decide)]
  exact ⟨_, rfl, rfl⟩

end Expressions

section Statements

variable {b : Nat} {k : List Token}

theorem statement_truth (enough : 12 ≤ b) (closes : Closes statementClosers k) :
    Reads (statement b) (truth :: k) k := by
  obtain ⟨b, rfl⟩ : ∃ b', b = b' + 1 := ⟨b - 1, by omega⟩
  obtain ⟨value, valueRan, valueRest⟩ := expression_truth (b := b) (by omega) closes.expression
  unfold Reads
  rw [statement, next?_truth (by decide), next?_truth (by decide), next?_truth (by decide),
    next?_truth (by decide), next?_truth (by decide)]
  simp only [bind, Except.bind, valueRan]
  exact ⟨_, rfl, valueRest⟩

theorem declaration_truth (enough : 13 ≤ b) (closes : Closes statementClosers k) :
    Reads (declaration b) (truth :: k) k := by
  obtain ⟨b, rfl⟩ : ∃ b', b = b' + 1 := ⟨b - 1, by omega⟩
  unfold Reads
  rw [declaration, next?_truth (by decide), next?_truth (by decide), next?_truth (by decide)]
  exact statement_truth (by omega) closes

/-- The parameter list closed at once. -/
theorem moreParameters_close (k : List Token) : Reads moreParameters (filler .rparen :: k) k := by
  have noComma : next? .comma (filler .rparen :: k) = none := by simp [next?, filler]
  unfold Reads
  rw [moreParameters, noComma]
  simp only [bind, Except.bind, expect_filler .rparen .parametersClose (by decide)]
  exact ⟨_, rfl, rfl⟩

theorem parameters_close (budget : Nat) (k : List Token) :
    Reads (parameters budget) (filler .rparen :: k) k := by
  unfold Reads parameters
  rw [next?_filler .rparen (by decide)]
  exact ⟨_, rfl, rfl⟩

/-- A block closed at once. -/
theorem blockRest_close (enough : 1 ≤ b) (k : List Token) :
    Reads (blockRest b) (filler .rbrace :: k) k := by
  obtain ⟨b, rfl⟩ : ∃ b', b = b' + 1 := ⟨b - 1, by omega⟩
  have closing : atCloseOrEnd .rbrace (filler .rbrace :: k) = true := by
    simp [atCloseOrEnd, next?, filler]
  unfold Reads
  rw [blockRest, closing]
  simp only [↓reduceIte, bind, Except.bind, expect_filler .rbrace .blockClose (by decide)]
  exact ⟨_, rfl, rfl⟩

/-- A class body closed at once. -/
theorem classBody_close (enough : 1 ≤ b) (k : List Token) :
    Reads (classBody b) (filler .rbrace :: k) k := by
  obtain ⟨b, rfl⟩ : ∃ b', b = b' + 1 := ⟨b - 1, by omega⟩
  have closing : atCloseOrEnd .rbrace (filler .rbrace :: k) = true := by
    simp [atCloseOrEnd, next?, filler]
  unfold Reads
  rw [classBody, closing]
  simp only [↓reduceIte, bind, Except.bind, expect_filler .rbrace .classClose (by decide)]
  exact ⟨_, rfl, rfl⟩

/-- The shortest conditional, or loop, after its keyword: `(đúng) đúng`. -/
theorem conditional_finishes (enough : 14 ≤ b) (closes : Closes statementClosers k) :
    Reads (ifRest b) (filler .lparen :: truth :: filler .rparen :: truth :: k) k ∧
      Reads (whileRest b) (filler .lparen :: truth :: filler .rparen :: truth :: k) k := by
  obtain ⟨b, rfl⟩ : ∃ b', b = b' + 1 := ⟨b - 1, by omega⟩
  obtain ⟨test, testRan, testRest⟩ :=
    expression_truth (b := b) (by omega) (Closes.filler .rparen (by decide) (truth :: k))
  obtain ⟨body, bodyRan, bodyRest⟩ := statement_truth (b := b) (by omega) closes
  have noElse : next? (.keyword .nguocLai) body.rest = none := by
    rw [bodyRest]
    exact next?_of_closes closes (by decide)
  have noElseIf : next? (.keyword .conNeu) body.rest = none := by
    rw [bodyRest]
    exact next?_of_closes closes (by decide)
  obtain ⟨closed, closeRan⟩ : Expects .rparen .conditionClose test.rest (truth :: k) :=
    by rw [testRest]; exact expects_filler .rparen .conditionClose (by decide) (truth :: k)
  constructor
  · unfold Reads
    rw [ifRest]
    simp only [expect_filler .lparen .ifOpen (by decide), bind, Except.bind, testRan, closeRan, bodyRan,
      noElse, noElseIf]
    exact ⟨_, rfl, bodyRest⟩
  · unfold Reads
    rw [whileRest]
    simp only [expect_filler .lparen .whileOpen (by decide), bind, Except.bind, testRan, closeRan,
      bodyRan]
    exact ⟨_, rfl, bodyRest⟩

/-- The shortest loop over a collection, after its keyword: `(x trong đúng) đúng`. -/
theorem forEachRest_finishes (enough : 14 ≤ b) (closes : Closes statementClosers k) :
    Reads (forEachRest b) (filler .lparen :: filler .ident :: filler (.keyword .trong) :: truth ::
      filler .rparen :: truth :: k) k := by
  obtain ⟨b, rfl⟩ : ∃ b', b = b' + 1 := ⟨b - 1, by omega⟩
  obtain ⟨collection, collectionRan, collectionRest⟩ :=
    expression_truth (b := b) (by omega) (Closes.filler .rparen (by decide) (truth :: k))
  obtain ⟨body, bodyRan, bodyRest⟩ := statement_truth (b := b) (by omega) closes
  obtain ⟨closed, closeRan⟩ : Expects .rparen .loopHeaderClose collection.rest (truth :: k) :=
    by rw [collectionRest]; exact expects_filler .rparen .loopHeaderClose (by decide) (truth :: k)
  have nonzero : b ≠ 0 := by omega
  unfold Reads
  rw [forEachRest]
  simp only [expect_filler .lparen .forEachOpen (by decide), nonzero, ↓reduceIte, name_filler,
    expect_filler (.keyword .trong) .loopIn (by decide), bind, Except.bind, collectionRan, closeRan,
      bodyRan]
  exact ⟨_, rfl, bodyRest⟩

/-- The shortest routine after its keyword: a name, no parameters, an empty body. -/
theorem routine_finishes (enough : 14 ≤ b) (kind : RoutineKind) (k : List Token) :
    Reads (routine b kind) (filler .ident :: filler .lparen :: filler .rparen :: filler .lbrace ::
      filler .rbrace :: k) k := by
  obtain ⟨b, rfl⟩ : ∃ b', b = b' + 1 := ⟨b - 1, by omega⟩
  obtain ⟨params, paramsRan, paramsRest⟩ :=
    parameters_close b (filler .lbrace :: filler .rbrace :: k)
  obtain ⟨body, bodyRan, bodyRest⟩ := blockRest_close (b := b) (by omega) k
  obtain ⟨braced, braceRan⟩ : Expects .lbrace (.bodyOpen kind) params.rest (filler .rbrace :: k) :=
    by rw [paramsRest]; exact expects_filler .lbrace (.bodyOpen kind) (by decide) _
  unfold Reads
  rw [routine]
  simp only [name_filler, expect_filler .lparen (.routineOpen kind) (by decide), bind, Except.bind,
    paramsRan, braceRan, bodyRan]
  exact ⟨_, rfl, bodyRest⟩

/-- The shortest class after its keyword: a name and an empty body. -/
theorem classDecl_finishes (enough : 14 ≤ b) (k : List Token) :
    Reads (classDecl b) (filler .ident :: filler .lbrace :: filler .rbrace :: k) k := by
  obtain ⟨b, rfl⟩ : ∃ b', b = b' + 1 := ⟨b - 1, by omega⟩
  obtain ⟨methods, methodsRan, methodsRest⟩ := classBody_close (b := b + 1) (by omega) k
  have nonzero : b ≠ 0 := by omega
  unfold Reads
  rw [classDecl]
  simp only [nonzero, ↓reduceIte, name_filler, expect_filler .lbrace .classOpen (by decide), bind,
    Except.bind, methodsRan]
  exact ⟨_, rfl, methodsRest⟩

/-- The shortest variable declaration after `cho`: `x = đúng`. -/
theorem variableDecl_finishes (enough : 14 ≤ b) (closes : Closes statementClosers k) :
    Reads (variableDecl b) (filler .ident :: filler .equal :: truth :: k) k := by
  obtain ⟨b, rfl⟩ : ∃ b', b = b' + 1 := ⟨b - 1, by omega⟩
  obtain ⟨value, valueRan, valueRest⟩ :=
    expression_truth (b := b) (by omega) closes.expression
  unfold Reads
  rw [variableDecl]
  simp only [name_filler, expect_filler .equal .declarationEquals (by decide), bind, Except.bind,
    valueRan]
  exact ⟨_, rfl, valueRest⟩

end Statements

end Parser

end VieCompiler
