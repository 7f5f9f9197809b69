import VieCompiler.Number.Reading
import VieCompiler.Syntax.Ast
import VieCompiler.Syntax.ParseError

/-!
# The parser

`Parser.parse` reads a program from its tokens by recursive descent, one function per
production of the grammar, and stops at the first token it cannot accept. The end-of-input
token is never consumed, so every production sees it as the token where the input ends.

Each production returns what it read with the tokens after it, and these are always fewer
than the tokens it started with: every production consumes at least one token. That is what
makes the loops of the grammar (statements of a block, operands of a left-associative
operator, arguments, postfix forms) end.

Nesting is bounded: every production hands its sub-productions one unit less of a *depth
budget*, and a production called with none left fails with `ParseFailure.tooDeep`. Loops
keep the budget of their production. A name that is read as an identifier node (a class
name, a loop variable, a parameter, a field after a dot, the class of a construction) and the
value of a `trả_về` are read one unit further down; a routine's name is read at its own
depth, as a token it expects. Parsing thus ends, measured by the budget first and the number of
tokens left second.

A number token stands for the double that `float` reads from its text (`Binary64.ofText?`).
A text that is no number fails with `ParseFailure.notANumber` once the token is consumed; the
lexer's number tokens are runs of digits, which always read.
-/

namespace VieCompiler

namespace Parser

/-- What a production read from `tokens`, and the tokens after it, which are fewer. -/
structure Parsed (tokens : List Token) (α : Type) where
  /-- What was read. -/
  value : α
  /-- The tokens after it. -/
  rest : List Token
  /-- At least one token was consumed. -/
  shorter : rest.length < tokens.length

/-- What a loop read from `tokens`, and the tokens after it, which are no more. -/
structure Continued (tokens : List Token) (α : Type) where
  /-- What was read. -/
  value : α
  /-- The tokens after it. -/
  rest : List Token
  /-- No token was added. -/
  noLonger : rest.length ≤ tokens.length

/-- A result of a production on a suffix of `tokens`, seen as one on `tokens`. -/
def Parsed.extend {tail tokens : List Token} {α : Type} (p : Parsed tail α)
    (h : tail.length < tokens.length) : Parsed tokens α :=
  ⟨p.value, p.rest, Nat.lt_trans p.shorter h⟩

/-- The result with its value changed by `f`. -/
def Parsed.map {tokens : List Token} {α β : Type} (f : α → β) (p : Parsed tokens α) :
    Parsed tokens β :=
  ⟨f p.value, p.rest, p.shorter⟩

/-- The token that stands for the end of input once the tokens run out. -/
def endOfInput : Token := ⟨.eof, "", 0⟩

/-- The token the parser is at. -/
def peek : List Token → Token
  | t :: _ => t
  | [] => endOfInput

/-- Whether the parser is at the end of the input. -/
def atEnd (tokens : List Token) : Bool :=
  (peek tokens).kind == .eof

/-- The tokens after the next one, when the next one is of `kind`; the end of input is
never consumed. -/
def next? (kind : Token.Kind) :
    (tokens : List Token) → Option {rest : List Token // rest.length < tokens.length}
  | t :: rest => if t.kind = kind ∧ t.kind ≠ .eof then some ⟨rest, by simp⟩ else none
  | [] => none

/-- Whether the parser is at a closing token of `kind` or at the end of the input, which
is where a list of statements stops. -/
def atCloseOrEnd (kind : Token.Kind) (tokens : List Token) : Bool :=
  (next? kind tokens).isSome || atEnd tokens

/-- The syntax error `problem` at the current token. -/
def fail {α : Type} (problem : Problem) (tokens : List Token) : Except ParseFailure α :=
  .error (.error ⟨problem, peek tokens⟩)

/-- Consumes a token of `kind`, or fails with `problem`. -/
def expect (kind : Token.Kind) (problem : Problem) (tokens : List Token) :
    Except ParseFailure {rest : List Token // rest.length < tokens.length} :=
  match next? kind tokens with
  | some rest => .ok rest
  | none => fail problem tokens

/-- Consumes a name, or fails with `problem`. -/
def name (problem : Problem) : (tokens : List Token) → Except ParseFailure (Parsed tokens String)
  | t :: rest =>
    if t.kind = .ident then .ok ⟨t.lexeme, rest, by simp⟩ else fail problem (t :: rest)
  | [] => fail problem []

/-- The last token of `tokens` before `rest`, its suffix. -/
def lastBefore (tokens rest : List Token) : Token :=
  (tokens[tokens.length - rest.length - 1]?).getD endOfInput

/-- The binary operators of each precedence level, from the loosest, 0, to the tightest,
5, with the token kinds that write them. -/
def levelOperators : Nat → List (Token.Kind × BinaryOp)
  | 0 => [(.keyword .hoac, .logicalOr)]
  | 1 => [(.keyword .va, .logicalAnd)]
  | 2 => [(.eqEq, .equal), (.notEq, .notEqual)]
  | 3 => [(.gt, .greater), (.ge, .greaterEqual), (.lt, .less), (.le, .lessEqual)]
  | 4 => [(.plus, .add), (.minus, .sub)]
  | _ => [(.star, .mul), (.slash, .div)]

/-- The tightest binary precedence level; its operands are unary expressions. -/
def tightestLevel : Nat := 5

/-- The operator of `level` that the tokens start with, and the tokens after it. -/
def operator? (level : Nat) :
    (tokens : List Token) → Option (BinaryOp × {rest : List Token // rest.length < tokens.length})
  | t :: rest =>
    if t.kind = .eof then none
    else ((levelOperators level).find? (·.1 == t.kind)).map fun entry =>
      (entry.2, ⟨rest, by simp⟩)
  | [] => none

/-- Parameter names separated by commas, and the closing parenthesis after them. -/
def moreParameters (tokens : List Token) : Except ParseFailure (Parsed tokens (List String)) :=
  match next? .comma tokens with
  | some ⟨tail, h⟩ => do
    let first ← name .identifier tail
    have := first.shorter
    let more ← moreParameters first.rest
    return ⟨first.value :: more.value, more.rest, by have := more.shorter; omega⟩
  | none => do
    let ⟨rest, h⟩ ← expect .rparen .parametersClose tokens
    return ⟨[], rest, h⟩
termination_by tokens.length

/-- The parameters of a routine, after its opening parenthesis, up to and including the
closing one, read with `budget` units of depth left. Each parameter is read as an identifier
node, one unit further down, so a first parameter needs a unit to spare. -/
def parameters (budget : Nat) (tokens : List Token) :
    Except ParseFailure (Parsed tokens (List String)) :=
  match next? .rparen tokens with
  | some ⟨rest, h⟩ => .ok ⟨[], rest, h⟩
  | none => do
    if budget = 0 then throw .tooDeep
    let first ← name .identifier tokens
    let more ← moreParameters first.rest
    return ⟨first.value :: more.value, more.rest, Nat.lt_trans more.shorter first.shorter⟩

mutual

/-- An expression. -/
def expression : Nat → (tokens : List Token) → Except ParseFailure (Parsed tokens Expr)
  | 0, _ => .error .tooDeep
  | b + 1, tokens => assignment b tokens
termination_by b tokens => (b, tokens.length)

/-- An assignment, which groups to the right, or else an expression of the loosest binary
level. The target is checked once the assigned value has been read, and an invalid one is
reported at its last token. -/
def assignment : Nat → (tokens : List Token) → Except ParseFailure (Parsed tokens Expr)
  | 0, _ => .error .tooDeep
  | b + 1, tokens => do
    let left ← binary b 0 tokens
    match next? .equal left.rest with
    | some ⟨afterEquals, h⟩ =>
      let value ← assignment b afterEquals
      if left.value.isTarget then
        return ⟨.assign left.value value.value, value.rest, by
          have := left.shorter; have := value.shorter; omega⟩
      else .error (.error ⟨.invalidTarget, lastBefore tokens left.rest⟩)
    | none => return left
termination_by b tokens => (b, tokens.length)

/-- An expression of a binary precedence level: operands of the next tighter level joined
by the level's operators, grouped to the left. -/
def binary : Nat → Nat → (tokens : List Token) → Except ParseFailure (Parsed tokens Expr)
  | 0, _, _ => .error .tooDeep
  | b + 1, level, tokens => do
    let first ← if level < tightestLevel then binary b (level + 1) tokens else unary b tokens
    have := first.shorter
    let whole ← binaryTail (b + 1) level first.value first.rest
    return ⟨whole.value, whole.rest, by have := whole.noLonger; omega⟩
termination_by b _ tokens => (b, tokens.length)

/-- The operators and operands of a binary level that follow the operand `left`. -/
def binaryTail : Nat → Nat → Expr → (tokens : List Token) →
    Except ParseFailure (Continued tokens Expr)
  | 0, _, _, _ => .error .tooDeep
  | b + 1, level, left, tokens =>
    match operator? level tokens with
    | some (op, ⟨tail, h⟩) => do
      let right ← if level < tightestLevel then binary b (level + 1) tail else unary b tail
      have := right.shorter
      let whole ← binaryTail (b + 1) level (.binary left op right.value) right.rest
      return ⟨whole.value, whole.rest, by have := whole.noLonger; omega⟩
    | none => .ok ⟨left, tokens, Nat.le_refl _⟩
termination_by b _ _ tokens => (b, tokens.length)

/-- A unary expression: a minus, read as subtraction from zero, or a postfix expression. -/
def unary : Nat → (tokens : List Token) → Except ParseFailure (Parsed tokens Expr)
  | 0, _ => .error .tooDeep
  | b + 1, tokens =>
    match next? .minus tokens with
    | some ⟨tail, h⟩ => do
      return ((← unary b tail).map fun operand => .binary (.number .zero) .sub operand).extend h
    | none => suffixed b tokens
termination_by b tokens => (b, tokens.length)

/-- A primary expression followed by its suffixes: calls, index accesses and field accesses. -/
def suffixed : Nat → (tokens : List Token) → Except ParseFailure (Parsed tokens Expr)
  | 0, _ => .error .tooDeep
  | b + 1, tokens => do
    let head ← primary b tokens
    have := head.shorter
    let whole ← suffixes (b + 1) head.value head.rest
    return ⟨whole.value, whole.rest, by have := whole.noLonger; omega⟩
termination_by b tokens => (b, tokens.length)

/-- The calls, index accesses and field accesses that follow `target`. -/
def suffixes : Nat → Expr → (tokens : List Token) →
    Except ParseFailure (Continued tokens Expr)
  | 0, _, _ => .error .tooDeep
  | b + 1, target, tokens =>
    match next? .lparen tokens with
    | some ⟨tail, h⟩ => do
      let args ← arguments b tail
      have := args.shorter
      let whole ← suffixes (b + 1) (.call target args.value) args.rest
      return ⟨whole.value, whole.rest, by have := whole.noLonger; omega⟩
    | none =>
    match next? .lbracket tokens with
    | some ⟨tail, h⟩ => do
      let key ← expression b tail
      let ⟨afterClose, h'⟩ ← expect .rbracket .indexClose key.rest
      have := key.shorter
      let whole ← suffixes (b + 1) (.index target key.value) afterClose
      return ⟨whole.value, whole.rest, by have := whole.noLonger; omega⟩
    | none =>
    match next? .dot tokens with
    | some ⟨tail, h⟩ => do
      if b = 0 then throw .tooDeep
      let field ← name .identifier tail
      have := field.shorter
      let whole ← suffixes (b + 1) (.field target field.value) field.rest
      return ⟨whole.value, whole.rest, by have := whole.noLonger; omega⟩
    | none => .ok ⟨target, tokens, Nat.le_refl _⟩
termination_by b _ tokens => (b, tokens.length)

/-- The arguments of a call, after its opening parenthesis, up to and including the closing
one. -/
def arguments : Nat → (tokens : List Token) → Except ParseFailure (Parsed tokens (List Expr))
  | 0, _ => .error .tooDeep
  | b + 1, tokens =>
    match next? .rparen tokens with
    | some ⟨rest, h⟩ => .ok ⟨[], rest, h⟩
    | none => do
      let first ← expression b tokens
      have := first.shorter
      let more ← listTail (b + 1) .rparen .argumentsClose first.rest
      return ⟨first.value :: more.value, more.rest, by have := more.shorter; omega⟩
termination_by b tokens => (b, tokens.length)

/-- Further expressions of a list, each after a comma, and the closing token of kind
`close`, which fails with `problem` when missing. -/
def listTail : Nat → Token.Kind → Problem → (tokens : List Token) → Except ParseFailure (Parsed tokens (List Expr))
  | 0, _, _, _ => .error .tooDeep
  | b + 1, close, problem, tokens =>
    match next? .comma tokens with
    | some ⟨tail, h⟩ => do
      let item ← expression b tail
      have := item.shorter
      let more ← listTail (b + 1) close problem item.rest
      return ⟨item.value :: more.value, more.rest, by have := more.shorter; omega⟩
    | none => do
      let ⟨rest, h⟩ ← expect close problem tokens
      return ⟨[], rest, h⟩
termination_by b _ _ tokens => (b, tokens.length)

/-- A primary expression: a literal, a name, `this`, an array, a construction with `mới`,
or an expression in parentheses. -/
def primary : Nat → (tokens : List Token) → Except ParseFailure (Parsed tokens Expr)
  | 0, _ => .error .tooDeep
  | b + 1, tokens =>
    match tokens with
    | [] => fail .expression []
    | t :: rest =>
      have h : rest.length < (t :: rest).length := by simp
      match t.kind with
      | .keyword .sai => .ok ⟨.bool false, rest, h⟩
      | .keyword .dung => .ok ⟨.bool true, rest, h⟩
      | .keyword .rong => .ok ⟨.null, rest, h⟩
      | .number =>
        match Binary64.ofText? t.lexeme with
        | some value => .ok ⟨.number value, rest, h⟩
        | none => .error (.notANumber t)
      | .string => .ok ⟨.string t.lexeme, rest, h⟩
      | .keyword .self => .ok ⟨.self, rest, h⟩
      | .ident => .ok ⟨.ident t.lexeme, rest, h⟩
      | .lbracket =>
        match next? .rbracket rest with
        | some ⟨afterClose, h'⟩ => .ok ⟨.array [], afterClose, by omega⟩
        | none => do
          let first ← expression b rest
          have := first.shorter
          let more ← listTail (b + 1) .rbracket .arrayClose first.rest
          return ⟨.array (first.value :: more.value), more.rest, by have := more.shorter; omega⟩
      | .keyword .moi => do
        if b = 0 then throw .tooDeep
        let className ← name .identifier rest
        let ⟨afterOpen, h'⟩ ← expect .lparen .constructorOpen className.rest
        let args ← arguments b afterOpen
        return ⟨.new className.value args.value, args.rest, by
          have := className.shorter; have := args.shorter; omega⟩
      | .lparen => do
        let inner ← expression b rest
        let ⟨afterClose, h'⟩ ← expect .rparen .groupClose inner.rest
        return ⟨inner.value, afterClose, by have := inner.shorter; omega⟩
      | _ => fail .expression (t :: rest)
termination_by b tokens => (b, tokens.length)

end

/-- A variable declaration, after `cho`. -/
def variableDecl : Nat → (tokens : List Token) → Except ParseFailure (Parsed tokens Stmt)
  | 0, _ => .error .tooDeep
  | b + 1, tokens => do
    let n ← name .variableName tokens
    let ⟨afterEquals, h⟩ ← expect .equal .declarationEquals n.rest
    let value ← expression b afterEquals
    return ⟨.letDecl n.value value.value, value.rest, by
      have := n.shorter; have := value.shorter; omega⟩

mutual

/-- A declaration, or else a statement. -/
def declaration : Nat → (tokens : List Token) → Except ParseFailure (Parsed tokens Stmt)
  | 0, _ => .error .tooDeep
  | b + 1, tokens =>
    match next? (.keyword .cho) tokens with
    | some ⟨tail, h⟩ => do return (← variableDecl b tail).extend h
    | none =>
    match next? (.keyword .ham) tokens with
    | some ⟨tail, h⟩ => do return ((← routine b .function tail).map .function).extend h
    | none =>
    match next? (.keyword .lop) tokens with
    | some ⟨tail, h⟩ => do return (← classDecl b tail).extend h
    | none => statement b tokens
termination_by b tokens => (b, tokens.length)

/-- A function or method, after `hàm`. -/
def routine : Nat → RoutineKind → (tokens : List Token) → Except ParseFailure (Parsed tokens (FunctionDef Stmt))
  | 0, _, _ => .error .tooDeep
  | b + 1, kind, tokens => do
    let n ← name (.routineName kind) tokens
    let ⟨afterOpen, h⟩ ← expect .lparen (.routineOpen kind) n.rest
    let params ← parameters b afterOpen
    let ⟨afterBrace, h'⟩ ← expect .lbrace (.bodyOpen kind) params.rest
    let body ← blockRest b afterBrace
    return ⟨⟨n.value, params.value, body.value⟩, body.rest, by
      have := n.shorter; have := params.shorter; have := body.shorter; omega⟩
termination_by b _ tokens => (b, tokens.length)

/-- A class, after `lớp`. -/
def classDecl : Nat → (tokens : List Token) → Except ParseFailure (Parsed tokens Stmt)
  | 0, _ => .error .tooDeep
  | b + 1, tokens => do
    if b = 0 then throw .tooDeep
    let n ← name .identifier tokens
    let ⟨afterBrace, h⟩ ← expect .lbrace .classOpen n.rest
    have := n.shorter
    let methods ← classBody (b + 1) afterBrace
    return ⟨.classDecl n.value methods.value, methods.rest, by
      have := methods.shorter; omega⟩
termination_by b tokens => (b, tokens.length)

/-- The methods of a class body, up to and including its closing brace. -/
def classBody : Nat → (tokens : List Token) → Except ParseFailure (Parsed tokens (List (FunctionDef Stmt)))
  | 0, _ => .error .tooDeep
  | b + 1, tokens =>
    if atCloseOrEnd .rbrace tokens then do
      let ⟨rest, h⟩ ← expect .rbrace .classClose tokens
      return ⟨[], rest, h⟩
    else
      match next? (.keyword .ham) tokens with
      | some ⟨tail, h⟩ => do
        let method ← routine b .method tail
        have := method.shorter
        let more ← classBody (b + 1) method.rest
        return ⟨method.value :: more.value, more.rest, by have := more.shorter; omega⟩
      | none => fail .methodsOnly tokens
termination_by b tokens => (b, tokens.length)

/-- A statement. -/
def statement : Nat → (tokens : List Token) → Except ParseFailure (Parsed tokens Stmt)
  | 0, _ => .error .tooDeep
  | b + 1, tokens =>
    match next? (.keyword .neu) tokens with
    | some ⟨tail, h⟩ => do return (← ifRest b tail).extend h
    | none =>
    match next? (.keyword .khi) tokens with
    | some ⟨tail, h⟩ => do return (← whileRest b tail).extend h
    | none =>
    match next? (.keyword .voiMoi) tokens with
    | some ⟨tail, h⟩ => do return (← forEachRest b tail).extend h
    | none =>
    match next? .lbrace tokens with
    | some ⟨tail, h⟩ => do return ((← blockRest b tail).map .block).extend h
    | none =>
    match next? (.keyword .traVe) tokens with
    | some ⟨tail, h⟩ =>
      if atCloseOrEnd .rbrace tail then .ok ⟨.ret .null, tail, h⟩
      else match b with
        | 0 => .error .tooDeep
        | b + 1 => do return ((← expression b tail).map .ret).extend h
    | none => do return (← expression b tokens).map .expr
termination_by b tokens => (b, tokens.length)

/-- The statements of a block, after its opening brace, up to and including the closing
one. -/
def blockRest : Nat → (tokens : List Token) → Except ParseFailure (Parsed tokens (List Stmt))
  | 0, _ => .error .tooDeep
  | b + 1, tokens =>
    if atCloseOrEnd .rbrace tokens then do
      let ⟨rest, h⟩ ← expect .rbrace .blockClose tokens
      return ⟨[], rest, h⟩
    else do
      let first ← declaration b tokens
      have := first.shorter
      let more ← blockRest (b + 1) first.rest
      return ⟨first.value :: more.value, more.rest, by have := more.shorter; omega⟩
termination_by b tokens => (b, tokens.length)

/-- A conditional, after `nếu`. An alternative follows `ngược_lại`; `ngược_lại nếu` and
`còn_nếu` both continue with another conditional. -/
def ifRest : Nat → (tokens : List Token) → Except ParseFailure (Parsed tokens Stmt)
  | 0, _ => .error .tooDeep
  | b + 1, tokens => do
    let ⟨afterOpen, h⟩ ← expect .lparen .ifOpen tokens
    let test ← expression b afterOpen
    let ⟨afterClose, h'⟩ ← expect .rparen .conditionClose test.rest
    let consequent ← statement b afterClose
    have := test.shorter
    have := consequent.shorter
    match next? (.keyword .nguocLai) consequent.rest with
    | some ⟨afterElse, h''⟩ =>
      match next? (.keyword .neu) afterElse with
      | some ⟨afterIf, h'''⟩ =>
        let alternate ← ifRest b afterIf
        return ⟨.ifElse test.value consequent.value (some alternate.value), alternate.rest, by
          have := alternate.shorter; omega⟩
      | none =>
        let alternate ← statement b afterElse
        return ⟨.ifElse test.value consequent.value (some alternate.value), alternate.rest, by
          have := alternate.shorter; omega⟩
    | none =>
      match next? (.keyword .conNeu) consequent.rest with
      | some ⟨afterIf, h''⟩ =>
        let alternate ← ifRest b afterIf
        return ⟨.ifElse test.value consequent.value (some alternate.value), alternate.rest, by
          have := alternate.shorter; omega⟩
      | none => return ⟨.ifElse test.value consequent.value none, consequent.rest, by omega⟩
termination_by b tokens => (b, tokens.length)

/-- A while loop, after `khi`. -/
def whileRest : Nat → (tokens : List Token) → Except ParseFailure (Parsed tokens Stmt)
  | 0, _ => .error .tooDeep
  | b + 1, tokens => do
    let ⟨afterOpen, h⟩ ← expect .lparen .whileOpen tokens
    let test ← expression b afterOpen
    let ⟨afterClose, h'⟩ ← expect .rparen .conditionClose test.rest
    let body ← statement b afterClose
    return ⟨.whileLoop test.value body.value, body.rest, by
      have := test.shorter; have := body.shorter; omega⟩
termination_by b tokens => (b, tokens.length)

/-- A loop over a collection, after `với_mỗi`. -/
def forEachRest : Nat → (tokens : List Token) → Except ParseFailure (Parsed tokens Stmt)
  | 0, _ => .error .tooDeep
  | b + 1, tokens => do
    let ⟨afterOpen, h⟩ ← expect .lparen .forEachOpen tokens
    if b = 0 then throw .tooDeep
    let element ← name .identifier afterOpen
    let ⟨afterIn, h'⟩ ← expect (.keyword .trong) .loopIn element.rest
    let collection ← expression b afterIn
    let ⟨afterClose, h''⟩ ← expect .rparen .loopHeaderClose collection.rest
    let body ← statement b afterClose
    return ⟨.forEach element.value collection.value body.value, body.rest, by
      have := element.shorter; have := collection.shorter; have := body.shorter; omega⟩
termination_by b tokens => (b, tokens.length)

end

/-- Declarations up to the end of the input. -/
def topLevel (budget : Nat) (tokens : List Token) : Except ParseFailure (List Stmt) :=
  if atEnd tokens then .ok []
  else do
    let first ← declaration budget tokens
    have := first.shorter
    let more ← topLevel budget first.rest
    return first.value :: more
termination_by tokens.length

/-- The program that the tokens spell, or why there is none, with `budget` for each
top-level declaration. -/
def parse (budget : Nat) (tokens : List Token) : Except ParseFailure Program :=
  (topLevel budget tokens).map Program.mk

/-! ### Error recovery

A declaration that fails skips ahead to where the next one could start before it passes its
error on, and so does every declaration around it. Only the first error is reported, so where
the skip ends changes nothing that the parser returns. What the skip reads is modelled here by
position, as the parser's cursor reads it: each read of a token at or past the end of the list,
or before its start, makes the result `none`. -/

/-- The kinds of the tokens in front of which error recovery stops: those that open a class,
a function, a variable, a conditional, a loop or a return. -/
def recoveryKinds : List Token.Kind :=
  [.keyword .lop, .keyword .ham, .keyword .cho, .keyword .neu, .keyword .khi, .keyword .voiMoi,
    .keyword .traVe]

/-- The token just before `position`, which the cursor reads as the one it has passed; there
is none before the first position. -/
def tokenBefore? (tokens : List Token) : Nat → Option Token
  | 0 => none
  | position + 1 => tokens[position]?

/-- The cursor's step from `position`: past the token there, unless that token ends the input.
The step reads that token and then the token before its new position. -/
def stepFrom? (tokens : List Token) (position : Nat) : Option Nat := do
  let t ← tokens[position]?
  let next := if t.kind = .eof then position else position + 1
  let _ ← tokenBefore? tokens next
  return next

/-- The scan of error recovery from `position`: it stops at the end of input, just past a
closing brace, or in front of a token of `recoveryKinds`, and otherwise steps on. -/
def resumeFrom? (tokens : List Token) (position : Nat) : Option Nat :=
  match found : tokens[position]? with
  | none => none
  | some t =>
    if t.kind = .eof then some position
    else
      match tokenBefore? tokens position with
      | none => none
      | some passed =>
        if passed.kind = .rbrace ∨ t.kind ∈ recoveryKinds then some position
        else
          have : tokens.length - (position + 1) < tokens.length - position := by
            have := (List.getElem?_eq_some_iff.mp found).1
            omega
          -- the step past `t`, which then reads `t` as the token passed
          (tokenBefore? tokens (position + 1)).bind fun _ => resumeFrom? tokens (position + 1)
termination_by tokens.length - position

/-- Where reading would resume after a declaration failed with the cursor at `position`: one
step, then the scan. -/
def recover? (tokens : List Token) (position : Nat) : Option Nat :=
  (stepFrom? tokens position).bind (resumeFrom? tokens)

end Parser

end VieCompiler
