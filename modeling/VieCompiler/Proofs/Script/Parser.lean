import VieCompiler.Proofs.Script.Syntax

/-!
# Reading a script

`Script.parse` reads a script by recursive descent, one function per production of the
syntactic grammar, for the part of the language that `Syntax` gives trees to. What lies
outside that part makes it fail, so whenever it reads a tree, the grammar gives the text that
tree: the model never reads a text otherwise than the language does.

The grammar's own rules are kept where generated code meets them. An `else` belongs to the
nearest `if` that has none, as the production `if (e) s else s` read greedily gives. A
statement in the body of a loop or of a conditional is no declaration. An expression statement
ends with a semicolon, since no semicolon is inserted; a `return` stands only in a function
body, with its value on its own line; no line break may stand before the parenthesis or the
arrow of `async () =>`. The target of an assignment is a name or a member.

Every production reads at least one token and returns the rest, a proper suffix of its input.
Productions that read nothing first call others on the same tokens only down the precedence
chain, so recursion ends on the number of tokens, weighted by the position in that chain.
-/

namespace VieCompiler.Script

/-- What a production read from `tokens`, and the tokens after it, a proper suffix. -/
structure Parsed (tokens : List Token) (α : Type) where
  /-- What was read. -/
  value : α
  /-- The tokens after it. -/
  rest : List Token
  /-- The rest is what `tokens` ends with. -/
  suffix : rest <:+ tokens
  /-- At least one token was read. -/
  shorter : rest.length < tokens.length

/-- What a loop read from `tokens`, possibly nothing, and the tokens after it. -/
structure Continued (tokens : List Token) (α : Type) where
  /-- What was read. -/
  value : α
  /-- The tokens after it. -/
  rest : List Token
  /-- The rest is what `tokens` ends with. -/
  suffix : rest <:+ tokens

namespace Parsed

variable {tokens : List Token} {α β : Type}

/-- The result with its value changed by `f`. -/
def map (f : α → β) (p : Parsed tokens α) : Parsed tokens β :=
  ⟨f p.value, p.rest, p.suffix, p.shorter⟩

/-- `p`, then `q` from where `p` stopped; the value is that of `q`. -/
def andThen (p : Parsed tokens α) (q : Parsed p.rest β) : Parsed tokens β :=
  ⟨q.value, q.rest, q.suffix.trans p.suffix, Nat.lt_trans q.shorter p.shorter⟩

/-- `p`, then the loop `q` from where `p` stopped; the value is that of `q`. -/
def extend (p : Parsed tokens α) (q : Continued p.rest β) : Parsed tokens β :=
  ⟨q.value, q.rest, q.suffix.trans p.suffix, Nat.lt_of_le_of_lt q.suffix.length_le p.shorter⟩

/-- The result seen as that of a loop. -/
def toContinued (p : Parsed tokens α) : Continued tokens α :=
  ⟨p.value, p.rest, p.suffix⟩

end Parsed

/-- Reads one token, which `read` turns into a value. -/
def single {α : Type} (read : Token → Option α) : (tokens : List Token) → Option (Parsed tokens α)
  | t :: rest => (read t).map fun v => ⟨v, rest, ⟨[t], rfl⟩, by simp⟩
  | [] => none

/-- Reads a token of `kind`. -/
def accept (kind : Token.Kind) : (tokens : List Token) → Option (Parsed tokens Unit) :=
  single fun t => if t.kind = kind then some () else none

/-- Reads a name that is no reserved word, as a binding or a reference. -/
def identifier : (tokens : List Token) → Option (Parsed tokens String) :=
  single fun t => match t.kind with
    | .name text => if isReserved text then none else some text
    | _ => none

/-- Reads any name, as the name of a property or of a method. -/
def propertyName : (tokens : List Token) → Option (Parsed tokens String) :=
  single fun t => match t.kind with
    | .name text => some text
    | _ => none

/-- Reads one of the operators `ops`. -/
def operator (ops : List String) : (tokens : List Token) → Option (Parsed tokens String) :=
  single fun t => if t.text ∈ ops then some t.text else none

/-- The expression that a single token stands for: a literal, `this` or a name. -/
def atomOf : Token.Kind → Option Expr
  | .number value => some (.number value)
  | .string value => some (.string value)
  | .name text =>
    if text = "this" then some .this
    else if text = "null" then some .null
    else if text = "true" then some (.bool true)
    else if text = "false" then some (.bool false)
    else if isReserved text then none
    else some (.name text)
  | .punctuator _ => none

/-- Reads an expression of a single token. -/
def atom : (tokens : List Token) → Option (Parsed tokens Expr) :=
  single fun t => atomOf t.kind

/-- Reads the arrow `=>` from `rest` when `tokens` is `async ()` followed by `rest`, with no
line break before the parenthesis or the arrow: the call `async ()` is then the head of an
asynchronous arrow function. -/
def asyncArrow (tokens rest : List Token) : Option (Parsed rest Unit) :=
  match tokens with
  | ⟨.name "async", _⟩ :: ⟨.punctuator "(", false⟩ :: ⟨.punctuator ")", _⟩ :: after =>
    if after = rest then
      single (fun t => if t = ⟨.punctuator "=>", false⟩ then some () else none) rest
    else none
  | _ => none

/-- Further parameters, each after a comma, and the closing parenthesis. -/
def moreParameters (tokens : List Token) : Option (Parsed tokens (List String)) :=
  match accept (.punctuator ")") tokens with
  | some closing => some (closing.map fun _ => [])
  | none => do
    let comma ← accept (.punctuator ",") tokens
    have := comma.shorter
    let name ← identifier comma.rest
    have := name.shorter
    let more ← moreParameters name.rest
    return comma.andThen (name.andThen (more.map (name.value :: ·)))
termination_by tokens.length

/-- A parameter list in parentheses. -/
def parameters (tokens : List Token) : Option (Parsed tokens (List String)) := do
  let opening ← accept (.punctuator "(") tokens
  match accept (.punctuator ")") opening.rest with
  | some closing => return opening.andThen (closing.map fun _ => [])
  | none => do
    let first ← identifier opening.rest
    let more ← moreParameters first.rest
    return opening.andThen (first.andThen (more.map (first.value :: ·)))

mutual

/-- An expression in parentheses. -/
def parenthesized (tokens : List Token) : Option (Parsed tokens Expr) := do
  let opening ← accept (.punctuator "(") tokens
  have := opening.shorter
  let inner ← assignment opening.rest
  let closing ← accept (.punctuator ")") inner.rest
  return opening.andThen (inner.andThen (closing.map fun _ => inner.value))
termination_by tokens.length * 64

/-- A primary expression: an array, an expression in parentheses or a single token. -/
def primary (tokens : List Token) : Option (Parsed tokens Expr) :=
  match accept (.punctuator "[") tokens with
  | some opening => do
    have := opening.shorter
    let elements ← elementsTo "]" opening.rest
    return opening.andThen (elements.map .array)
  | none =>
    match accept (.punctuator "(") tokens with
    | some _ => parenthesized tokens
    | none => atom tokens
termination_by tokens.length * 64 + 1

/-- Expressions separated by commas, up to and including the punctuator `close`. -/
def elementsTo (close : String) (tokens : List Token) : Option (Parsed tokens (List Expr)) :=
  match accept (.punctuator close) tokens with
  | some closing => some (closing.map fun _ => [])
  | none => do
    let first ← assignment tokens
    have := first.shorter
    let more ← moreElements close first.rest
    return first.andThen (more.map (first.value :: ·))
termination_by tokens.length * 64 + 28

/-- Further expressions of a list, each after a comma, and the punctuator `close`. -/
def moreElements (close : String) (tokens : List Token) : Option (Parsed tokens (List Expr)) :=
  match accept (.punctuator close) tokens with
  | some closing => some (closing.map fun _ => [])
  | none => do
    let comma ← accept (.punctuator ",") tokens
    have := comma.shorter
    let item ← assignment comma.rest
    have := item.shorter
    let more ← moreElements close item.rest
    return comma.andThen (item.andThen (more.map (item.value :: ·)))
termination_by tokens.length * 64

/-- The arguments of a call or of `new`, in parentheses. -/
def arguments (tokens : List Token) : Option (Parsed tokens (List Expr)) := do
  let opening ← accept (.punctuator "(") tokens
  have := opening.shorter
  let list ← elementsTo ")" opening.rest
  return opening.andThen list
termination_by tokens.length * 64

/-- The member accesses that follow `target`, and the calls too when `calls` holds. -/
def suffixes (calls : Bool) (target : Expr) (tokens : List Token) :
    Option (Continued tokens Expr) :=
  match accept (.punctuator ".") tokens with
  | some dot => do
    have := dot.shorter
    let property ← propertyName dot.rest
    have := property.shorter
    let whole ← suffixes calls (.member target property.value) property.rest
    return (dot.andThen (property.extend whole)).toContinued
  | none =>
  match accept (.punctuator "[") tokens with
  | some opening => do
    have := opening.shorter
    let key ← assignment opening.rest
    have := key.shorter
    let closing ← accept (.punctuator "]") key.rest
    have := closing.shorter
    let whole ← suffixes calls (.index target key.value) closing.rest
    return (opening.andThen (key.andThen (closing.extend whole))).toContinued
  | none =>
  match calls, accept (.punctuator "(") tokens with
  | true, some _ => do
    let args ← arguments tokens
    have := args.shorter
    let whole ← suffixes calls (.call target args.value) args.rest
    return (args.extend whole).toContinued
  | _, _ => some ⟨target, tokens, List.suffix_refl tokens⟩
termination_by tokens.length * 64 + 1

/-- A member expression: a primary expression, or `new` with a member expression and its
arguments, followed by member accesses. -/
def memberExpression (tokens : List Token) : Option (Parsed tokens Expr) :=
  match accept (.name "new") tokens with
  | some newWord => do
    have := newWord.shorter
    let callee ← memberExpression newWord.rest
    have := callee.shorter
    let args ← arguments callee.rest
    have := args.shorter
    let whole ← suffixes false (.new callee.value args.value) args.rest
    return newWord.andThen (callee.andThen (args.extend whole))
  | none => do
    let head ← primary tokens
    have := head.shorter
    let whole ← suffixes false head.value head.rest
    return head.extend whole
termination_by tokens.length * 64 + 2

/-- A left-hand-side expression: a member expression followed by calls and member
accesses. -/
def leftHandSide (tokens : List Token) : Option (Parsed tokens Expr) := do
  let head ← memberExpression tokens
  have := head.shorter
  let whole ← suffixes true head.value head.rest
  return head.extend whole
termination_by tokens.length * 64 + 3

/-- A unary expression: prefix operators before a left-hand-side expression. -/
def unary (tokens : List Token) : Option (Parsed tokens Expr) :=
  match operator unaryOperators tokens with
  | some op => do
    have := op.shorter
    let operand ← unary op.rest
    return op.andThen (operand.map (.unary op.value))
  | none => leftHandSide tokens
termination_by tokens.length * 64 + 4

/-- An operand of the binary operators of `level`: an expression of the next tighter level,
or a unary expression below the tightest. -/
def binaryOperand (level : Nat) (tokens : List Token) : Option (Parsed tokens Expr) :=
  if level + 1 < binaryLevels.length then binary (level + 1) tokens else unary tokens
termination_by tokens.length * 64 + 5 + 2 * (binaryLevels.length - level)

/-- An expression of the binary operators of `level` and tighter. -/
def binary (level : Nat) (tokens : List Token) : Option (Parsed tokens Expr) := do
  let first ← binaryOperand level tokens
  have := first.shorter
  let whole ← binaryTail level first.value first.rest
  return first.extend whole
termination_by tokens.length * 64 + 6 + 2 * (binaryLevels.length - level)

/-- The operators of `level` and their operands that follow `left`, grouped to the left. -/
def binaryTail (level : Nat) (left : Expr) (tokens : List Token) :
    Option (Continued tokens Expr) :=
  match operator (binaryLevels.getD level []) tokens with
  | some op => do
    have := op.shorter
    let right ← binaryOperand level op.rest
    have := right.shorter
    let whole ← binaryTail level (.binary left op.value right.value) right.rest
    return (op.andThen (right.extend whole)).toContinued
  | none => some ⟨left, tokens, List.suffix_refl tokens⟩
termination_by tokens.length * 64
decreasing_by all_goals (have levels := binaryLevels_length; omega)

/-- An assignment expression: an assignment, which groups to the right, an asynchronous
arrow function, or a binary expression. -/
def assignment (tokens : List Token) : Option (Parsed tokens Expr) := do
  let left ← binary 0 tokens
  have := left.shorter
  match accept (.punctuator "=") left.rest with
  | some equals =>
    have := equals.shorter
    if left.value.isSimpleTarget then do
      let value ← assignment equals.rest
      return left.andThen (equals.andThen (value.map (.assign left.value)))
    else none
  | none =>
    match asyncArrow tokens left.rest with
    | some arrow => do
      have := arrow.shorter
      let body ← functionBody arrow.rest
      return left.andThen (arrow.andThen (body.map .asyncArrow))
    | none => return left
termination_by tokens.length * 64 + 27
decreasing_by all_goals (have levels := binaryLevels_length; omega)

/-- The statements of a body after its opening brace, up to and including the closing one;
`returns` tells whether a `return` may stand there. -/
def statementsToBrace (returns : Bool) (tokens : List Token) :
    Option (Parsed tokens (List Stmt)) :=
  match accept (.punctuator "\x7d") tokens with
  | some closing => some (closing.map fun _ => [])
  | none => do
    let first ← statementListItem returns tokens
    have := first.shorter
    let more ← statementsToBrace returns first.rest
    return first.andThen (more.map (first.value :: ·))
termination_by tokens.length * 64 + 30

/-- A function body in braces. -/
def functionBody (tokens : List Token) : Option (Parsed tokens (List Stmt)) := do
  let opening ← accept (.punctuator "\x7b") tokens
  have := opening.shorter
  let body ← statementsToBrace true opening.rest
  return opening.andThen body
termination_by tokens.length * 64

/-- A function after the word `function`, or a method: its name, its parameters and its
body. The name of a method may be any name. -/
def routine (method : Bool) (tokens : List Token) :
    Option (Parsed tokens (FunctionDef Stmt)) := do
  let name ← if method then propertyName tokens else identifier tokens
  have := name.shorter
  let params ← parameters name.rest
  have := params.shorter
  let body ← functionBody params.rest
  return name.andThen (params.andThen (body.map fun b => ⟨name.value, params.value, b⟩))
termination_by tokens.length * 64

/-- The methods of a class body, up to and including its closing brace. -/
def classBody (tokens : List Token) : Option (Parsed tokens (List (FunctionDef Stmt))) :=
  match accept (.punctuator "\x7d") tokens with
  | some closing => some (closing.map fun _ => [])
  | none => do
    let method ← routine true tokens
    have := method.shorter
    let more ← classBody method.rest
    return method.andThen (more.map (method.value :: ·))
termination_by tokens.length * 64 + 1

/-- A declaration, or else a statement. -/
def statementListItem (returns : Bool) (tokens : List Token) : Option (Parsed tokens Stmt) :=
  match accept (.name "let") tokens with
  | some letWord => do
    have := letWord.shorter
    let name ← identifier letWord.rest
    have := name.shorter
    let equals ← accept (.punctuator "=") name.rest
    have := equals.shorter
    let value ← assignment equals.rest
    let semicolon ← accept (.punctuator ";") value.rest
    return letWord.andThen (name.andThen (equals.andThen (value.andThen
      (semicolon.map fun _ => .letDecl name.value value.value))))
  | none =>
  match accept (.name "function") tokens with
  | some functionWord => do
    have := functionWord.shorter
    let definition ← routine false functionWord.rest
    return functionWord.andThen (definition.map .function)
  | none =>
  match accept (.name "class") tokens with
  | some classWord => do
    have := classWord.shorter
    let name ← identifier classWord.rest
    have := name.shorter
    let opening ← accept (.punctuator "\x7b") name.rest
    have := opening.shorter
    let methods ← classBody opening.rest
    return classWord.andThen (name.andThen (opening.andThen
      (methods.map (.classDecl name.value))))
  | none => statement returns tokens
termination_by tokens.length * 64 + 29

/-- A statement, which is no declaration. -/
def statement (returns : Bool) (tokens : List Token) : Option (Parsed tokens Stmt) :=
  match accept (.punctuator "\x7b") tokens with
  | some opening => do
    have := opening.shorter
    let body ← statementsToBrace returns opening.rest
    return opening.andThen (body.map .block)
  | none =>
  match accept (.name "if") tokens with
  | some ifWord => do
    have := ifWord.shorter
    let test ← parenthesized ifWord.rest
    have := test.shorter
    let consequent ← statement returns test.rest
    have := consequent.shorter
    match accept (.name "else") consequent.rest with
    | some elseWord => do
      have := elseWord.shorter
      let alternate ← statement returns elseWord.rest
      return ifWord.andThen (test.andThen (consequent.andThen (elseWord.andThen
        (alternate.map fun a => .ifElse test.value consequent.value (some a)))))
    | none =>
      return ifWord.andThen (test.andThen (consequent.map fun c => .ifElse test.value c none))
  | none =>
  match accept (.name "while") tokens with
  | some whileWord => do
    have := whileWord.shorter
    let test ← parenthesized whileWord.rest
    have := test.shorter
    let body ← statement returns test.rest
    return whileWord.andThen (test.andThen (body.map (.whileLoop test.value)))
  | none =>
  match accept (.name "for") tokens with
  | some forWord => do
    have := forWord.shorter
    let opening ← accept (.punctuator "(") forWord.rest
    have := opening.shorter
    let constWord ← accept (.name "const") opening.rest
    have := constWord.shorter
    let binding ← identifier constWord.rest
    have := binding.shorter
    let ofWord ← accept (.name "of") binding.rest
    have := ofWord.shorter
    let collection ← assignment ofWord.rest
    have := collection.shorter
    let closing ← accept (.punctuator ")") collection.rest
    have := closing.shorter
    let body ← statement returns closing.rest
    return forWord.andThen (opening.andThen (constWord.andThen (binding.andThen
      (ofWord.andThen (collection.andThen (closing.andThen
        (body.map (.forOf binding.value collection.value))))))))
  | none =>
  match accept (.name "return") tokens with
  | some returnWord =>
    have := returnWord.shorter
    if returns ∧ returnWord.rest.head?.map Token.afterLineBreak = some false then
      match accept (.punctuator ";") returnWord.rest with
      | some semicolon => some (returnWord.andThen (semicolon.map fun _ => .ret none))
      | none => do
        let value ← assignment returnWord.rest
        let semicolon ← accept (.punctuator ";") value.rest
        return returnWord.andThen (value.andThen (semicolon.map fun _ => .ret (some value.value)))
    else none
  | none => do
    let value ← assignment tokens
    let semicolon ← accept (.punctuator ";") value.rest
    return value.andThen (semicolon.map fun _ => .expr value.value)
termination_by tokens.length * 64 + 28

end

/-- The statements of a script, up to the end of its tokens. -/
def script (tokens : List Token) : Option (List Stmt) :=
  if tokens = [] then some []
  else do
    let first ← statementListItem false tokens
    have := first.shorter
    let more ← script first.rest
    return first.value :: more
termination_by tokens.length

/-- The statements of a script text, when it is one that this model reads. -/
def parse (text : String) : Option (List Stmt) := do
  let tokens ← (lex text).toOption
  script tokens

end VieCompiler.Script
