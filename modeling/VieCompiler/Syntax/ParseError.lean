import VieCompiler.Syntax.Token
import VieCompiler.Diagnostic

/-!
# Syntax errors

The parser stops at the first token it cannot accept. A `ParseError` records what was
wrong, as a `Problem`, and that token; its message says what was expected there. A program
may also be nested too deeply to parse, which is a failure of its own and not a syntax
error.
-/

namespace VieCompiler

/-- The two things declared with `hàm`: top-level functions and methods of a class. -/
inductive RoutineKind where
  /-- A function declared at the top level or in a block. -/
  | function
  /-- A method of a class. -/
  | method
deriving DecidableEq, Repr

/-- How a routine kind is named in messages. -/
def RoutineKind.word : RoutineKind → String
  | function => "function"
  | method => "method"

/-- What the parser expected and did not find, or found and cannot accept. -/
inductive Problem where
  /-- No name after `cho`. -/
  | variableName
  /-- No `=` after the name in a variable declaration. -/
  | declarationEquals
  /-- No name after `hàm`. -/
  | routineName (kind : RoutineKind)
  /-- No `(` after a routine's name. -/
  | routineOpen (kind : RoutineKind)
  /-- No `)` after the parameters. -/
  | parametersClose
  /-- No opening brace before a routine's body. -/
  | bodyOpen (kind : RoutineKind)
  /-- No opening brace after a class name. -/
  | classOpen
  /-- Something other than a method in a class body. -/
  | methodsOnly
  /-- No closing brace after a class body. -/
  | classClose
  /-- No closing brace after a block. -/
  | blockClose
  /-- No `(` after `nếu`. -/
  | ifOpen
  /-- No `)` after a condition. -/
  | conditionClose
  /-- No `(` after `khi`. -/
  | whileOpen
  /-- No `(` after `với_mỗi`. -/
  | forEachOpen
  /-- No `trong` after a loop variable. -/
  | loopIn
  /-- No `)` after a loop header. -/
  | loopHeaderClose
  /-- An assignment to something that is neither a name nor a field or index access. -/
  | invalidTarget
  /-- No `]` after an index. -/
  | indexClose
  /-- No `)` after the arguments of a call. -/
  | argumentsClose
  /-- No `]` after the elements of an array. -/
  | arrayClose
  /-- No `(` after the class name in `mới`. -/
  | constructorOpen
  /-- No `)` after a parenthesised expression. -/
  | groupClose
  /-- No expression where one must start. -/
  | expression
  /-- No name where one must stand. -/
  | identifier
deriving DecidableEq, Repr

/-- A syntax error: what was wrong, and the token at which it was found. -/
structure ParseError where
  /-- What was wrong. -/
  problem : Problem
  /-- The token the error is reported at. -/
  token : Token
deriving DecidableEq, Repr

namespace ParseError

/-- The message for `problem` when it is found at `token`. -/
def describe (token : Token) : Problem → String
  | .variableName => "expected variable name after 'cho'"
  | .declarationEquals => "expected '=' in variable declaration"
  | .routineName kind => "expected " ++ kind.word ++ " name"
  | .routineOpen kind => "expected '(' after " ++ kind.word ++ " name"
  | .parametersClose => "expected ')' after parameters"
  | .bodyOpen kind => "expected '\x7b' before " ++ kind.word ++ " body"
  | .classOpen => "expected '\x7b' after class name"
  | .methodsOnly => "only 'hàm' methods are allowed in a class body"
  | .classClose => "expected '\x7d' after class body"
  | .blockClose => "expected '\x7d' after block"
  | .ifOpen => "expected '(' after 'nếu'"
  | .conditionClose => "expected ')' after condition"
  | .whileOpen => "expected '(' after 'khi'"
  | .forEachOpen => "expected '(' after 'với_mỗi'"
  | .loopIn => "expected 'trong' in loop header"
  | .loopHeaderClose => "expected ')' after loop header"
  | .invalidTarget => "invalid assignment target"
  | .indexClose => "expected ']' after index"
  | .argumentsClose => "expected ')' after arguments"
  | .arrayClose => "expected ']' after array elements"
  | .constructorOpen => "expected '(' after class name in 'mới'"
  | .groupClose => "expected ')' after expression"
  | .expression =>
    if token.kind = .eof then "expected expression, got end of input"
    else "expected expression, got '" ++ token.lexeme ++ "'"
  | .identifier => "expected identifier"

/-- The error's message. -/
def message (error : ParseError) : String :=
  describe error.token error.problem

/-- The error as it is reported: at the token's line, underlining the token's text. -/
def diagnostic (error : ParseError) : Diagnostic :=
  ⟨error.message, error.token.line, some error.token.lexeme⟩

end ParseError

/-- Why parsing stopped without a program. -/
inductive ParseFailure where
  /-- A syntax error. -/
  | error (error : ParseError)
  /-- The program nests deeper than the parser follows. -/
  | tooDeep
  /-- A number token whose text `float` does not read, which raises `ValueError`. The lexer
  makes number tokens of ASCII digits only, and these always read. -/
  | notANumber (token : Token)
deriving DecidableEq, Repr

end VieCompiler
