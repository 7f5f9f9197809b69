import VieCompiler.Syntax.Lexer
import VieCompiler.Syntax.Parser
import VieCompiler.Code.CallDepth
import VieCompiler.Code.Prelude
import VieCompiler.Json.Depth
import VieCompiler.Json.Tree

/-!
# Compiling a source text

Compilation runs in three stages: the source text becomes tokens, the tokens a program, and
the program JavaScript code. Each of the first two may fail, with a lexical or a syntax
error; a program may also nest too deeply.

Nesting is measured in calls: parsing, code generation and dumping a tree each recurse, and
at most `callLimit` calls may be open at once, counting those of whoever started the stage.
So every stage here takes `active`, the calls open when it is called, and each entry point
counts as one call more for the stages it runs. A request reaches the compiler with
`requestDepth` calls open.
-/

namespace VieCompiler

/-- Why a source text does not compile. -/
inductive CompileError where
  /-- The text is not a sequence of tokens. -/
  | lexical (error : LexicalError)
  /-- The tokens are not a program. -/
  | parse (error : ParseError)
  /-- The program nests too deeply. -/
  | tooDeep
  /-- A number token whose text is no number: `float` raises `ValueError`, which no stage
  catches. Only a token list that the lexer did not make can hold one. -/
  | notANumber (token : Token)
deriving DecidableEq, Repr

namespace CompileError

/-- The compile error of a parse that stopped. -/
def ofParseFailure : ParseFailure → CompileError
  | .error error => parse error
  | .tooDeep => tooDeep
  | .notANumber token => notANumber token

/-- How a lexical or syntax error is reported; a program that nests too deeply, and a number
that does not read, have no position to report. -/
def diagnostic? : CompileError → Option Diagnostic
  | lexical error => some error.diagnostic
  | parse error => some error.diagnostic
  | tooDeep | notANumber _ => none

/-- The message of the `ValueError` that `float` raises on the text of a number token. -/
def notANumberMessage (token : Token) : String :=
  "could not convert string to float: " ++ Text.quoted token.lexeme

end CompileError

/-- The most calls that may be open at once. -/
def callLimit : Nat := 1000

/-- The calls open when a request reaches the compiler: the server, its loop over requests,
and the handler of the request. -/
def requestDepth : Nat := 3

/-- The parser's budget for a parse started with `active` calls open. Three calls lead to
the first declaration (the parse, its walk over the tokens, its loop over declarations), and
every production makes four more to look at a token. -/
def parseBudget (active : Nat) : Nat :=
  callLimit - active - 7

/-- The program that the tokens spell, parsed with `active` calls open. -/
def Program.ofTokensAt (active : Nat) (tokens : List Token) : Except CompileError Program :=
  (Parser.parse (parseBudget active) tokens).mapError CompileError.ofParseFailure

/-- The program of a source text, parsed with `active` calls open. -/
def Program.ofSourceAt (active : Nat) (source : String) : Except CompileError Program := do
  let tokens ← (tokenize source).mapError CompileError.lexical
  Program.ofTokensAt active tokens

/-- The generated code of a program, generated with `active` calls open: generation itself
opens two calls before those of the statements. -/
def Program.generateAt (active : Nat) (program : Program) : Except CompileError String :=
  if active + 2 + program.emitDepth ≤ callLimit then .ok program.generate else .error .tooDeep

/-- The generated code of a source text, without the prelude, compiled with `active` calls
open. -/
def compileSourceAt (active : Nat) (source : String) : Except CompileError String := do
  let program ← Program.ofSourceAt (active + 1) source
  program.generateAt (active + 1)

/-- The complete program for a source text, compiled with `active` calls open. -/
def compileProgramAt (active : Nat) (source : String) : Except CompileError String :=
  (compileSourceAt (active + 1) source).map wrapProgram

/-- The tree of a program as a document with numbers as exact integer strings, built with
`active` calls open. -/
def Program.documentAt (active : Nat) (program : Program) : Except CompileError JsonValue :=
  let document := program.toJson JsonValue.integerString
  if active + document.buildDepth ≤ callLimit then .ok document else .error .tooDeep

/-- The dump of a program as the command line prints it, made with `active` calls open: the
document is built one call further down, and written four calls further down. -/
def Program.dumpAt (active : Nat) (program : Program) : Except CompileError String :=
  let document := program.toJson JsonValue.dumpNumber
  if active + 1 + document.buildDepth ≤ callLimit ∧ active + 4 + document.writeDepth ≤ callLimit
  then .ok (document.render 0)
  else .error .tooDeep

/-- The program of a source text, as a request parses it. -/
def Program.ofSource (source : String) : Except CompileError Program :=
  Program.ofSourceAt requestDepth source

/-- The tree of a source text as a document, as a request dumps it. -/
def treeDocument (source : String) : Except CompileError JsonValue := do
  let program ← Program.ofSource source
  program.documentAt requestDepth

/-- The generated code of a source text, without the prelude, as a request compiles it. -/
def compileSource (source : String) : Except CompileError String :=
  compileSourceAt requestDepth source

/-- The complete program for a source text: prelude and wrapped code. -/
def compileProgram (source : String) : Except CompileError String :=
  compileProgramAt requestDepth source

end VieCompiler
