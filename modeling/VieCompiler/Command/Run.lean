import VieCompiler.Command.Host
import VieCompiler.Command.Options
import VieCompiler.Compile
import VieCompiler.Json.Tree

/-!
# Running the command

`Command.run` is the whole command line over a `Host`: it reads the options, reads and
decodes the source file, compiles it up to the requested phase, and then prints the result,
writes it to the output file, or runs it with Node.js. Every failure prints one message to
standard error and exits with status 1, after the progress lines of the stages that ran
when `-v` is given.
-/

namespace VieCompiler

namespace Command

/-- The dump of a token list, as printed for the tokenize phase. -/
def tokensText (tokens : List Token) : String :=
  (JsonValue.array (tokens.map Token.toJson)).render 0

/-- The progress line of a parse. -/
def parsedLine (program : Program) : String :=
  "parsed " ++ toString program.body.length ++ " top-level statements"

/-- The calls open when the command line starts: the server, its loop over requests, its
handler, and the handler of the command line. -/
def commandDepth : Nat := 4

/-- The result of compiling `source` up to `phase` (to the end when there is none), with
the progress lines that the stages which ran log, when the phase runs with `active` calls
open. The phase itself is one call; the parse dump is made within it, while a compilation
runs two calls further down, below the complete program and its code. -/
def phaseOutput (active : Nat) (phase : Option Phase) (source : String) :
    List String × Except CompileError String :=
  match phase, tokenize source with
  | _, .error error => ([], .error (.lexical error))
  | some .tokenize, .ok tokens => ([], .ok (tokensText tokens))
  | some .parse, .ok tokens =>
    let tokenized := "tokenized " ++ toString tokens.length ++ " tokens"
    match Program.ofTokensAt (active + 1) tokens with
    | .error error => ([tokenized], .error error)
    | .ok program => ([tokenized, parsedLine program], program.dumpAt (active + 1))
  | _, .ok tokens =>
    let tokenized := "tokenized " ++ toString tokens.length ++ " tokens"
    match Program.ofTokensAt (active + 3) tokens with
    | .error error => ([tokenized], .error error)
    | .ok program =>
      match program.generateAt (active + 3) with
      | .error error => ([tokenized, parsedLine program], .error error)
      | .ok code =>
        let generated := "generated " ++ toString code.length ++ " characters of JavaScript"
        ([tokenized, parsedLine program, generated], .ok (wrapProgram code))

variable {m : Type → Type} [Monad m] [Host m]

/-- Prints each progress line to standard error. -/
def logAll : List String → m Unit
  | [] => pure ()
  | line :: lines => do
    Host.printError ("vie: " ++ line ++ "\n")
    logAll lines

/-- The output delivered: printed when no output file is given, written otherwise. -/
def deliver (output : String) : Option String → m UInt32
  | none => do
    Host.print (output ++ "\n")
    return 0
  | some path => do
    if ← Host.writeFile path output then return 0
    Host.printError ("vie: cannot write '" ++ path ++ "'\n")
    return 1

/-- Compiles the source file and acts on the result, as the options say. -/
def runWith (options : Options) : m UInt32 := do
  match ← Host.readFile options.file with
  | .error error =>
    Host.printError ("vie: " ++ options.file ++ ": " ++ error.describe options.file ++ "\n")
    return 1
  | .ok bytes =>
    match String.fromUTF8? bytes with
    | none =>
      Host.printError ("vie: " ++ options.file ++ ": invalid utf-8\n")
      return 1
    | some source =>
      let (progress, result) := phaseOutput (commandDepth + 1) options.stopAt source
      if options.verbose then logAll progress
      match result with
      | .error error =>
        match error with
        | .notANumber token =>
          -- an exception that `main` does not catch: Python's report of it ends in this line
          Host.printError ("ValueError: " ++ CompileError.notANumberMessage token ++ "\n")
        | _ =>
          match error.diagnostic? with
          | some diagnostic => Host.printError (diagnostic.render source ++ "\n")
          | none => Host.printError ("vie: " ++ options.file ++ ": program is nested too deeply\n")
        return 1
      | .ok output =>
        if options.stopAt.isSome || options.output.isSome then deliver output options.output
        else
          match ← Host.runScript options.node output with
          | some status => return status
          | none =>
            Host.printError ("vie: cannot run '" ++ options.node ++ "': not found\n")
            return 1

/-- The command line on the arguments `args`, with `node` as the Node.js program unless
they name another; its exit status. -/
def run (args : List String) (node : String) : m UInt32 := do
  match Options.ofArgs args node with
  | .run options => runWith options
  | .exit code out err =>
    if !out.isEmpty then Host.print out
    if !err.isEmpty then Host.printError err
    return code

end Command

end VieCompiler
