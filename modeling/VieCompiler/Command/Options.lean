/-!
# Command-line options

`vie [OPTIONS] FILE` compiles a Vie program and runs it with Node.js, or prints or writes
the result of one phase. `Options.ofArgs` reads the arguments from left to right: the help
flag answers at once, an option that takes a value takes the next argument, and the first
argument that is not a flag names the file. A later value of an option overrides an earlier
one. Usage errors exit with status 2; a missing file argument exits with status 1 and shows
the usage.
-/

namespace VieCompiler

/-- The phase whose result the command prints instead of running the program. -/
inductive Phase where
  /-- The tokens, as JSON. -/
  | tokenize
  /-- The program tree, as JSON. -/
  | parse
  /-- The complete JavaScript program. -/
  | generate
deriving DecidableEq, Repr

/-- The phase a name on the command line stands for. -/
def Phase.ofName? : String → Option Phase
  | "tokenize" => some .tokenize
  | "parse" => some .parse
  | "generate" => some .generate
  | _ => none

/-- What the command is asked to do. -/
structure Options where
  /-- The source file; empty until an argument names it. -/
  file : String := ""
  /-- The phase to stop at, if any. -/
  stopAt : Option Phase := none
  /-- The file to write the output to, if any. -/
  output : Option String := none
  /-- The Node.js program to run the output with. -/
  node : String
  /-- Whether to log the progress of compilation. -/
  verbose : Bool := false
deriving Repr

/-- The help text. -/
def usage : String :=
  "vie [OPTIONS] FILE\n\nCompile a Vie (.vie) program to JavaScript and run it with Node.js.\n\n" ++
  "Options:\n" ++
  "  --stop-at PHASE     Print the result of a phase instead of running:\n" ++
  "                      tokenize, parse, generate\n" ++
  "  -o, --output FILE   Write the output to FILE instead of running it\n" ++
  "  --node PATH         Node.js executable (default: $VIE_NODE or 'node')\n" ++
  "  -v, --verbose       Log pipeline progress to stderr\n" ++
  "  -h, --help          Show this help message\n"

/-- The outcome of reading the arguments. -/
inductive Invocation where
  /-- Compile with these options. -/
  | run (options : Options)
  /-- Print these texts to standard output and standard error, and exit with `code`. -/
  | exit (code : UInt32) (out err : String)
deriving Repr

namespace Options

/-- The options that take a value. -/
def takesValue (arg : String) : Bool :=
  arg = "--stop-at" || arg = "-o" || arg = "--output" || arg = "--node"

/-- Reads the remaining arguments into `options`. -/
def readArgs (options : Options) : List String → Invocation
  | [] =>
    if options.file = "" then .exit 1 "" ("vie: missing file argument\n" ++ usage)
    else .run options
  | arg :: rest =>
    if arg = "--help" ∨ arg = "-h" then .exit 0 usage ""
    else if takesValue arg then
      match rest with
      | [] => .exit 2 "" ("vie: " ++ arg ++ " requires an argument\n")
      | value :: after =>
        if arg = "--stop-at" then
          match Phase.ofName? value with
          | some phase => readArgs { options with stopAt := some phase } after
          | none => .exit 2 "" ("vie: unknown phase '" ++ value ++ "'\n")
        else if arg = "--node" then readArgs { options with node := value } after
        else readArgs { options with output := some value } after
    else if arg = "--verbose" ∨ arg = "-v" then readArgs { options with verbose := true } rest
    else if arg.startsWith "-" ∧ arg ≠ "-" then .exit 2 "" ("vie: unknown flag '" ++ arg ++ "'\n")
    else if options.file = "" then readArgs { options with file := arg } rest
    else .exit 2 "" ("vie: unexpected argument '" ++ arg ++ "'\n")

/-- What the arguments ask for, with `node` as the Node.js program unless they name one. -/
def ofArgs (args : List String) (node : String) : Invocation :=
  readArgs { node } args

end Options

end VieCompiler
