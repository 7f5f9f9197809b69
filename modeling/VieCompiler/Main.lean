import VieCompiler.Command.Run

/-!
# The `vie` program

The command line on the real file system. Reading maps the operating system's failures to
`ReadError`; there is no way to start another program from here, so running the compiled
code reports that the Node.js program cannot be found.
-/

namespace VieCompiler

/-- The read error that an operating-system error stands for. -/
def ReadError.ofIOError : IO.Error → ReadError
  | .noFileOrDirectory .. => .notFound
  | .inappropriateType _ 21 _ => .isDirectory
  | .inappropriateType _ 20 _ => .notDirectory
  | .invalidArgument _ 36 _ => .nameTooLong
  | error => .other (toString error)

instance : Host IO where
  readFile path := do
    try
      return .ok (← IO.FS.readBinFile path)
    catch error =>
      return .error (ReadError.ofIOError error)
  writeFile path text := do
    try
      IO.FS.writeFile path text
      return true
    catch _ =>
      return false
  runScript _ _ := return none
  print text := IO.print text
  printError text := IO.eprint text

end VieCompiler

/-- Runs the command line; the Node.js program is `$VIE_NODE` when set, else `node`. -/
def main (args : List String) : IO UInt32 := do
  let node := match ← IO.getEnv "VIE_NODE" with
    | some value => if value.isEmpty then "node" else value
    | none => "node"
  VieCompiler.Command.run args node
