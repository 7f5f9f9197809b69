import VieCompiler.Text.Quoted

/-!
# What the command needs from its surroundings

The command line reads its source file, may write its output to a file, runs the compiled
program with Node.js and prints to standard output and standard error. `Host` collects
these effects, so that the command itself is one definition for every monad that provides
them: the program's `IO`, and an in-memory workspace for tests.
-/

namespace VieCompiler

/-- Why a file could not be read. -/
inductive ReadError where
  /-- Nothing exists at the path. -/
  | notFound
  /-- The path names a directory. -/
  | isDirectory
  /-- A part of the path that should be a directory is a file. -/
  | notDirectory
  /-- The path, or a name in it, is longer than the system allows. -/
  | nameTooLong
  /-- Any other failure, with its description. -/
  | other (description : String)
deriving DecidableEq, Repr

/-- The description of a read error at `path`, in the operating system's words. -/
def ReadError.describe (path : String) : ReadError → String
  | notFound => "No such file or directory"
  | isDirectory => "[Errno 21] Is a directory: " ++ Text.quoted path
  | notDirectory => "[Errno 20] Not a directory: " ++ Text.quoted path
  | nameTooLong => "[Errno 36] File name too long: " ++ Text.quoted path
  | other description => description

/-- The effects of the command line in the monad `m`. -/
class Host (m : Type → Type) where
  /-- The bytes of the file at a path. -/
  readFile : String → m (Except ReadError ByteArray)
  /-- Writes text to the file at a path, and tells whether that succeeded. -/
  writeFile : (path : String) → (text : String) → m Bool
  /-- Runs JavaScript code with the Node.js program `node`, giving its exit status, or
  `none` when there is no such program. -/
  runScript : (node : String) → (code : String) → m (Option UInt32)
  /-- Prints to standard output. -/
  print : String → m Unit
  /-- Prints to standard error. -/
  printError : String → m Unit

end VieCompiler
