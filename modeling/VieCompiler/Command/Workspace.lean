import VieCompiler.Command.Run

/-!
# An in-memory workspace

A `Workspace` is a directory of files held in memory, with what was printed to standard
output and standard error, so that a whole run of the command line is a pure function of
its arguments and its files.

The workspace lies in the directory `/tmp` of a file system whose root also holds the usual
system directories, among them `/dev` with the null device `/dev/null`. Nothing else is
known outside the workspace: a name looked up in one of those directories finds nothing,
and a file written there is kept nowhere. A path is followed one name at a time, from the
workspace or, when it starts with `/`, from the root: empty names and `.` stay where they
are, `..` goes to the directory above, and a name has to be found in a directory. A path that
goes on after a file, or ends in `/` after one, stops with `notDirectory`; a name of more
than 255 bytes, or a path of 4096 bytes or more, is too long. No Node.js program exists in a
workspace.
-/

namespace VieCompiler

/-- A directory of files in memory, with the text printed so far. -/
structure Workspace where
  /-- The files, by name, in the order they were created. -/
  files : List (String × ByteArray)
  /-- What was printed to standard output. -/
  out : String := ""
  /-- What was printed to standard error. -/
  err : String := ""

namespace Workspace

/-- A place a path leads to. -/
inductive Place where
  /-- The workspace directory. -/
  | workspace
  /-- The directory that holds the workspace, `/tmp`. -/
  | parent
  /-- The root directory. -/
  | root
  /-- A system directory of the root, by name. -/
  | system (name : String)
  /-- The null device, which reads as empty and takes any output. -/
  | nullDevice
  /-- A file of the workspace, by name. -/
  | file (name : String)
deriving DecidableEq, Repr

/-- The system directories of the root besides `tmp`. -/
def systemDirectories : List String :=
  ["bin", "boot", "dev", "etc", "home", "lib", "lib64", "media", "mnt", "opt", "proc", "root",
   "run", "sbin", "srv", "sys", "usr", "var"]

/-- The file named `name`, if there is one. -/
def find? (workspace : Workspace) (name : String) : Option ByteArray :=
  (workspace.files.find? (·.1 = name)).map (·.2)

namespace Place

/-- Whether the place is a directory. -/
def isDirectory : Place → Bool
  | nullDevice | file _ => false
  | _ => true

/-- The directory above a place. -/
def up : Place → Place
  | workspace => parent
  | _ => root

/-- What the name `name` finds in the place, when it is a directory of `files`. -/
def child? (files : Workspace) (name : String) : Place → Option Place
  | workspace => (files.find? name).map fun _ => file name
  | root =>
    if name = "tmp" then some parent
    else if name ∈ systemDirectories then some (system name)
    else none
  | system "dev" => if name = "null" then some nullDevice else none
  | _ => none

end Place

/-- The longest name a directory holds, in bytes. -/
def nameLimit : Nat := 255

/-- The shortest path that is too long, in bytes. -/
def pathLimit : Nat := 4096

/-- The names of a path, without the empty ones. -/
def names (path : String) : List String :=
  (path.splitOn "/").filter (· ≠ "")

/-- Where a path starts: the root when it begins with `/`, the workspace otherwise. -/
def start (path : String) : Place :=
  if path.startsWith "/" then .root else .workspace

/-- One step along a path: from `place`, by the name `name`. -/
def step (workspace : Workspace) (place : Place) (name : String) : Except ReadError Place :=
  if !place.isDirectory then .error .notDirectory
  else if name = "." then .ok place
  else if name = ".." then .ok place.up
  else if name.utf8ByteSize > nameLimit then .error .nameTooLong
  else match place.child? workspace name with
    | some found => .ok found
    | none => .error .notFound

/-- Follows the names `names` from `place`. -/
def follow (workspace : Workspace) (place : Place) : List String → Except ReadError Place
  | [] => .ok place
  | name :: rest => do
    let next ← workspace.step place name
    workspace.follow next rest

/-- Where the path `path` leads. -/
def resolve (workspace : Workspace) (path : String) : Except ReadError Place := do
  if path = "" then throw .notFound
  if path.utf8ByteSize ≥ pathLimit then throw .nameTooLong
  let place ← workspace.follow (start path) (names path)
  if path.endsWith "/" ∧ !place.isDirectory then throw .notDirectory
  return place

/-- Reads the file at `path`. -/
def read (workspace : Workspace) (path : String) : Except ReadError ByteArray := do
  match ← workspace.resolve path with
  | .file name => return (workspace.find? name).getD ByteArray.empty
  | .nullDevice => return ByteArray.empty
  | _ => throw .isDirectory

/-- The workspace with the file `name` of the workspace directory holding `bytes`. -/
def put (workspace : Workspace) (name : String) (bytes : ByteArray) : Workspace :=
  if (workspace.find? name).isSome then
    { workspace with files := workspace.files.map fun file =>
      if file.1 = name then (name, bytes) else file }
  else { workspace with files := workspace.files ++ [(name, bytes)] }

/-- The workspace with `text` written to the file at `path`, if the path can be written:
its last name must be a file, or a new one, in a directory that the rest leads to. -/
def write (workspace : Workspace) (path : String) (text : String) : Option Workspace :=
  match (names path).getLast? with
  | none => none
  | some last =>
    if path.endsWith "/" ∨ last = "." ∨ last = ".." ∨ last.utf8ByteSize > nameLimit ∨
        path.utf8ByteSize ≥ pathLimit then none
    else
      match workspace.follow (start path) (names path).dropLast with
      | .error _ => none
      | .ok .workspace => some (workspace.put last text.toUTF8)
      | .ok directory =>
        if !directory.isDirectory then none
        else match directory.child? workspace last with
          | none => some workspace
          | some place => if place.isDirectory then none else some workspace

/-- The files of `workspace` that `initial` does not have, sorted by name, as text. -/
def createdFiles (initial workspace : Workspace) : List (String × String) :=
  let created := workspace.files.filter fun file => (initial.find? file.1).isNone
  let texts := created.map fun file => (file.1, (String.fromUTF8? file.2).getD "")
  texts.mergeSort fun a b => a.1 ≤ b.1

end Workspace

/-- A computation on a workspace. -/
abbrev WorkspaceM := StateM Workspace

instance : Host WorkspaceM where
  readFile path := return (← get).read path
  writeFile path text := do
    match (← get).write path text with
    | some workspace => set workspace; return true
    | none => return false
  runScript _ _ := return none
  print text := modify fun workspace => { workspace with out := workspace.out ++ text }
  printError text := modify fun workspace => { workspace with err := workspace.err ++ text }

/-- The exit status of the command line run on `args` in `workspace`, and the workspace
after it. -/
def Workspace.runCommand (workspace : Workspace) (args : List String) (node : String) :
    UInt32 × Workspace :=
  (Command.run args node : WorkspaceM UInt32).run workspace

end VieCompiler
