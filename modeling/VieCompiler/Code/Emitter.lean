import VieCompiler.Code.Emit

/-!
# The emitter as a machine

`Program.emit` gives the lines of a program at once. The emitter that writes them is a machine
with two pieces of state: the lines written so far and the indentation level of the next one.
Writing a line puts the level's indentation in front of it, and the statements of a block or
the methods of a class are written one level deeper.

A body that is not a block is first written into an empty buffer of its own (`renderStmt`),
the buffer before it restored afterwards; the first line of that rendering then joins the
header's line without its leading spaces, and the other lines follow. An alternative takes
back the last line written (`popLine`) and continues it with ` else`.

Two steps can fail: joining the first line of a rendering that has none, and taking back a
line from an empty buffer. `Emitter.generate` runs the machine over a program from an empty
buffer at level zero and joins the lines with line breaks.
-/

namespace VieCompiler

/-- The state of the emitter. -/
structure Emitter where
  /-- The lines written so far, indentation included. -/
  lines : List String
  /-- The indentation level of the next line. -/
  level : Nat
deriving DecidableEq, Repr

/-- Why the emitter stops. -/
inductive EmitFault where
  /-- A body was rendered to no line, so no line joins its header. -/
  | noFirstLine
  /-- An alternative found no line to continue. -/
  | noLastLine
deriving DecidableEq, Repr

/-- The steps of the emitter: they read and change its state and may fail. -/
abbrev EmitM := StateT Emitter (Except EmitFault)

namespace Emitter

/-- The text without the spaces it starts with. -/
def dropLeadingSpaces (text : String) : String :=
  String.ofList (text.toList.dropWhile (· == ' '))

/-- Writes a line at the current level. -/
def emitLine (text : String) : EmitM Unit :=
  modify fun e => { e with lines := e.lines ++ [Line.render ⟨e.level, text⟩] }

/-- Takes back the last line written. -/
def popLine : EmitM String := do
  let e ← get
  match e.lines.getLast? with
  | none => throw .noLastLine
  | some last =>
    set { e with lines := e.lines.dropLast }
    pure last

/-- Runs `step` one level deeper. -/
def indented (step : EmitM Unit) : EmitM Unit := do
  modify fun e => { e with level := e.level + 1 }
  step
  modify fun e => { e with level := e.level - 1 }

mutual

/-- Writes a statement at the current level. -/
def emitStmt : Stmt → EmitM Unit
  | .expr value => emitLine (value.render ++ ";")
  | .letDecl name value => emitLine ("let " ++ name ++ " = " ++ value.render ++ ";")
  | .ret value => emitLine ("return " ++ value.render ++ ";")
  | .block body => do
    emitLine "\x7b"
    emitStmtBlock body
    emitLine "\x7d"
  | .function definition => emitFunction ("function " ++ definition.name) definition
  | .classDecl name methods => emitClass name methods
  | .ifElse test consequent alternate => emitIf test consequent alternate
  | .whileLoop test body => emitBody ("while (" ++ test.render ++ ")") body
  | .forEach element collection body =>
    emitBody ("for (const " ++ element ++ " of " ++ collection.render ++ ")") body
termination_by s => (sizeOf s, 0)

/-- Writes statements one after another. -/
def emitStmts : List Stmt → EmitM Unit
  | [] => pure ()
  | s :: ss => do
    emitStmt s
    emitStmts ss
termination_by ss => (sizeOf ss, 0)

/-- Writes the statements of a block one level deeper. -/
def emitStmtBlock (body : List Stmt) : EmitM Unit :=
  indented (emitStmts body)
termination_by (sizeOf body, 1)

/-- Writes a statement into an empty buffer and gives back the lines written there, with the
buffer before it restored. -/
def renderStmt (s : Stmt) : EmitM (List String) := do
  let saved := (← get).lines
  modify fun e => { e with lines := [] }
  emitStmt s
  let rendered := (← get).lines
  modify fun e => { e with lines := saved }
  pure rendered
termination_by (sizeOf s, 1)

/-- Writes `header` and the body it governs: a block opens on the header's line, and any
other statement starts on it. -/
def emitBody (header : String) : Stmt → EmitM Unit
  | .block stmts => do
    emitLine (header ++ " \x7b")
    emitStmtBlock stmts
    emitLine "\x7d"
  | body => do
    let rendered ← renderStmt body
    match rendered with
    | [] => throw .noFirstLine
    | first :: rest =>
      emitLine (header ++ " " ++ dropLeadingSpaces first)
      modify fun e => { e with lines := e.lines ++ rest }
termination_by body => (sizeOf body, 2)

/-- Writes a function or a method whose header starts with `head`. -/
def emitFunction (head : String) (definition : FunctionDef Stmt) : EmitM Unit :=
  emitBody (head ++ "(" ++ ", ".intercalate definition.params ++ ")") (.block definition.body)
termination_by (sizeOf definition, 3)
decreasing_by
  obtain ⟨name, params, body⟩ := definition
  simp only [Prod.lex_def, Stmt.block.sizeOf_spec, FunctionDef.mk.sizeOf_spec]
  omega

/-- Writes a class and its methods, a method named `khởi_tạo` as the constructor. -/
def emitClass (name : String) (methods : List (FunctionDef Stmt)) : EmitM Unit := do
  emitLine ("class " ++ name ++ " \x7b")
  indented (emitMethods methods)
  emitLine "\x7d"
termination_by (sizeOf methods, 1)

/-- Writes methods one after another. -/
def emitMethods : List (FunctionDef Stmt) → EmitM Unit
  | [] => pure ()
  | m :: ms => do
    emitFunction (methodName m.name) m
    emitMethods ms
termination_by ms => (sizeOf ms, 0)

/-- Writes a conditional; an alternative continues the last line of the consequent. -/
def emitIf (test : Expr) (consequent : Stmt) (alternate : Option Stmt) : EmitM Unit := do
  emitBody ("if (" ++ test.render ++ ")") consequent
  match alternate with
  | none => pure ()
  | some alternate =>
    let tail ← popLine
    emitBody (dropLeadingSpaces tail ++ " else") alternate
termination_by (sizeOf consequent + sizeOf alternate, 3)
decreasing_by
  · cases alternate <;> simp_wf <;> omega
  · simp_wf
    omega

end

/-- Writes a program from an empty buffer at level zero and joins its lines. -/
def emitProgram (program : Program) : EmitM String := do
  set ({ lines := [], level := 0 } : Emitter)
  emitStmts program.body
  pure ("\n".intercalate (← get).lines)

/-- The generated code of a program, as a fresh emitter writes it. -/
def generate (program : Program) : Except EmitFault String :=
  (emitProgram program).run' ⟨[], 0⟩

end Emitter

end VieCompiler
