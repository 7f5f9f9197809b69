import VieCompiler.Code.Emit

/-!
# How deeply code generation nests

Code generation walks the program tree by recursion, and the calls it has open at once are
bounded: a program whose generation would need more of them nests too deeply and is not
compiled (`Program.generateAt`). `Program.emitDepth` is the largest number of calls that
generating a program has open at once, counting the call for a top-level statement as one.

Each kind of node opens a fixed number of calls around those of its parts:

* an expression opens one call for itself; a number takes two more to be written (three when
  it is not written in full), a string one more, and a list of items (array elements and
  arguments) three more around the deepest item;
* a statement that holds an expression opens one call besides the expression's;
* a governed body (of a loop or a conditional) that is not a block opens two more calls,
  since its lines are rendered apart and then joined to the header;
* a block opens two calls around its statements, a function four, a class five around the
  body of its deepest method, a conditional two and a loop one, besides their parts.
-/

namespace VieCompiler

/-- The calls that rendering a number opens besides the expression's own call: formatting it
takes one and its shortest digits one more, unless it is written in full or is not finite. -/
def numberDepth (x : Binary64) : Nat :=
  match x with
  | .finite .. => if (scriptFormat.fullInteger? x).isSome then 2 else 3
  | _ => 2

mutual

/-- The calls that rendering an expression has open at once, its own included. -/
def Expr.renderDepth : Expr → Nat
  | .ident _ | .self | .bool _ | .null => 1
  | .number x => 1 + numberDepth x
  | .string _ => 2
  | .array elements => 4 + Expr.listRenderDepth elements
  | .binary left _ right => 1 + max left.renderDepth right.renderDepth
  | .assign target value => 1 + max target.renderDepth value.renderDepth
  | .call (.ident name) args =>
    1 + max (3 + Expr.listRenderDepth args) (if (builtinCallee? name).isSome then 0 else 1)
  | .call callee args => 1 + max (3 + Expr.listRenderDepth args) callee.renderDepth
  | .field base _ => 1 + max base.renderDepth 1
  | .index base key => 1 + max base.renderDepth key.renderDepth
  | .new _ args => 4 + Expr.listRenderDepth args

/-- The greatest render depth of a list of expressions, 0 for none. -/
def Expr.listRenderDepth : List Expr → Nat
  | [] => 0
  | e :: es => max e.renderDepth (Expr.listRenderDepth es)

end

/-- The calls that a governed body opens besides its own statement's: none for a block,
which opens on the header's line, and two for any other statement, whose lines are rendered
apart first. -/
def bodyGap : Stmt → Nat
  | .block _ => 0
  | _ => 2

mutual

/-- The calls that generating a statement has open at once, its own included. -/
def Stmt.emitDepth : Stmt → Nat
  | .expr value => 1 + value.renderDepth
  | .letDecl _ value => 1 + value.renderDepth
  | .ret value => 1 + value.renderDepth
  | .block body => 2 + Stmt.listEmitDepth body
  | .function definition => 4 + Stmt.routineEmitDepth definition
  | .classDecl _ methods => 2 + max 1 (Stmt.methodsEmitDepth methods)
  | .ifElse test consequent alternate =>
    2 + max test.renderDepth
      (max (consequent.emitDepth + bodyGap consequent) (Stmt.optionEmitDepth alternate))
  | .whileLoop test body => 1 + max test.renderDepth (body.emitDepth + bodyGap body)
  | .forEach _ collection body =>
    1 + max collection.renderDepth (body.emitDepth + bodyGap body)

/-- The greatest emit depth of a list of statements, 0 for none. -/
def Stmt.listEmitDepth : List Stmt → Nat
  | [] => 0
  | s :: ss => max s.emitDepth (Stmt.listEmitDepth ss)

/-- The greatest emit depth of the statements of a function's body. -/
def Stmt.routineEmitDepth : FunctionDef Stmt → Nat
  | ⟨_, _, body⟩ => Stmt.listEmitDepth body

/-- The calls that generating the deepest method of a class opens below the class's own
two: three around the statements of its body. -/
def Stmt.methodsEmitDepth : List (FunctionDef Stmt) → Nat
  | [] => 0
  | m :: ms => max (3 + Stmt.routineEmitDepth m) (Stmt.methodsEmitDepth ms)

/-- The depth of an alternative as a governed body, 0 for none. -/
def Stmt.optionEmitDepth : Option Stmt → Nat
  | none => 0
  | some s => s.emitDepth + bodyGap s

end

/-- The calls that generating a program has open at once, counting the call for a top-level
statement as one. -/
def Program.emitDepth (program : Program) : Nat :=
  Stmt.listEmitDepth program.body

example : (Stmt.whileLoop (.ident "a") (.expr (.ident "x"))).emitDepth = 5 := by decide

example : (Stmt.function ⟨"f", [], []⟩).emitDepth = 4 := by decide

end VieCompiler
