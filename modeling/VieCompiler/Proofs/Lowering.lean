import VieCompiler.Proofs.Layout
import VieCompiler.Proofs.Script.Precedence
import VieCompiler.Proofs.Script.Reading

/-!
# Generated code as script trees

`Expr.lower` and `Stmt.lower` give the script tree that the code generated for a tree stands
for. A declaration of a variable becomes `let`, a return `return` with its value, a loop over
a collection `for (const x of e)`, and a method named `khởi_tạo` the constructor; a call of the
bare name `in` becomes a call of `console.log`. Everything else keeps its shape.

Two conditions on a program are what the reading of its code rests on, and both are said here
without the code. The names that statements bind (`Stmt.bindings`) are identifier names and
no reserved words. The text of every expression that a statement holds (`Stmt.exprs`) reads,
in the places where statements put it, as the expression's tree (`Expr.RendersAs`).
-/

namespace VieCompiler

mutual

/-- The script expression that the text of an expression stands for. -/
def Expr.lower : Expr → Script.Expr
  | .ident name => .name name
  | .self => .this
  | .number value => .number value
  | .string value => .string value
  | .bool value => .bool value
  | .null => .null
  | .array elements => .array (Expr.lowerList elements)
  | .binary left op right => .binary left.lower op.symbol right.lower
  | .field object name => .member object.lower name
  | .index object key => .index object.lower key.lower
  | .assign target value => .assign target.lower value.lower
  | .call (.ident name) args =>
    .call (if name = "in" then .member (.name "console") "log" else .name name)
      (Expr.lowerList args)
  | .call callee args => .call callee.lower (Expr.lowerList args)
  | .new className args => .new (.name className) (Expr.lowerList args)

/-- The script expressions of a list of expressions. -/
def Expr.lowerList : List Expr → List Script.Expr
  | [] => []
  | e :: es => e.lower :: Expr.lowerList es

end

mutual

/-- The script statement that the code of a statement stands for. -/
def Stmt.lower : Stmt → Script.Stmt
  | .expr value => .expr value.lower
  | .letDecl name value => .letDecl name value.lower
  | .ret value => .ret (some value.lower)
  | .block body => .block (Stmt.lowerList body)
  | .function definition => .function (Stmt.lowerRoutine definition.name definition)
  | .classDecl name methods => .classDecl name (Stmt.lowerMethods methods)
  | .ifElse test consequent none => .ifElse test.lower consequent.lower none
  | .ifElse test consequent (some alternate) =>
    .ifElse test.lower consequent.lower (some alternate.lower)
  | .whileLoop test body => .whileLoop test.lower body.lower
  | .forEach element collection body => .forOf element collection.lower body.lower

/-- The script statements of a list of statements. -/
def Stmt.lowerList : List Stmt → List Script.Stmt
  | [] => []
  | s :: ss => s.lower :: Stmt.lowerList ss

/-- The script function of a function, under the name `name`. -/
def Stmt.lowerRoutine (name : String) : FunctionDef Stmt → FunctionDef Script.Stmt
  | ⟨_, params, body⟩ => ⟨name, params, Stmt.lowerList body⟩

/-- The script methods of the methods of a class. -/
def Stmt.lowerMethods : List (FunctionDef Stmt) → List (FunctionDef Script.Stmt)
  | [] => []
  | m :: ms => Stmt.lowerRoutine (methodName m.name) m :: Stmt.lowerMethods ms

end

mutual

/-- The names that the statement binds or declares: variables, functions and their
parameters, classes and their methods, and loop variables. -/
def Stmt.bindings : Stmt → List String
  | .expr _ | .ret _ => []
  | .letDecl name _ => [name]
  | .block body => Stmt.bindingsList body
  | .function definition => Stmt.routineBindings definition
  | .classDecl name methods => name :: Stmt.methodBindings methods
  | .ifElse _ consequent none => consequent.bindings
  | .ifElse _ consequent (some alternate) => consequent.bindings ++ alternate.bindings
  | .whileLoop _ body => body.bindings
  | .forEach element _ body => element :: body.bindings

/-- The names that the statements bind. -/
def Stmt.bindingsList : List Stmt → List String
  | [] => []
  | s :: ss => s.bindings ++ Stmt.bindingsList ss

/-- The name of a function, its parameters and the names its body binds. -/
def Stmt.routineBindings : FunctionDef Stmt → List String
  | ⟨name, params, body⟩ => name :: params ++ Stmt.bindingsList body

/-- The names that the methods of a class bind. -/
def Stmt.methodBindings : List (FunctionDef Stmt) → List String
  | [] => []
  | m :: ms => Stmt.routineBindings m ++ Stmt.methodBindings ms

end

mutual

/-- The expressions that the statement holds, those of the statements inside it included. -/
def Stmt.exprs : Stmt → List Expr
  | .expr value | .letDecl _ value | .ret value => [value]
  | .block body => Stmt.exprsList body
  | .function definition => Stmt.routineExprs definition
  | .classDecl _ methods => Stmt.methodExprs methods
  | .ifElse test consequent none => test :: consequent.exprs
  | .ifElse test consequent (some alternate) => test :: (consequent.exprs ++ alternate.exprs)
  | .whileLoop test body => test :: body.exprs
  | .forEach _ collection body => collection :: body.exprs

/-- The expressions that the statements hold. -/
def Stmt.exprsList : List Stmt → List Expr
  | [] => []
  | s :: ss => s.exprs ++ Stmt.exprsList ss

/-- The expressions of the body of a function. -/
def Stmt.routineExprs : FunctionDef Stmt → List Expr
  | ⟨_, _, body⟩ => Stmt.exprsList body

/-- The expressions of the methods of a class. -/
def Stmt.methodExprs : List (FunctionDef Stmt) → List Expr
  | [] => []
  | m :: ms => Stmt.routineExprs m ++ Stmt.methodExprs ms

end

namespace Script

/-- Whether a name may be bound in a script: it is an identifier name and no reserved
word. -/
def isBindingName (name : String) : Bool :=
  isIdentifierName name && !isReserved name

theorem isBindingName_iff {name : String} :
    isBindingName name = true ↔ isIdentifierName name = true ∧ isReserved name = false := by
  simp [isBindingName]

/-- The text is read as the tokens `⟨first, flag⟩ :: rest` from either line-break flag
`flag`, when nothing, a semicolon or a closing parenthesis follows it. -/
def LexesAsExpression (text : List Char) (first : Token.Kind) (rest : List Token) : Prop :=
  ∀ flag ys, (∀ c ∈ ys.head?, c = ';' ∨ c = ')') →
    LexesPrefix flag (text ++ ys) (⟨first, flag⟩ :: rest) false ys

/-- The tokens `⟨first, flag⟩ :: rest` are read as the expression `x`, whatever the flag
`flag`, when nothing, a semicolon or a closing parenthesis follows them. -/
def ReadsAsExpression (first : Token.Kind) (rest : List Token) (x : Expr) : Prop :=
  ∀ flag more, (∀ t ∈ more.head?, t.kind = .punctuator ";" ∨ t.kind = .punctuator ")") →
    Reads assignment (⟨first, flag⟩ :: rest ++ more) x more

end Script

/-- The text of an expression reads as the expression's tree wherever a statement puts it:
alone or before a semicolon or a closing parenthesis, it is read as tokens that are read as
`e.lower`. -/
def Expr.RendersAs (e : Expr) : Prop :=
  ∃ first rest, Script.LexesAsExpression e.render.toList first rest ∧
    Script.ReadsAsExpression first rest e.lower

end VieCompiler
