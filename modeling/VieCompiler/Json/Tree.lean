import VieCompiler.Json.Value
import VieCompiler.Syntax.Token
import VieCompiler.Syntax.Ast
import VieCompiler.Number.Format

/-!
# Tokens and trees as JSON

The dumps of the command line. A token is an object of type `Token` with its kind, text and
line. A tree node is an object whose first field `_type` names the kind of node, followed by
the node's parts in a fixed order. A field access and an index access are both `Member`
nodes, told apart by `computed`; names in declarations are `Identifier` nodes, except the
name of a variable declaration, which is a plain string. A missing alternative is `null`.

How numbers are written is a parameter: the command line writes doubles in their shortest
form that reads back, with a `.0` on integral values and an exponent from `10^16` and below
`10^-4` (`dumpFormat`).
-/

namespace VieCompiler

namespace JsonValue

/-- How the dumps write doubles. -/
def dumpFormat : NumberFormat :=
  ⟨none, -4, 16, true, 2, "NaN", "Infinity"⟩

/-- A double as the dumps write it. -/
def dumpNumber (x : Binary64) : JsonValue :=
  .number (dumpFormat.render x)

/-- A double as a string holding its exact value when that is an integer, which every
number that the parser reads is; other values as the dumps write them. -/
def integerString (x : Binary64) : JsonValue :=
  .string (match x.toInt? with
    | some n => toString n
    | none => dumpFormat.render x)

/-- A node of type `type` with the given parts. -/
def node (type : String) (fields : List (String × JsonValue)) : JsonValue :=
  .object (("_type", .string type) :: fields)

/-- The node of a name. -/
def identifier (name : String) : JsonValue :=
  node "Identifier" [("name", .string name)]

end JsonValue

/-- The dump of a token. -/
def Token.toJson (token : Token) : JsonValue :=
  .object [("_type", .string "Token"), ("kind", .string token.kind.name),
    ("lexeme", .string token.lexeme), ("line", .number (toString token.line))]

open JsonValue in
mutual

/-- The dump of an expression, with numbers written by `number`. -/
def Expr.toJson (number : Binary64 → JsonValue) : Expr → JsonValue
  | .ident name => identifier name
  | .self => node "This" []
  | .number value => node "NumericLiteral" [("value", number value)]
  | .string value => node "StringLiteral" [("value", .string value)]
  | .bool value => node "BooleanLiteral" [("value", .bool value)]
  | .null => node "NullLiteral" []
  | .array elements => node "ArrayLiteral" [("elements", .array (Expr.listToJson number elements))]
  | .binary left op right =>
    node "Binary" [("left", left.toJson number), ("operator", .string op.symbol),
      ("right", right.toJson number)]
  | .field base name =>
    node "Member" [("object", base.toJson number), ("property", identifier name),
      ("computed", .bool false)]
  | .index base key =>
    node "Member" [("object", base.toJson number), ("property", key.toJson number),
      ("computed", .bool true)]
  | .assign target value =>
    node "Assignment" [("left", target.toJson number), ("right", value.toJson number)]
  | .call callee args =>
    node "Call" [("callee", callee.toJson number), ("args", .array (Expr.listToJson number args))]
  | .new className args =>
    node "New" [("callee", identifier className), ("args", .array (Expr.listToJson number args))]

/-- The dumps of a list of expressions. -/
def Expr.listToJson (number : Binary64 → JsonValue) : List Expr → List JsonValue
  | [] => []
  | e :: es => e.toJson number :: Expr.listToJson number es

end

open JsonValue in
mutual

/-- The dump of a statement, with numbers written by `number`. -/
def Stmt.toJson (number : Binary64 → JsonValue) : Stmt → JsonValue
  | .expr value => node "ExpressionStatement" [("expr", value.toJson number)]
  | .letDecl name value =>
    node "VariableDeclaration" [("name", .string name), ("value", value.toJson number)]
  | .function definition => Stmt.routineToJson number definition
  | .classDecl name methods =>
    node "ClassDeclaration" [("name", identifier name),
      ("methods", .array (Stmt.routinesToJson number methods))]
  | .ret value => node "Return" [("argument", value.toJson number)]
  | .block body => node "Block" [("body", .array (Stmt.listToJson number body))]
  | .ifElse test consequent alternate =>
    node "If" [("test", test.toJson number), ("consequent", consequent.toJson number),
      ("alternate", Stmt.optionToJson number alternate)]
  | .whileLoop test body =>
    node "While" [("test", test.toJson number), ("body", body.toJson number)]
  | .forEach element collection body =>
    node "ForEach" [("iterator", identifier element), ("iterable", collection.toJson number),
      ("body", body.toJson number)]

/-- The dumps of a list of statements. -/
def Stmt.listToJson (number : Binary64 → JsonValue) : List Stmt → List JsonValue
  | [] => []
  | s :: ss => s.toJson number :: Stmt.listToJson number ss

/-- The dump of a function declaration; its body is a block. -/
def Stmt.routineToJson (number : Binary64 → JsonValue) : FunctionDef Stmt → JsonValue
  | ⟨name, params, body⟩ =>
    node "FunctionDeclaration" [("name", identifier name),
      ("params", .array (params.map identifier)),
      ("body", node "Block" [("body", .array (Stmt.listToJson number body))])]

/-- The dumps of a list of function declarations. -/
def Stmt.routinesToJson (number : Binary64 → JsonValue) : List (FunctionDef Stmt) → List JsonValue
  | [] => []
  | f :: fs => Stmt.routineToJson number f :: Stmt.routinesToJson number fs

/-- The dump of an optional statement, `null` for none. -/
def Stmt.optionToJson (number : Binary64 → JsonValue) : Option Stmt → JsonValue
  | none => .null
  | some s => s.toJson number

end

/-- The dump of a program, with numbers written by `number`. -/
def Program.toJson (number : Binary64 → JsonValue) (program : Program) : JsonValue :=
  JsonValue.node "Program" [("body", .array (Stmt.listToJson number program.body))]

end VieCompiler
