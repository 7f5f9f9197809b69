import VieCompiler.Number.Binary64

/-!
# Syntax trees of Vie programs

A program is a list of statements. Declarations (`cho`, `hàm`, `lớp`) are statements too,
and may stand wherever a list of statements is allowed: at the top level, in a block and in
a function body. Expressions follow the operator precedence of the language: assignment,
`hoặc`, `và`, equality, comparison, `+ -`, `* /`, unary minus, and the postfix forms call,
index and field access.

The tree is what the parser builds and the code generator reads. It carries no positions;
tokens are the only positional information.
-/

namespace VieCompiler

/-- The binary operators, named for what they compute. -/
inductive BinaryOp where
  /-- Logical or, `hoặc`. -/
  | logicalOr
  /-- Logical and, `và`. -/
  | logicalAnd
  /-- Equality, `==`. -/
  | equal
  /-- Inequality, `!=`. -/
  | notEqual
  /-- Less than, `<`. -/
  | less
  /-- At most, `<=`. -/
  | lessEqual
  /-- Greater than, `>`. -/
  | greater
  /-- At least, `>=`. -/
  | greaterEqual
  /-- Addition, `+`. -/
  | add
  /-- Subtraction, `-`. -/
  | sub
  /-- Multiplication, `*`. -/
  | mul
  /-- Division, `/`. -/
  | div
deriving DecidableEq, Repr

namespace BinaryOp

/-- How the operator is written in the generated code, and in trees. -/
def symbol : BinaryOp → String
  | logicalOr => "||"
  | logicalAnd => "&&"
  | equal => "=="
  | notEqual => "!="
  | less => "<"
  | lessEqual => "<="
  | greater => ">"
  | greaterEqual => ">="
  | add => "+"
  | sub => "-"
  | mul => "*"
  | div => "/"

end BinaryOp

/-- Expressions. -/
inductive Expr where
  /-- A name. -/
  | ident (name : String)
  /-- The receiver of a method, `this`. -/
  | self
  /-- A number. -/
  | number (value : Binary64)
  /-- A string; the value is the raw text between the quotes. -/
  | string (value : String)
  /-- A truth value, `đúng` or `sai`. -/
  | bool (value : Bool)
  /-- The null value, `rỗng`. -/
  | null
  /-- An array of the given elements. -/
  | array (elements : List Expr)
  /-- A binary operation. -/
  | binary (left : Expr) (op : BinaryOp) (right : Expr)
  /-- Access to a named field, `object.name`. -/
  | field (object : Expr) (name : String)
  /-- Access by a computed key, `object[key]`. -/
  | index (object : Expr) (key : Expr)
  /-- Assignment of `value` to `target`. -/
  | assign (target : Expr) (value : Expr)
  /-- A call. -/
  | call (callee : Expr) (args : List Expr)
  /-- Construction of an object of a class, `mới C(args)`. -/
  | new (className : String) (args : List Expr)
deriving Repr

namespace Expr

/-- Whether the expression may be assigned to: a name or a field or index access. -/
def isTarget : Expr → Bool
  | ident _ | field _ _ | index _ _ => true
  | _ => false

end Expr

/-- A function or method: its name, its parameters and the statements of its body. The type
of statements is a parameter so that statements can hold functions. -/
structure FunctionDef (Statement : Type) where
  /-- The function's name. -/
  name : String
  /-- The parameters' names. -/
  params : List String
  /-- The statements of the body. -/
  body : List Statement
deriving Repr

/-- Statements, declarations included. -/
inductive Stmt where
  /-- An expression evaluated for its effect. -/
  | expr (value : Expr)
  /-- A variable declaration, `cho name = value`. -/
  | letDecl (name : String) (value : Expr)
  /-- A function declaration. -/
  | function (definition : FunctionDef Stmt)
  /-- A class with its methods. -/
  | classDecl (name : String) (methods : List (FunctionDef Stmt))
  /-- A return, `trả_về value`; a bare `trả_về` returns `rỗng`. -/
  | ret (value : Expr)
  /-- A block of statements in braces. -/
  | block (body : List Stmt)
  /-- A conditional with an optional alternative. -/
  | ifElse (test : Expr) (consequent : Stmt) (alternate : Option Stmt)
  /-- A loop that runs while the test holds. -/
  | whileLoop (test : Expr) (body : Stmt)
  /-- A loop over the elements of a collection. -/
  | forEach (element : String) (collection : Expr) (body : Stmt)
deriving Repr

/-- A program: its top-level statements. -/
structure Program where
  /-- The top-level statements, in order. -/
  body : List Stmt
deriving Repr

end VieCompiler
