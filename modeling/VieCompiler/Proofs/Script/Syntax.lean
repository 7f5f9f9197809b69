import VieCompiler.Syntax.Ast
import VieCompiler.Proofs.Script.Lexer

/-!
# Syntax trees of ECMAScript scripts

The trees the syntactic grammar gives to the part of the language that generated code uses:
literals, names, arrays, member access, calls, `new`, unary and binary operators,
assignment and the asynchronous arrow function with an empty parameter list; `let`, `return`,
blocks, `if`, `while`, `for`-`of` over a `const` binding, function and class declarations.
Parentheses leave no node, as in the usual tree formats for the language: `(a + b)` is the
binary node itself. An operator is kept as the text that writes it.

A name may stand as a binding or a reference only if it is no reserved word. Generated code
is partly strict (class bodies) and partly not, so the words reserved in strict code are
refused everywhere, and with them `await`, `eval` and `arguments`.
-/

namespace VieCompiler.Script

mutual

/-- Expressions. -/
inductive Expr where
  | name (text : String)
  | this
  | null
  | bool (value : Bool)
  | number (value : Binary64)
  | string (value : String)
  | array (elements : List Expr)
  | member (object : Expr) (property : String)
  | index (object : Expr) (key : Expr)
  | call (callee : Expr) (arguments : List Expr)
  | new (callee : Expr) (arguments : List Expr)
  | unary (operator : String) (operand : Expr)
  | binary (left : Expr) (operator : String) (right : Expr)
  | assign (target : Expr) (value : Expr)
  /-- `async () => { body }`. -/
  | asyncArrow (body : List Stmt)

/-- Statements and declarations. -/
inductive Stmt where
  | expr (value : Expr)
  /-- `let name = value;` -/
  | letDecl (name : String) (value : Expr)
  | ret (value : Option Expr)
  | block (body : List Stmt)
  | ifElse (test : Expr) (consequent : Stmt) (alternate : Option Stmt)
  | whileLoop (test : Expr) (body : Stmt)
  /-- `for (const binding of collection) body` -/
  | forOf (binding : String) (collection : Expr) (body : Stmt)
  | function (definition : FunctionDef Stmt)
  /-- A class; each method is named, with its parameters and body. -/
  | classDecl (name : String) (methods : List (FunctionDef Stmt))

end

/-- The words that may not be a name of a binding or a reference. -/
def reservedWords : List String :=
  ["await", "break", "case", "catch", "class", "const", "continue", "debugger", "default",
    "delete", "do", "else", "enum", "export", "extends", "false", "finally", "for", "function",
    "if", "import", "in", "instanceof", "new", "null", "return", "super", "switch", "this",
    "throw", "true", "try", "typeof", "var", "void", "while", "with", "yield", "implements",
    "interface", "let", "package", "private", "protected", "public", "static", "eval",
    "arguments"]

/-- Whether `text` is a reserved word. -/
def isReserved (text : String) : Bool :=
  reservedWords.contains text

/-- The binary operators by precedence, from the loosest level to the tightest; each level
groups to the left. -/
def binaryLevels : List (List String) :=
  [["||"], ["&&"], ["|"], ["^"], ["&"], ["==", "!=", "===", "!=="],
    ["<", ">", "<=", ">=", "instanceof", "in"], ["<<", ">>", ">>>"], ["+", "-"],
    ["*", "/", "%"]]

theorem binaryLevels_length : binaryLevels.length = 10 := rfl

/-- The prefix operators. -/
def unaryOperators : List String :=
  ["!", "-", "+", "~", "typeof", "void"]

/-- The text a token has as an operator: a punctuator, or a word. -/
def Token.text : Token → String
  | ⟨.punctuator p, _⟩ => p
  | ⟨.name n, _⟩ => n
  | _ => ""

/-- Whether an expression may be assigned to: a name or a member. -/
def Expr.isSimpleTarget : Expr → Bool
  | .name _ | .member _ _ | .index _ _ => true
  | _ => false

end VieCompiler.Script
