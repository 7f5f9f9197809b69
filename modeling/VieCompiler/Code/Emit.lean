import VieCompiler.Syntax.Ast
import VieCompiler.Number.Format

/-!
# Generating JavaScript

`Program.emit` writes a program as JavaScript lines. Each `Line` has an indentation level,
two spaces a level, and a text. A statement of level `k` is written on lines whose first and
last are of level `k`, and the statements of a block one level deeper, between a line
ending in an opening brace and a closing brace of the block's level.

The body of a loop, of a conditional and of a function follows its header: a block as
`header \x7b`, its statements and `\x7d`; any other statement on the header's line, after a
space, with the rest of its lines below. An alternative continues the last line of the
conditional's consequent with ` else`, so that `\x7d else \x7b` and `x; else y;` come out.

Expressions are written on one line each. Every binary operation and assignment is put in
parentheses, so the generated code groups exactly as the tree does. A call of the bare name
`in` prints through `console.log`, and a method named `khởi_tạo` is the class's constructor.
-/

namespace VieCompiler

/-- A line of generated code: its indentation level and its text. -/
structure Line where
  /-- The indentation level; a level is two spaces. -/
  level : Nat
  /-- The text after the indentation. -/
  text : String
deriving DecidableEq, Repr

namespace Line

/-- The line as written, indentation included. -/
def render (line : Line) : String :=
  String.ofList (List.replicate (2 * line.level) ' ') ++ line.text

/-- Lines as written, one after another. -/
def join (lines : List Line) : String :=
  "\n".intercalate (lines.map render)

end Line

/-- How generated code writes numbers: integral values below `10^21` in full, otherwise the
shortest decimal that reads back, positionally for leading exponents from `-4` up to `15`
and with an exponent such as `e+21` or `e-7` beyond. -/
def scriptFormat : NumberFormat :=
  ⟨some 21, -4, 16, false, 1, "NaN", "Infinity"⟩

/-- A double as generated code writes it. -/
def formatNumber (x : Binary64) : String :=
  scriptFormat.render x

/-- A string literal of generated code: the text between double quotes, each double quote
in it preceded by a backslash. -/
def quoteString (value : String) : String :=
  String.ofList ('"' :: value.toList.flatMap (fun c => if c = '"' then ['\\', '"'] else [c]) ++
    ['"'])

/-- The names whose calls go to a function of the target instead. -/
def builtinCallee? : String → Option String
  | "in" => some "console.log"
  | _ => none

/-- The name a method is given in generated code. -/
def methodName (name : String) : String :=
  if name = "khởi_tạo" then "constructor" else name

mutual

/-- The text of an expression. -/
def Expr.render : Expr → String
  | .ident name => name
  | .self => "this"
  | .number value => formatNumber value
  | .string value => quoteString value
  | .bool true => "true"
  | .bool false => "false"
  | .null => "null"
  | .array elements => "[" ++ Expr.renderList elements ++ "]"
  | .assign target value => "(" ++ target.render ++ " = " ++ value.render ++ ")"
  | .binary left op right => "(" ++ left.render ++ " " ++ op.symbol ++ " " ++ right.render ++ ")"
  | .call (.ident name) args =>
    (builtinCallee? name).getD name ++ "(" ++ Expr.renderList args ++ ")"
  | .call callee args => callee.render ++ "(" ++ Expr.renderList args ++ ")"
  | .field base name => base.render ++ "." ++ name
  | .index base key => base.render ++ "[" ++ key.render ++ "]"
  | .new className args => "new " ++ className ++ "(" ++ Expr.renderList args ++ ")"

/-- The texts of expressions, separated by commas. -/
def Expr.renderList : List Expr → String
  | [] => ""
  | [e] => e.render
  | e :: es => e.render ++ ", " ++ Expr.renderList es

end

/-- A header followed by the lines of a block at level `level`. -/
def blockLines (level : Nat) (header : String) (body : List Line) : List Line :=
  ⟨level, header ++ "\x7b"⟩ :: body ++ [⟨level, "\x7d"⟩]

/-- The lines of a statement placed after `header` on the header's line, when there is one:
the first line of the statement joins the header's line, after a space. -/
def attach (level : Nat) : Option String → List Line → List Line
  | none, lines => lines
  | some header, [] => [⟨level, header⟩]
  | some header, first :: rest => ⟨level, header ++ " " ++ first.text⟩ :: rest

/-- The lines with the last one continued by ` else` and the lines of the alternative. -/
def elseLines (consequent : List Line) (alternate : String → List Line) : List Line :=
  match consequent.getLast? with
  | some last => consequent.dropLast ++ alternate (last.text ++ " else")
  | none => alternate "else"

mutual

/-- The lines of a statement at level `level`. When the statement is the body governed by
`header`, a block opens on the header's line and any other statement starts on it. -/
def Stmt.emitWith (level : Nat) (header : Option String) : Stmt → List Line
  | .block body =>
    blockLines level ((header.map (· ++ " ")).getD "") (Stmt.emitList (level + 1) body)
  | .expr value => attach level header [⟨level, value.render ++ ";"⟩]
  | .letDecl name value =>
    attach level header [⟨level, "let " ++ name ++ " = " ++ value.render ++ ";"⟩]
  | .ret value => attach level header [⟨level, "return " ++ value.render ++ ";"⟩]
  | .function definition =>
    attach level header (Stmt.emitRoutine level ("function " ++ definition.name) definition)
  | .classDecl name methods =>
    attach level header
      (blockLines level ("class " ++ name ++ " ") (Stmt.emitMethods (level + 1) methods))
  | .ifElse test consequent none =>
    attach level header (Stmt.emitWith level (some ("if (" ++ test.render ++ ")")) consequent)
  | .ifElse test consequent (some alternate) =>
    attach level header
      (elseLines (Stmt.emitWith level (some ("if (" ++ test.render ++ ")")) consequent)
        (fun continued => Stmt.emitWith level (some continued) alternate))
  | .whileLoop test body =>
    attach level header (Stmt.emitWith level (some ("while (" ++ test.render ++ ")")) body)
  | .forEach element collection body =>
    attach level header
      (Stmt.emitWith level (some ("for (const " ++ element ++ " of " ++ collection.render ++ ")"))
        body)

/-- The lines of statements at level `level`, one after another. -/
def Stmt.emitList (level : Nat) : List Stmt → List Line
  | [] => []
  | s :: ss => Stmt.emitWith level none s ++ Stmt.emitList level ss

/-- The lines of a function whose header starts with `head`. -/
def Stmt.emitRoutine (level : Nat) (head : String) : FunctionDef Stmt → List Line
  | ⟨_, params, body⟩ =>
    blockLines level (head ++ "(" ++ ", ".intercalate params ++ ") ")
      (Stmt.emitList (level + 1) body)

/-- The lines of the methods of a class at level `level`. -/
def Stmt.emitMethods (level : Nat) : List (FunctionDef Stmt) → List Line
  | [] => []
  | m :: ms => Stmt.emitRoutine level (methodName m.name) m ++ Stmt.emitMethods level ms

end

/-- The lines of a statement at level `level`. -/
def Stmt.emit (level : Nat) (statement : Stmt) : List Line :=
  Stmt.emitWith level none statement

/-- The lines of a program. -/
def Program.emit (program : Program) : List Line :=
  Stmt.emitList 0 program.body

/-- The generated code of a program: its lines joined by line breaks. -/
def Program.generate (program : Program) : String :=
  Line.join program.emit

end VieCompiler
