import VieCompiler.Proofs.WholeDoubles
import VieCompiler.Proofs.Nesting
import Mathlib

/-!
# Printing programs as source text

A printer beside the parser: `Program.print` writes a program as Vie source, its tokens one
after another with a space between any two. It writes an expression with no more parentheses
than the precedence of the grammar asks for. From the loosest to the tightest, an expression
is an assignment, which groups to the right; an operation of `hoặc`, `và`, equality,
comparison, `+ -` or `* /`, each grouping to the left; a postfix form, a call, index or field;
or a primary expression (`Expr.precedence`). A subexpression is put in parentheses only where
it binds more loosely than its place: the left operand of a binary operator stands at the
operator's own level, the right operand one level tighter, the object of a postfix form at the
postfix level, and the target of an assignment at the loosest binary level.

The rest is what the tree holds: a return of null is written `trả_về rỗng`, an alternative
follows `ngược_lại`, a string stands between a quote that does not occur in it, and a number
is written with the digits of its integer value (`Binary64.wholeDigits`).

The printer works on the tokens of the text, each given by its kind and its lexeme
(`Expr.printed`, `Stmt.printed`); `Token.write` writes one of them.
-/

namespace VieCompiler

/-- A reserved word as a token: its kind and its spelling. -/
def Keyword.token (k : Keyword) : Token.Kind × String :=
  (.keyword k, k.spelling)

namespace BinaryOp

/-- The precedence level of the operator, from the loosest, 0, to the tightest, 5, as the
parser's `levelOperators` groups them. -/
def level : BinaryOp → Nat
  | logicalOr => 0
  | logicalAnd => 1
  | equal | notEqual => 2
  | less | lessEqual | greater | greaterEqual => 3
  | add | sub => 4
  | mul | div => 5

/-- The token that writes the operator in source. -/
def token : BinaryOp → Token.Kind × String
  | logicalOr => Keyword.hoac.token
  | logicalAnd => Keyword.va.token
  | equal => (.eqEq, "==")
  | notEqual => (.notEq, "!=")
  | less => (.lt, "<")
  | lessEqual => (.le, "<=")
  | greater => (.gt, ">")
  | greaterEqual => (.ge, ">=")
  | add => (.plus, "+")
  | sub => (.minus, "-")
  | mul => (.star, "*")
  | div => (.slash, "/")

theorem level_le (op : BinaryOp) : op.level ≤ 5 := by
  cases op <;> decide

/-- The operator is the one its level lists for its token. -/
theorem find?_levelOperators (op : BinaryOp) :
    (Parser.levelOperators op.level).find? (·.1 == op.token.1) = some (op.token.1, op) := by
  cases op <;> decide

end BinaryOp

/-- The tokens `tokens` in parentheses when `needed` holds. -/
def parenthesized (needed : Prop) [Decidable needed] (tokens : List (Token.Kind × String)) :
    List (Token.Kind × String) :=
  if needed then (.lparen, "(") :: tokens ++ [(.rparen, ")")] else tokens

namespace Expr

/-- The precedence of the expression: the loosest place it may stand in without parentheses.
An assignment has 0, an operation one more than its operator's level, a postfix form 7 and a
primary expression 8. -/
def precedence : Expr → Nat
  | assign _ _ => 0
  | binary _ op _ => op.level + 1
  | field _ _ | index _ _ | call _ _ => 7
  | _ => 8

mutual

/-- The tokens of the expression, without parentheses around the whole. -/
def printed : Expr → List (Token.Kind × String)
  | ident name => [(.ident, name)]
  | self => [Keyword.self.token]
  | number value => [(.number, String.ofList value.wholeDigits)]
  | string value => [(.string, value)]
  | bool value => [if value then Keyword.dung.token else Keyword.sai.token]
  | null => [Keyword.rong.token]
  | array elements => (.lbracket, "[") :: printedList elements ++ [(.rbracket, "]")]
  | binary left op right =>
    parenthesized (left.precedence < op.level + 1) left.printed ++
      op.token :: parenthesized (right.precedence < op.level + 2) right.printed
  | field object name =>
    parenthesized (object.precedence < 7) object.printed ++ [(.dot, "."), (.ident, name)]
  | index object key =>
    parenthesized (object.precedence < 7) object.printed ++
      (.lbracket, "[") :: key.printed ++ [(.rbracket, "]")]
  | assign target value =>
    parenthesized (target.precedence < 1) target.printed ++ (.equal, "=") :: value.printed
  | call callee args =>
    parenthesized (callee.precedence < 7) callee.printed ++
      (.lparen, "(") :: printedList args ++ [(.rparen, ")")]
  | new className args =>
    Keyword.moi.token :: (.ident, className) :: (.lparen, "(") :: printedList args ++
      [(.rparen, ")")]

/-- The tokens of expressions separated by commas. -/
def printedList : List Expr → List (Token.Kind × String)
  | [] => []
  | e :: es => e.printed ++ printedMore es

/-- The tokens of expressions, each after a comma. -/
def printedMore : List Expr → List (Token.Kind × String)
  | [] => []
  | e :: es => (.comma, ",") :: e.printed ++ printedMore es

end

/-- The tokens of the expression where it stands in a place of precedence `context`: in
parentheses if it binds more loosely. -/
def printedAt (context : Nat) (e : Expr) : List (Token.Kind × String) :=
  parenthesized (e.precedence < context) e.printed

section Printed

variable {e left right object key target value callee : Expr} {op : BinaryOp} {context : Nat}

@[simp] theorem printed_binary :
    (binary left op right).printed =
      left.printedAt (op.level + 1) ++ op.token :: right.printedAt (op.level + 2) := rfl

@[simp] theorem printed_field (name : String) :
    (field object name).printed = object.printedAt 7 ++ [(.dot, "."), (.ident, name)] := rfl

@[simp] theorem printed_index :
    (index object key).printed =
      object.printedAt 7 ++ (.lbracket, "[") :: key.printed ++ [(.rbracket, "]")] := rfl

@[simp] theorem printed_assign :
    (assign target value).printed = target.printedAt 1 ++ (.equal, "=") :: value.printed := rfl

@[simp] theorem printed_call (args : List Expr) :
    (call callee args).printed =
      callee.printedAt 7 ++ (.lparen, "(") :: printedList args ++ [(.rparen, ")")] := rfl

theorem printedAt_of_le (fits : context ≤ e.precedence) : e.printedAt context = e.printed := by
  simp [printedAt, parenthesized, Nat.not_lt.mpr fits]

theorem printedAt_of_lt (loose : e.precedence < context) :
    e.printedAt context = (.lparen, "(") :: e.printed ++ [(.rparen, ")")] := by
  simp [printedAt, parenthesized, loose]

/-- At the loosest place nothing is put in parentheses. -/
@[simp] theorem printedAt_zero : e.printedAt 0 = e.printed :=
  printedAt_of_le (Nat.zero_le _)

end Printed

/-- Whether the tokens of the expression start with a parenthesis or a bracket. -/
def opensBracket : Expr → Bool
  | array _ => true
  | binary left op _ => decide (left.precedence < op.level + 1) || left.opensBracket
  | field object _ | index object _ | call object _ =>
    decide (object.precedence < 7) || object.opensBracket
  | assign target _ => decide (target.precedence < 1) || target.opensBracket
  | _ => false

/-- Whether the tokens of the expression, where it stands in a place of precedence `context`,
start with a parenthesis or a bracket. -/
def opensBracketAt (context : Nat) (e : Expr) : Bool :=
  decide (e.precedence < context) || e.opensBracket

/-- A tighter place puts more in parentheses. -/
theorem opensBracketAt_mono {context context' : Nat} {e : Expr} (le : context ≤ context')
    (opens : e.opensBracketAt context = true) : e.opensBracketAt context' = true := by
  simp only [opensBracketAt, Bool.or_eq_true, decide_eq_true_eq] at opens ⊢
  rcases opens with loose | opens
  · exact .inl (by omega)
  · exact .inr opens

/-- The kinds of the tokens that an expression may start with. -/
def starts : List Token.Kind :=
  [.ident, .number, .string, .keyword .self, .keyword .dung, .keyword .sai, .keyword .rong,
    .keyword .moi, .lparen, .lbracket]

end Expr

/-- The first of the tokens is of one of the kinds `kinds`, and it is a parenthesis or a bracket
exactly when `opens` holds. -/
def StartsAs (kinds : List Token.Kind) (opens : Bool) (tokens : List (Token.Kind × String)) :
    Prop :=
  ∃ first more, tokens = first :: more ∧ first.1 ∈ kinds ∧
    (first.1 = .lparen ∨ first.1 = .lbracket ↔ opens = true)

theorem StartsAs.append {kinds : List Token.Kind} {opens : Bool}
    {tokens : List (Token.Kind × String)} (front : StartsAs kinds opens tokens)
    (back : List (Token.Kind × String)) : StartsAs kinds opens (tokens ++ back) := by
  obtain ⟨first, more, split, starts, bracket⟩ := front
  exact ⟨first, more ++ back, by rw [split, List.cons_append], starts, bracket⟩

theorem StartsAs.widen {kinds kinds' : List Token.Kind} {opens : Bool}
    {tokens : List (Token.Kind × String)} (starts : StartsAs kinds opens tokens)
    (sub : kinds ⊆ kinds') : StartsAs kinds' opens tokens := by
  obtain ⟨first, more, split, within, bracket⟩ := starts
  exact ⟨first, more, split, sub within, bracket⟩

namespace Expr

/-- The tokens of an expression in a place start as its own tokens do, or with the
parenthesis put around them. -/
theorem startsAs_printedAt {e : Expr} (bare : StartsAs starts e.opensBracket e.printed)
    (context : Nat) : StartsAs starts (e.opensBracketAt context) (e.printedAt context) := by
  by_cases loose : e.precedence < context
  · refine ⟨(.lparen, "("), e.printed ++ [(.rparen, ")")], ?_, by decide, ?_⟩
    · rw [printedAt_of_lt loose, List.cons_append]
    · simp [opensBracketAt, loose]
  · obtain ⟨first, more, split, starts, opens⟩ := bare
    refine ⟨first, more, by rw [printedAt_of_le (Nat.not_lt.mp loose), split], starts, ?_⟩
    simpa [opensBracketAt, loose] using opens

/-- The tokens of an expression start with a token of a kind in `Expr.starts`: its own, or that
of its leftmost operand, object or target. -/
theorem printed_startsAs : ∀ e : Expr, StartsAs starts e.opensBracket e.printed
  | ident _ | number _ | string _ | array _ => ⟨_, _, rfl, by simp [starts], by simp [opensBracket]⟩
  | self | null | new _ _ => ⟨_, _, rfl, by simp [starts, Keyword.token],
      by simp [opensBracket, Keyword.token]⟩
  | bool value => by
    cases value
    all_goals exact ⟨_, _, rfl, by simp [starts, Keyword.token], by simp [opensBracket, Keyword.token]⟩
  | binary left op _ => (startsAs_printedAt (printed_startsAs left) (op.level + 1)).append _
  | field object _ => (startsAs_printedAt (printed_startsAs object) 7).append _
  | index object _ => ((startsAs_printedAt (printed_startsAs object) 7).append _).append _
  | call callee _ => ((startsAs_printedAt (printed_startsAs callee) 7).append _).append _
  | assign target _ => (startsAs_printedAt (printed_startsAs target) 1).append _

end Expr

/-- The tokens of parameter names separated by commas. -/
def printedParams : List String → List (Token.Kind × String)
  | [] => []
  | p :: ps => (.ident, p) :: ps.flatMap fun q => [(.comma, ","), (.ident, q)]

namespace Stmt

mutual

/-- The tokens of the statement. -/
def printed : Stmt → List (Token.Kind × String)
  | expr value => value.printed
  | letDecl name value => Keyword.cho.token :: (.ident, name) :: (.equal, "=") :: value.printed
  | function definition => Keyword.ham.token :: printedRoutine definition
  | classDecl name methods =>
    Keyword.lop.token :: (.ident, name) :: (.lbrace, "\x7b") :: printedMethods methods ++
      [(.rbrace, "\x7d")]
  | ret value => Keyword.traVe.token :: value.printed
  | block body => (.lbrace, "\x7b") :: printedList body ++ [(.rbrace, "\x7d")]
  | ifElse test consequent none =>
    Keyword.neu.token :: (.lparen, "(") :: test.printed ++ (.rparen, ")") :: consequent.printed
  | ifElse test consequent (some alternate) =>
    Keyword.neu.token :: (.lparen, "(") :: test.printed ++ (.rparen, ")") :: consequent.printed ++
      Keyword.nguocLai.token :: alternate.printed
  | whileLoop test body =>
    Keyword.khi.token :: (.lparen, "(") :: test.printed ++ (.rparen, ")") :: body.printed
  | forEach element collection body =>
    Keyword.voiMoi.token :: (.lparen, "(") :: (.ident, element) :: Keyword.trong.token ::
      collection.printed ++ (.rparen, ")") :: body.printed

/-- The tokens of statements, one after another. -/
def printedList : List Stmt → List (Token.Kind × String)
  | [] => []
  | s :: ss => s.printed ++ printedList ss

/-- The tokens of a routine after `hàm`: its name, its parameters in parentheses and its body in
braces. -/
def printedRoutine : FunctionDef Stmt → List (Token.Kind × String)
  | ⟨name, params, body⟩ =>
    (.ident, name) :: (.lparen, "(") :: printedParams params ++ (.rparen, ")") ::
      (.lbrace, "\x7b") :: printedList body ++ [(.rbrace, "\x7d")]

/-- The tokens of methods, each after `hàm`. -/
def printedMethods : List (FunctionDef Stmt) → List (Token.Kind × String)
  | [] => []
  | m :: ms => Keyword.ham.token :: printedRoutine m ++ printedMethods ms

end

/-- Whether the tokens of the statement start with a parenthesis or a bracket, as only those of
an expression can. -/
def opensBracket : Stmt → Bool
  | expr value => value.opensBracket
  | _ => false

/-- The kinds of the tokens that a statement may start with. -/
def starts : List Token.Kind :=
  Expr.starts ++ [.keyword .cho, .keyword .ham, .keyword .lop, .keyword .traVe, .lbrace,
    .keyword .neu, .keyword .khi, .keyword .voiMoi]

/-- The tokens of a statement start with its keyword, its brace or its expression's first
token. -/
theorem printed_startsAs : ∀ s : Stmt, StartsAs starts s.opensBracket s.printed
  | expr value => (Expr.printed_startsAs value).widen (List.subset_append_left _ _)
  | letDecl _ _ | function _ | classDecl _ _ | ret _ | block _ | ifElse _ _ none
  | ifElse _ _ (some _) | whileLoop _ _ | forEach _ _ _ =>
    ⟨_, _, rfl, by simp [starts, Keyword.token], by simp [opensBracket, Keyword.token]⟩

end Stmt

namespace Token

/-- How a token is written: a string between double quotes, or between single quotes when it
holds a double quote; any other token as its lexeme. -/
def write : Token.Kind × String → String
  | (.string, value) =>
    let quote := if '"' ∈ value.toList then '\'' else '"'
    String.singleton quote ++ value ++ String.singleton quote
  | (_, lexeme) => lexeme

end Token

/-- The tokens of the program. -/
def Program.printed (program : Program) : List (Token.Kind × String) :=
  Stmt.printedList program.body

/-- The program as source text: its tokens, written one after another with a space between
any two. -/
def Program.print (program : Program) : String :=
  " ".intercalate (program.printed.map Token.write)

example : Program.print ⟨[.expr (.binary (.binary (.ident "a") .add (.ident "b")) .mul
    (.binary (.ident "c") .sub (.binary (.number Binary64.zero) .sub (.ident "d"))))]⟩ =
    "( a + b ) * ( c - ( 0 - d ) )" := by
  decide +kernel

end VieCompiler
