import VieCompiler.Proofs.Statements
import VieCompiler.Proofs.Script.Chains
import VieCompiler.Proofs.Expressions

/-!
# The complete program

`wrapProgram` puts the prelude before the generated code and runs the code inside
`(async () => { … })();`. This module reads the whole text as a script: the three helper
functions of the prelude, then one expression statement that calls an asynchronous arrow
function whose body is the program's tree. With `Stmt.listReads` for the body, the theorem
`parse_wrapProgram` says that the structure of the program survives its emission whenever the
names it binds may be bound and its expressions read as their trees.

The prelude is fixed text. Its tokens are computed once (`lex_preamble`), and each of its
three functions is read by the construction lemmas of the grammar, for whatever follows it.
-/

namespace VieCompiler

open Script (Token LexesPrefix Reads Continues ChainReads ExprReads lexFrom accept
  statementListItem statement statementsToBrace closingWords)

namespace Prelude

/-- The first helper: the length of a string or an array, and an error otherwise. -/
def lengthScript : Script.Stmt :=
  .function ⟨"độ_dài", ["obj"],
    [.ifElse (.binary (.binary (.unary "typeof" (.name "obj")) "===" (.string "string")) "||"
        (.call (.member (.name "Array") "isArray") [.name "obj"]))
      (.block [.ret (some (.member (.name "obj") "length"))]) none,
     .expr (.call (.member (.name "console") "error")
       [.string "Lỗi: độ_dài() chỉ áp dụng cho chuỗi hoặc mảng."]),
     .ret (some .null)]⟩

/-- The second helper: the type of a value, `rỗng` for null. -/
def typeScript : Script.Stmt :=
  .function ⟨"kiểu_của", ["value"],
    [.ifElse (.binary (.name "value") "===" .null) (.ret (some (.string "rỗng"))) none,
     .ret (some (.unary "typeof" (.name "value")))]⟩

/-- The third helper: a value as a string. -/
def stringScript : Script.Stmt :=
  .function ⟨"thành_chuỗi", ["value"], [.ret (some (.call (.name "String") [.name "value"]))]⟩

/-- The statements of the prelude. -/
def script : List Script.Stmt :=
  [lengthScript, typeScript, stringScript]

/-- The tokens of the first helper. -/
def lengthTokens : List Script.Token :=
  [⟨.name "function", false⟩, ⟨.name "độ_dài", false⟩, ⟨.punctuator "(", false⟩,
    ⟨.name "obj", false⟩, ⟨.punctuator ")", false⟩, ⟨.punctuator "\x7b", false⟩,
    ⟨.name "if", true⟩, ⟨.punctuator "(", false⟩, ⟨.name "typeof", false⟩, ⟨.name "obj", false⟩,
    ⟨.punctuator "===", false⟩, ⟨.string "string", false⟩, ⟨.punctuator "||", false⟩,
    ⟨.name "Array", false⟩, ⟨.punctuator ".", false⟩, ⟨.name "isArray", false⟩,
    ⟨.punctuator "(", false⟩, ⟨.name "obj", false⟩, ⟨.punctuator ")", false⟩,
    ⟨.punctuator ")", false⟩, ⟨.punctuator "\x7b", false⟩,
    ⟨.name "return", true⟩, ⟨.name "obj", false⟩, ⟨.punctuator ".", false⟩,
    ⟨.name "length", false⟩, ⟨.punctuator ";", false⟩,
    ⟨.punctuator "\x7d", true⟩,
    ⟨.name "console", true⟩, ⟨.punctuator ".", false⟩, ⟨.name "error", false⟩,
    ⟨.punctuator "(", false⟩, ⟨.string "Lỗi: độ_dài() chỉ áp dụng cho chuỗi hoặc mảng.", false⟩,
    ⟨.punctuator ")", false⟩, ⟨.punctuator ";", false⟩,
    ⟨.name "return", true⟩, ⟨.name "null", false⟩, ⟨.punctuator ";", false⟩,
    ⟨.punctuator "\x7d", true⟩]

/-- The tokens of the second helper. -/
def typeTokens : List Script.Token :=
  [⟨.name "function", true⟩, ⟨.name "kiểu_của", false⟩, ⟨.punctuator "(", false⟩,
    ⟨.name "value", false⟩, ⟨.punctuator ")", false⟩, ⟨.punctuator "\x7b", false⟩,
    ⟨.name "if", true⟩, ⟨.punctuator "(", false⟩, ⟨.name "value", false⟩,
    ⟨.punctuator "===", false⟩, ⟨.name "null", false⟩, ⟨.punctuator ")", false⟩,
    ⟨.name "return", false⟩, ⟨.string "rỗng", false⟩, ⟨.punctuator ";", false⟩,
    ⟨.name "return", true⟩, ⟨.name "typeof", false⟩, ⟨.name "value", false⟩,
    ⟨.punctuator ";", false⟩,
    ⟨.punctuator "\x7d", true⟩]

/-- The tokens of the third helper. -/
def stringTokens : List Script.Token :=
  [⟨.name "function", true⟩, ⟨.name "thành_chuỗi", false⟩, ⟨.punctuator "(", false⟩,
    ⟨.name "value", false⟩, ⟨.punctuator ")", false⟩, ⟨.punctuator "\x7b", false⟩,
    ⟨.name "return", true⟩, ⟨.name "String", false⟩, ⟨.punctuator "(", false⟩,
    ⟨.name "value", false⟩, ⟨.punctuator ")", false⟩, ⟨.punctuator ";", false⟩,
    ⟨.punctuator "\x7d", true⟩]

/-- The tokens that open the call of the asynchronous function: `(async () => {`. -/
def arrowTokens : List Script.Token :=
  [⟨.punctuator "(", true⟩, ⟨.name "async", false⟩, ⟨.punctuator "(", false⟩,
    ⟨.punctuator ")", false⟩, ⟨.punctuator "=>", false⟩, ⟨.punctuator "\x7b", false⟩]

/-- The tokens that close it: `})();`, on a line of its own. -/
def closingTokens : List Script.Token :=
  [⟨.punctuator "\x7d", true⟩, ⟨.punctuator ")", false⟩, ⟨.punctuator "(", false⟩,
    ⟨.punctuator ")", false⟩, ⟨.punctuator ";", false⟩]

/-- The text before the generated code. -/
def preamble : String :=
  prelude ++ "\n// Compiled Vie program\n(async () => \x7b\n"

theorem lex_preamble :
    lexFrom false preamble.toList = .ok (lengthTokens ++ typeTokens ++ stringTokens ++ arrowTokens) := by
  decide +kernel

/-- After the line break that ends the generated code, the rest of the text. -/
theorem lex_closing : lexFrom true "\x7d)();\n".toList = .ok closingTokens := by
  decide +kernel

section Reading

variable {m : List Script.Token}

theorem closes {p : String} (closing : p ∈ closingWords) {f : Bool} :
    Script.ClosesExpression (⟨.punctuator p, f⟩ :: m) :=
  Script.closesExpression_cons closing

/-- A function of one parameter is read as its tree when its body is. -/
theorem reads_unaryFunction {name param : String} {body : List Script.Stmt} {ret : Bool}
    {f₁ f₂ f₃ f₄ f₅ f₆ : Bool} {ts : List Script.Token}
    (freeName : Script.isReserved name = false) (freeParam : Script.isReserved param = false)
    (inner : Reads (statementsToBrace true) ts body m) :
    Reads (statementListItem ret)
      (⟨.name "function", f₁⟩ :: ⟨.name name, f₂⟩ :: ⟨.punctuator "(", f₃⟩ ::
        ⟨.name param, f₄⟩ :: ⟨.punctuator ")", f₅⟩ :: ⟨.punctuator "\x7b", f₆⟩ :: ts)
      (.function ⟨name, [param], body⟩) m :=
  Script.reads_functionDecl (Script.reads_routine (fun _ => freeName)
    (Script.reads_parameters_cons freeParam Script.reads_moreParameters_close)
    (Script.reads_functionBody inner))

/-- The test of the first helper: a comparison, then `||`, which binds more loosely. -/
theorem reads_lengthTest (rest : List Script.Token) :
    Reads Script.parenthesized
      (⟨.punctuator "(", false⟩ :: ⟨.name "typeof", false⟩ :: ⟨.name "obj", false⟩ ::
        ⟨.punctuator "===", false⟩ :: ⟨.string "string", false⟩ :: ⟨.punctuator "||", false⟩ ::
        ⟨.name "Array", false⟩ :: ⟨.punctuator ".", false⟩ :: ⟨.name "isArray", false⟩ ::
        ⟨.punctuator "(", false⟩ :: ⟨.name "obj", false⟩ :: ⟨.punctuator ")", false⟩ ::
        ⟨.punctuator ")", false⟩ :: rest)
      (.binary (.binary (.unary "typeof" (.name "obj")) "===" (.string "string")) "||"
        (.call (.member (.name "Array") "isArray") [.name "obj"])) rest := by
  have closing : Script.ClosesExpression (⟨.punctuator ")", false⟩ :: rest) :=
    closes (by simp [closingWords])
  have call : ChainReads [⟨.name "Array", false⟩, ⟨.punctuator ".", false⟩,
      ⟨.name "isArray", false⟩, ⟨.punctuator "(", false⟩, ⟨.name "obj", false⟩,
      ⟨.punctuator ")", false⟩] (.call (.member (.name "Array") "isArray") [.name "obj"]) :=
    ((Script.chainReads_name (by decide)).member "isArray").call_single
      ((Script.chainReads_name (by decide)).exprReads (by decide))
  -- `||` is the loosest operator: no other level has it
  have afterOr : Script.NoOperatorFrom 1 (⟨.punctuator "||", false⟩ :: ⟨.name "Array", false⟩ ::
      ⟨.punctuator ".", false⟩ :: ⟨.name "isArray", false⟩ :: ⟨.punctuator "(", false⟩ ::
      ⟨.name "obj", false⟩ :: ⟨.punctuator ")", false⟩ :: ⟨.punctuator ")", false⟩ :: rest) :=
    Script.noOperatorFrom_of_operator (by decide)
  have comparison : Reads (Script.binary 5) (⟨.name "typeof", false⟩ :: ⟨.name "obj", false⟩ ::
      ⟨.punctuator "===", false⟩ :: ⟨.string "string", false⟩ :: ⟨.punctuator "||", false⟩ ::
      ⟨.name "Array", false⟩ :: ⟨.punctuator ".", false⟩ :: ⟨.name "isArray", false⟩ ::
      ⟨.punctuator "(", false⟩ :: ⟨.name "obj", false⟩ :: ⟨.punctuator ")", false⟩ ::
      ⟨.punctuator ")", false⟩ :: rest)
      (.binary (.unary "typeof" (.name "obj")) "===" (.string "string"))
      (⟨.punctuator "||", false⟩ :: ⟨.name "Array", false⟩ :: ⟨.punctuator ".", false⟩ ::
        ⟨.name "isArray", false⟩ :: ⟨.punctuator "(", false⟩ :: ⟨.name "obj", false⟩ ::
        ⟨.punctuator ")", false⟩ :: ⟨.punctuator ")", false⟩ :: rest) :=
    Script.reads_binary_operation (by decide)
      (Script.reads_unary_operator (by decide) ((Script.chainReads_name (by decide)).unary
        (by decide) (Script.suffixes_stop_of_kind (by decide))))
      ((Script.chainReads_atom (by decide) rfl).unary (by decide)
        (Script.suffixes_stop_of_kind (by decide)))
      (fun j above => afterOr j (by omega))
  have left := Script.reads_binary_of_tighter comparison (show 1 ≤ 5 by decide) (by decide)
    fun j low _ => afterOr j low
  have whole := Script.reads_binary (Script.reads_binaryOperand_next (by decide) left)
    (Script.continues_binaryTail_operator (by decide)
      (Script.reads_binaryOperand_of_unary 0
        (call.unary (by decide) (Script.suffixes_stop_of_closes closing true))
        (Script.noOperatorFrom_of_closes closing 1))
      (Script.continues_binaryTail_stop (Script.noOperatorFrom_of_closes closing 0 0 le_rfl)))
  exact Script.reads_parenthesized (Script.reads_assignment_of_binary whole closing)

theorem reads_lengthScript (more : List Script.Token) :
    Reads (statementListItem false) (lengthTokens ++ more) lengthScript more := by
  have length : ExprReads [⟨.name "obj", false⟩, ⟨.punctuator ".", false⟩,
      ⟨.name "length", false⟩] (.member (.name "obj") "length") :=
    ((Script.chainReads_name (by decide)).member "length").exprReads (by decide)
  have report : ExprReads [⟨.name "console", true⟩, ⟨.punctuator ".", false⟩,
      ⟨.name "error", false⟩, ⟨.punctuator "(", false⟩,
      ⟨.string "Lỗi: độ_dài() chỉ áp dụng cho chuỗi hoặc mảng.", false⟩,
      ⟨.punctuator ")", false⟩]
      (.call (.member (.name "console") "error")
        [.string "Lỗi: độ_dài() chỉ áp dụng cho chuỗi hoặc mảng."]) :=
    (((Script.chainReads_name (by decide)).member "error").call_single
      ((Script.chainReads_atom (by decide) rfl).exprReads (by decide))).exprReads (by decide)
  have nothing : ExprReads [⟨.name "null", false⟩] .null :=
    (Script.chainReads_atom (by decide) (by simp [Script.atomOf])).exprReads (by decide)
  exact reads_unaryFunction (by decide) (by decide)
    (Script.reads_statementsToBrace_cons (Script.accept_cons_of_ne _ (by decide))
      (reads_item_of_statement (by decide) (Script.reads_if (reads_lengthTest _)
        (Script.reads_block (Script.reads_statementsToBrace_cons
          (Script.accept_cons_of_ne _ (by decide))
          (reads_item_of_statement (by decide)
            (Script.reads_return rfl (by decide) (length _ (closes (by simp [closingWords])))))
          Script.reads_statementsToBrace_close))
        (Script.accept_cons_of_ne _ (by decide))))
      (Script.reads_statementsToBrace_cons (Script.accept_cons_of_ne _ (by decide))
        (Script.reads_expressionItem (report _ (closes (by simp [closingWords]))))
        (Script.reads_statementsToBrace_cons (Script.accept_cons_of_ne _ (by decide))
          (reads_item_of_statement (by decide)
            (Script.reads_return rfl (by decide) (nothing _ (closes (by simp [closingWords])))))
          Script.reads_statementsToBrace_close)))

theorem reads_typeScript (more : List Script.Token) :
    Reads (statementListItem false) (typeTokens ++ more) typeScript more := by
  have test : ∀ rest : List Script.Token, Reads Script.parenthesized
      (⟨.punctuator "(", false⟩ :: ⟨.name "value", false⟩ :: ⟨.punctuator "===", false⟩ ::
        ⟨.name "null", false⟩ :: ⟨.punctuator ")", false⟩ :: rest)
      (.binary (.name "value") "===" .null) rest := fun rest =>
    Script.reads_parenthesized (Script.reads_assignment_operation 5 (by decide)
      ((Script.chainReads_name (by decide)).unary (by decide)
        (Script.suffixes_stop_of_kind (by decide)))
      ((Script.chainReads_atom (by decide) (by simp [Script.atomOf])).unary (by decide)
        (Script.suffixes_stop_of_closes (closes (by simp [closingWords])) true))
      (closes (by simp [closingWords])))
  have nullCase : ∀ rest : List Script.Token, Reads (statement true)
      (⟨.name "return", false⟩ :: ⟨.string "rỗng", false⟩ :: ⟨.punctuator ";", false⟩ :: rest)
      (.ret (some (.string "rỗng"))) rest := fun rest =>
    Script.reads_return rfl (by decide) ((Script.chainReads_atom (by decide) rfl).exprReads
      (by decide) _ (closes (by simp [closingWords])))
  have typeOf : ∀ rest : List Script.Token, Reads Script.assignment
      (⟨.name "typeof", false⟩ :: ⟨.name "value", false⟩ :: ⟨.punctuator ";", false⟩ :: rest)
      (.unary "typeof" (.name "value")) (⟨.punctuator ";", false⟩ :: rest) := fun rest =>
    Script.reads_assignment_of_unary (Script.reads_unary_operator (by decide)
      ((Script.chainReads_name (by decide)).unary (by decide)
        (Script.suffixes_stop_of_closes (closes (by simp [closingWords])) true)))
      (closes (by simp [closingWords]))
  exact reads_unaryFunction (by decide) (by decide)
    (Script.reads_statementsToBrace_cons (Script.accept_cons_of_ne _ (by decide))
      (reads_item_of_statement (by decide)
        (Script.reads_if (test _) (nullCase _) (Script.accept_cons_of_ne _ (by decide))))
      (Script.reads_statementsToBrace_cons (Script.accept_cons_of_ne _ (by decide))
        (reads_item_of_statement (by decide) (Script.reads_return rfl (by decide) (typeOf _)))
        Script.reads_statementsToBrace_close))

theorem reads_stringScript (more : List Script.Token) :
    Reads (statementListItem false) (stringTokens ++ more) stringScript more := by
  have call : ExprReads [⟨.name "String", false⟩, ⟨.punctuator "(", false⟩,
      ⟨.name "value", false⟩, ⟨.punctuator ")", false⟩] (.call (.name "String") [.name "value"]) :=
    ((Script.chainReads_name (by decide)).call_single
      ((Script.chainReads_name (by decide)).exprReads (by decide))).exprReads (by decide)
  exact reads_unaryFunction (by decide) (by decide)
    (Script.reads_statementsToBrace_cons (Script.accept_cons_of_ne _ (by decide))
      (reads_item_of_statement (by decide) (Script.reads_return rfl (by decide)
        (call _ (closes (by simp [closingWords])))))
      Script.reads_statementsToBrace_close)

/-- The call of the asynchronous function whose body is read from `tokens`, up to the end of
the text. -/
theorem reads_arrowCall {tokens : List Script.Token} {body : List Script.Stmt}
    (inner : ∀ f more, Reads (statementsToBrace true)
      (tokens ++ ⟨.punctuator "\x7d", f⟩ :: more) body more) :
    Reads (statementListItem false) (arrowTokens ++ (tokens ++ closingTokens))
      (.expr (.call (.asyncArrow body) [])) [] := by
  -- `async ()` before the arrow is a call, and the arrow is no operator
  have head : ∀ rest : List Script.Token, Reads (Script.binary 0)
      (⟨.name "async", false⟩ :: ⟨.punctuator "(", false⟩ :: ⟨.punctuator ")", false⟩ ::
        ⟨.punctuator "=>", false⟩ :: rest)
      (.call (.name "async") []) (⟨.punctuator "=>", false⟩ :: rest) := fun rest =>
    Script.reads_binary_of_unary 0 ((Script.chainReads_name (by decide)).call_nil.unary
      (by decide) (Script.suffixes_stop_of_kind (by decide)))
      (Script.noOperatorFrom_of_foreign (by decide) 0)
  have arrowBody : ∀ m : List Script.Token, Reads Script.assignment
      (⟨.name "async", false⟩ :: ⟨.punctuator "(", false⟩ :: ⟨.punctuator ")", false⟩ ::
        ⟨.punctuator "=>", false⟩ :: ⟨.punctuator "\x7b", false⟩ ::
        (tokens ++ ⟨.punctuator "\x7d", true⟩ :: ⟨.punctuator ")", false⟩ :: m))
      (.asyncArrow body) (⟨.punctuator ")", false⟩ :: m) := fun m =>
    Script.reads_assignment_arrow (head _) (Script.reads_functionBody (inner true _))
  have arrow : ChainReads (⟨.punctuator "(", true⟩ :: ⟨.name "async", false⟩ ::
      ⟨.punctuator "(", false⟩ :: ⟨.punctuator ")", false⟩ :: ⟨.punctuator "=>", false⟩ ::
      ⟨.punctuator "\x7b", false⟩ :: (tokens ++ [⟨.punctuator "\x7d", true⟩,
        ⟨.punctuator ")", false⟩])) (.asyncArrow body) := by
    refine Script.chainReads_primary (by decide) fun m => ?_
    have primary : Reads Script.primary (⟨.punctuator "(", true⟩ :: ⟨.name "async", false⟩ ::
        ⟨.punctuator "(", false⟩ :: ⟨.punctuator ")", false⟩ :: ⟨.punctuator "=>", false⟩ ::
        ⟨.punctuator "\x7b", false⟩ ::
        (tokens ++ ⟨.punctuator "\x7d", true⟩ :: ⟨.punctuator ")", false⟩ :: m))
        (.asyncArrow body) m :=
      Script.reads_primary_parenthesized (arrowBody m)
    exact primary.of_eq (by simp)
  have call := (arrow.call_nil (f := false) (g := false)).exprReads (by decide)
    [⟨.punctuator ";", false⟩] (closes (by simp [closingWords]))
  exact (Script.reads_expressionItem call).of_eq (by simp [arrowTokens, closingTokens])

/-- The tokens of the whole text are read as the prelude and the call of the asynchronous
function. -/
theorem script_wrapped {tokens : List Script.Token} {body : List Script.Stmt}
    (inner : ∀ f more, Reads (statementsToBrace true)
      (tokens ++ ⟨.punctuator "\x7d", f⟩ :: more) body more) :
    Script.script (lengthTokens ++ typeTokens ++ stringTokens ++ arrowTokens ++
        (tokens ++ closingTokens)) =
      some (script ++ [.expr (.call (.asyncArrow body) [])]) := by
  simp only [List.append_assoc]
  exact Script.script_of_reads (reads_lengthScript _) (Script.script_of_reads (reads_typeScript _)
    (Script.script_of_reads (reads_stringScript _)
      (Script.script_of_reads (reads_arrowCall inner) Script.script_nil)))

end Reading

theorem preamble_last : preamble.toList.getLast? = some '\n' := by
  have lastLine : "\n// Compiled Vie program\n(async () => \x7b\n".toList.getLast? = some '\n' := by
    decide +kernel
  rw [preamble, String.toList_append, List.getLast?_append, lastLine]
  rfl

/-- The text around generated code is lexed as the prelude's tokens, then those of the code,
then the closing ones. -/
theorem lex_wrapProgram {code : String} {tokens : List Script.Token}
    (lexes : LexesPrefix true (code.toList ++ '\n' :: "\x7d)();\n".toList) tokens true
      "\x7d)();\n".toList) :
    Script.lex (wrapProgram code) = .ok (lengthTokens ++ typeTokens ++ stringTokens ++
      arrowTokens ++ (tokens ++ closingTokens)) := by
  have closingText : "\n\x7d)();\n".toList = '\n' :: "\x7d)();\n".toList := by simp
  have text : (wrapProgram code).toList =
      preamble.toList ++ (code.toList ++ '\n' :: "\x7d)();\n".toList) := by
    simp [wrapProgram, preamble, closingText]
  -- the prelude ends with a line break, so what follows it does not change its tokens
  have opening : LexesPrefix false
      (preamble.toList ++ (code.toList ++ '\n' :: "\x7d)();\n".toList))
      (lengthTokens ++ typeTokens ++ stringTokens ++ arrowTokens) true
      (code.toList ++ '\n' :: "\x7d)();\n".toList) :=
    LexesPrefix.of_lineEnd (show Script.isLineTerminator '\n' = true by decide) lex_preamble
      preamble_last
  unfold LexesPrefix at opening lexes
  rw [Script.lex, text, opening, lexes, lex_closing]
  rfl

end Prelude

/-- The generated code of a program, then a line break, is lexed as the tokens of its
statements. -/
theorem lexes_generate {program : Program} {tokens : List Script.Token} {ys : List Char}
    (lexes : ∀ flag ys,
      LexesPrefix flag (Stmt.codeList 0 program.body ++ '\n' :: ys) tokens true ys) :
    LexesPrefix true (program.generate.toList ++ '\n' :: ys) tokens true ys := by
  by_cases empty : program.body = []
  · have code := lexes true ys
    rw [empty] at code
    rw [generate_of_empty empty]
    simpa [Stmt.codeList] using code
  · -- the code of the statements starts with a line break, which the prelude already ended
    have code := lexes true ys
    rw [← generate_toList empty] at code
    exact LexesPrefix.skip
      (Script.lexFrom_lineBreak (Script.start_eq_lineBreak_iff.mpr (by decide))).symm code

/-- The complete program of a parsed source is read as the prelude, then one statement that
calls an asynchronous function whose body is the program's statements, each as its own
tree, when the names the program binds may be bound and its expressions read as their
trees. -/
theorem parse_wrapProgram {active : Nat} {source : String} {program : Program}
    (parsed : Program.ofSourceAt active source = .ok program)
    (names : ∀ n ∈ Stmt.bindingsList program.body, Script.isBindingName n = true)
    (exprs : ∀ e ∈ Stmt.exprsList program.body, e.RendersAs) :
    Script.parse (wrapProgram program.generate) =
      some (Prelude.script ++ [.expr (.call (.asyncArrow (Stmt.lowerList program.body)) [])]) := by
  obtain ⟨tokens, -, lexes, reads⟩ :=
    Stmt.listReads 0 program.body (Program.ofSourceAt_wellNested parsed) names exprs
  rw [Script.parse, Prelude.lex_wrapProgram (lexes_generate lexes)]
  exact Prelude.script_wrapped reads

/-- A declaration, a conditional whose branches are inline statements, one of them a call of
the printing function on a string, and a loop whose body is a block on an indented line: the
complete program of this source is read as the script of its statements. -/
theorem conditional_program_parses :
    Program.ofSourceAt requestDepth "cho a = 1\nnếu (a < 2) in(\"nhỏ\") ngược_lại a = a + 1\nkhi (a < 3) \x7b\n  a = a * 2\n\x7d" =
        .ok ⟨[.letDecl "a" (.number (Binary64.ofNat 1)),
          .ifElse (.binary (.ident "a") .less (.number (Binary64.ofNat 2)))
            (.expr (.call (.ident "in") [.string "nhỏ"]))
            (some (.expr (.assign (.ident "a") (.binary (.ident "a") .add (.number (Binary64.ofNat 1)))))),
          .whileLoop (.binary (.ident "a") .less (.number (Binary64.ofNat 3)))
            (.block [.expr (.assign (.ident "a")
              (.binary (.ident "a") .mul (.number (Binary64.ofNat 2))))])]⟩ ∧
      Script.parse (wrapProgram (Program.generate ⟨[.letDecl "a" (.number (Binary64.ofNat 1)),
          .ifElse (.binary (.ident "a") .less (.number (Binary64.ofNat 2)))
            (.expr (.call (.ident "in") [.string "nhỏ"]))
            (some (.expr (.assign (.ident "a") (.binary (.ident "a") .add (.number (Binary64.ofNat 1)))))),
          .whileLoop (.binary (.ident "a") .less (.number (Binary64.ofNat 3)))
            (.block [.expr (.assign (.ident "a")
              (.binary (.ident "a") .mul (.number (Binary64.ofNat 2))))])]⟩)) =
        some (Prelude.script ++ [.expr (.call (.asyncArrow (Stmt.lowerList
          [.letDecl "a" (.number (Binary64.ofNat 1)),
          .ifElse (.binary (.ident "a") .less (.number (Binary64.ofNat 2)))
            (.expr (.call (.ident "in") [.string "nhỏ"]))
            (some (.expr (.assign (.ident "a") (.binary (.ident "a") .add (.number (Binary64.ofNat 1)))))),
          .whileLoop (.binary (.ident "a") .less (.number (Binary64.ofNat 3)))
            (.block [.expr (.assign (.ident "a")
              (.binary (.ident "a") .mul (.number (Binary64.ofNat 2))))])])) [])]) := by
  have parsed : Program.ofSourceAt requestDepth "cho a = 1\nnếu (a < 2) in(\"nhỏ\") ngược_lại a = a + 1\nkhi (a < 3) \x7b\n  a = a * 2\n\x7d" =
      .ok ⟨[.letDecl "a" (.number (Binary64.ofNat 1)),
          .ifElse (.binary (.ident "a") .less (.number (Binary64.ofNat 2)))
            (.expr (.call (.ident "in") [.string "nhỏ"]))
            (some (.expr (.assign (.ident "a") (.binary (.ident "a") .add (.number (Binary64.ofNat 1)))))),
          .whileLoop (.binary (.ident "a") .less (.number (Binary64.ofNat 3)))
            (.block [.expr (.assign (.ident "a")
              (.binary (.ident "a") .mul (.number (Binary64.ofNat 2))))])]⟩ := by
    cbv
  -- every expression is readable: names, whole numbers and a string without a backslash
  have renders : ∀ e ∈ Stmt.exprsList
      [.letDecl "a" (.number (Binary64.ofNat 1)),
          .ifElse (.binary (.ident "a") .less (.number (Binary64.ofNat 2)))
            (.expr (.call (.ident "in") [.string "nhỏ"]))
            (some (.expr (.assign (.ident "a") (.binary (.ident "a") .add (.number (Binary64.ofNat 1)))))),
          .whileLoop (.binary (.ident "a") .less (.number (Binary64.ofNat 3)))
            (.block [.expr (.assign (.ident "a")
              (.binary (.ident "a") .mul (.number (Binary64.ofNat 2))))])], e.RendersAs := by
    intro e mem
    simp only [Stmt.exprsList, Stmt.exprs, List.cons_append, List.nil_append, List.append_nil,
      List.mem_cons, List.not_mem_nil, or_false] at mem
    have name : Script.isBindingName "a" = true := by decide
    rcases mem with rfl | rfl | rfl | rfl | rfl | rfl
    all_goals
      refine Expr.rendersAs (L := ⟨fun _ => True, fun _ => True, fun _ => True, trivial⟩)
        (by simp [Expr.WellFormed, Expr.ListWellFormed, Expr.isTarget]) ?_
    · exact And.intro (Exists.intro 1 (by decide)) (by decide)
    · exact And.intro name (And.intro (Exists.intro 2 (by decide)) (by decide))
    · exact And.intro (.inl rfl) (And.intro
        (show ∀ c ∈ "nhỏ".toList, Script.breaksLiteral c = false by simp [Script.breaksLiteral])
        trivial)
    · exact And.intro name (And.intro name (And.intro (Exists.intro 1 (by decide)) (by decide)))
    · exact And.intro name (And.intro (Exists.intro 3 (by decide)) (by decide))
    · exact And.intro name (And.intro name (And.intro (Exists.intro 2 (by decide)) (by decide)))
  exact ⟨parsed, parse_wrapProgram parsed (by decide +kernel) renders⟩

end VieCompiler
