import VieCompiler.Proofs.Lowering
import VieCompiler.Proofs.Nesting

/-!
# Reading the code of statements

The code of a statement is read back as the statement's tree (`Stmt.codeReads`): lexed, it
gives tokens that do not depend on what follows the code, and parsed, these tokens give
`Stmt.lower` of the statement. The statement must nest well, bind only names that may be
bound, and hold only expressions whose text reads as their tree.

Where the code of a conditional without an alternative is followed by `else`, the `else`
binds to that conditional: the reading of a statement that ends open holds only before
tokens that do not start with `else`. A consequent followed by an alternative never ends open
in a well-nested statement, and a statement in a list is followed by another statement or a
closing brace, so that condition always holds where the code puts statements.

The proof is one lemma per kind of statement, which reads the statement from the readings of
its parts, and one induction over the statement that applies them.
-/

namespace VieCompiler

open Script (LexesPrefix Reads accept statement statementListItem statementsToBrace routine
  classBody functionBody parameters moreParameters isBindingName isIdentifierName isReserved
  startsExpression statementWords declarationWords closers isIdentifierPart_closer
  isBindingName_iff)

/-- The code of a statement of `level` reads as the statement's tree. It is lexed as the
tokens `⟨first, flag⟩ :: rest` from either line-break flag `flag`, whatever follows it, and
`first` is neither `else` nor a closing brace. The tokens are read as the statement's tree,
as an item of a list of statements and, for a statement that is no declaration, as a
statement, before any tokens that do not start with `else` when the statement ends open. -/
def Stmt.CodeReads (level : Nat) (s : Stmt) : Prop :=
  ∃ first rest, first ≠ .name "else" ∧ first ≠ .punctuator "\x7d" ∧
    (∀ flag ys, LexesPrefix flag (s.code level ++ ys) (⟨first, flag⟩ :: rest) false ys) ∧
    ∀ flag more, (s.endsOpen = true → accept (.name "else") more = none) →
      Reads (statementListItem true) (⟨first, flag⟩ :: rest ++ more) s.lower more ∧
        (s.isDeclaration = false →
          Reads (statement true) (⟨first, flag⟩ :: rest ++ more) s.lower more)

section Simple

variable {level : Nat}

/-- What the first token of an expression is not. -/
theorem first_of_renders {e : Expr} {first : Script.Token.Kind} {rest more : List Script.Token}
    (reads : Reads Script.assignment (⟨first, false⟩ :: rest ++ more) e.lower more) :
    ∀ k ∈ statementWords ++ declarationWords ++
      [.name "else", .punctuator "\x7d", .punctuator ";"], first ≠ k := by
  obtain ⟨t, ts, same, starts⟩ := Script.startsExpression_of_reads reads
  rw [List.cons_append, List.cons.injEq] at same
  rw [← same.1] at starts
  exact Script.kind_ne_of_startsExpression starts

theorem expr_codeReads {value : Expr} (renders : value.RendersAs) :
    (Stmt.expr value).CodeReads level := by
  obtain ⟨first, rest, lexes, reads⟩ := renders
  have kinds := first_of_renders (reads false [] (by simp))
  have start : ∀ (flag : Bool) (tail : List Script.Token),
      ∀ k ∈ statementWords ++ declarationWords, accept k (⟨first, flag⟩ :: tail) = none :=
    fun flag tail k listed => Script.accept_cons_of_ne tail (kinds k (List.mem_append_left _ listed))
  refine ⟨first, rest ++ [⟨.punctuator ";", false⟩], kinds _ (by simp), kinds _ (by simp), ?_, ?_⟩
  · intro flag ys
    have text : (Stmt.expr value).code level ++ ys = value.render.toList ++ ';' :: ys := by
      simp [Stmt.code]
    rw [text]
    exact ((lexes flag (';' :: ys) (by simp)).trans (LexesPrefix.closer (by decide))).of_tokens
      (by simp)
  · intro flag more _
    have value' : Reads Script.assignment
        (⟨first, flag⟩ :: (rest ++ [⟨.punctuator ";", false⟩]) ++ more) value.lower
        (⟨.punctuator ";", false⟩ :: more) :=
      (reads flag (⟨.punctuator ";", false⟩ :: more) (by simp)).of_eq (by simp)
    have inner : Reads (statement true) _ _ _ := Script.reads_expressionStatement
      (fun k listed => start flag _ k (List.mem_append_left _ listed)) value'
    exact ⟨Script.reads_statementListItem_of_statement
      (fun k listed => start flag _ k (List.mem_append_right _ listed)) inner, fun _ => inner⟩

theorem letDecl_codeReads {name : String} {value : Expr} (plain : isBindingName name)
    (renders : value.RendersAs) : (Stmt.letDecl name value).CodeReads level := by
  obtain ⟨first, rest, lexes, reads⟩ := renders
  rw [isBindingName_iff] at plain
  refine ⟨.name "let", ⟨.name name, false⟩ :: ⟨.punctuator "=", false⟩ :: ⟨first, false⟩ ::
    (rest ++ [⟨.punctuator ";", false⟩]), by decide, by decide, ?_, ?_⟩
  · intro flag ys
    have text : (Stmt.letDecl name value).code level ++ ys = "let".toList ++ ' ' ::
        (name.toList ++ ' ' :: '=' :: ' ' :: (value.render.toList ++ ';' :: ys)) := by
      simp [Stmt.code]
    rw [text]
    exact ((LexesPrefix.word (by decide)).trans ((LexesPrefix.word plain.1).trans
      (LexesPrefix.equals.trans ((lexes false (';' :: ys) (by simp)).trans
        (LexesPrefix.closer (by decide)))))).of_tokens (by simp)
  · intro flag more _
    have decl : Reads (statementListItem true) (⟨.name "let", flag⟩ :: ⟨.name name, false⟩ ::
        ⟨.punctuator "=", false⟩ :: (⟨first, false⟩ :: rest ++ ⟨.punctuator ";", false⟩ :: more))
        (Stmt.letDecl name value).lower more :=
      Script.reads_letDecl plain.2 (reads false (⟨.punctuator ";", false⟩ :: more) (by simp))
    refine ⟨decl.of_eq (by simp), ?_⟩
    intro notDeclaration
    cases notDeclaration

theorem ret_codeReads {value : Expr} (renders : value.RendersAs) :
    (Stmt.ret value).CodeReads level := by
  obtain ⟨first, rest, lexes, reads⟩ := renders
  have kinds := first_of_renders (reads false [] (by simp))
  refine ⟨.name "return", ⟨first, false⟩ :: (rest ++ [⟨.punctuator ";", false⟩]), by decide,
    by decide, ?_, ?_⟩
  · intro flag ys
    have text : (Stmt.ret value).code level ++ ys =
        "return".toList ++ ' ' :: (value.render.toList ++ ';' :: ys) := by
      simp [Stmt.code]
    rw [text]
    exact ((LexesPrefix.word (by decide)).trans ((lexes false (';' :: ys) (by simp)).trans
      (LexesPrefix.closer (by decide)))).of_tokens (by simp)
  · intro flag more _
    have value' : Reads Script.assignment
        (⟨first, false⟩ :: (rest ++ ⟨.punctuator ";", false⟩ :: more))
        value.lower (⟨.punctuator ";", false⟩ :: more) :=
      reads false (⟨.punctuator ";", false⟩ :: more) (by simp)
    have statement' : Reads (statement true) (⟨.name "return", flag⟩ :: ⟨first, false⟩ ::
        (rest ++ ⟨.punctuator ";", false⟩ :: more)) (Stmt.ret value).lower more :=
      Script.reads_return rfl (kinds _ (by simp)) value'
    have inner : Reads (statement true) (⟨.name "return", flag⟩ ::
        (⟨first, false⟩ :: (rest ++ [⟨.punctuator ";", false⟩])) ++ more) (Stmt.ret value).lower
        more :=
      statement'.of_eq (by simp)
    refine ⟨Script.reads_statementListItem_of_statement ?_ inner, fun _ => inner⟩
    intro k listed
    apply Script.accept_cons_of_ne
    simp only [declarationWords, List.mem_cons, List.not_mem_nil, or_false] at listed
    rcases listed with rfl | rfl | rfl <;> simp

end Simple


section Compound

variable {level : Nat} {f : Bool} {ys text : List Char} {first : Script.Token.Kind}
  {rest : List Script.Token}

theorem Script.LexesAsExpression.before (lexes : Script.LexesAsExpression text first rest)
    {c : Char} (closing : c = ';' ∨ c = ')') :
    LexesPrefix f (text ++ c :: ys)
      (⟨first, f⟩ :: rest ++ [⟨.punctuator (String.singleton c), false⟩]) false ys :=
  (lexes f (c :: ys) (by simp [closing])).trans
    (LexesPrefix.closer (by rcases closing with rfl | rfl <;> decide))

theorem Script.ReadsAsExpression.parenthesized {x : Script.Expr}
    (reads : Script.ReadsAsExpression first rest x) (flag : Bool) (m : List Script.Token) :
    Reads Script.parenthesized
      (⟨.punctuator "(", flag⟩ :: ⟨first, false⟩ :: (rest ++ ⟨.punctuator ")", false⟩ :: m)) x m :=
  Script.reads_parenthesized (reads false (⟨.punctuator ")", false⟩ :: m) (by simp))

/-- The head of a conditional or of a loop: a word, an expression in parentheses, a blank. -/
theorem lexes_head {w : String} (plain : isIdentifierName w)
    (lexes : Script.LexesAsExpression text first rest) :
    LexesPrefix f (w.toList ++ ' ' :: '(' :: (text ++ ')' :: ' ' :: ys))
      (⟨.name w, f⟩ :: ⟨.punctuator "(", false⟩ :: ⟨first, false⟩ ::
        (rest ++ [⟨.punctuator ")", false⟩])) false ys := ((LexesPrefix.word plain).trans ((LexesPrefix.closer (by decide)).trans
    ((lexes.before (.inr rfl)).trans LexesPrefix.blank))).of_tokens (by simp)

/-- A statement that starts with a word other than a declaration's is an item of a list. -/
theorem reads_item_of_statement {k : Script.Token.Kind} {flag : Bool}
    {tail more : List Script.Token} {s : Script.Stmt} (notDeclaration : k ∉ declarationWords)
    (inner : Reads (statement true) (⟨k, flag⟩ :: tail) s more) :
    Reads (statementListItem true) (⟨k, flag⟩ :: tail) s more :=
  Script.reads_statementListItem_of_statement
    (fun _ listed => Script.accept_cons_of_ne _ fun same => notDeclaration (by
      subst same
      exact listed)) inner

theorem ifElse_codeReads_none {test : Expr} {consequent : Stmt} (renders : test.RendersAs)
    (notDeclaration : consequent.isDeclaration = false) (inner : consequent.CodeReads level) :
    (Stmt.ifElse test consequent none).CodeReads level := by
  obtain ⟨first, rest, lexes, reads⟩ := renders
  obtain ⟨firstC, restC, -, -, lexesC, readsC⟩ := inner
  refine ⟨.name "if", ⟨.punctuator "(", false⟩ :: ⟨first, false⟩ ::
    (rest ++ ⟨.punctuator ")", false⟩ :: ⟨firstC, false⟩ :: restC), by decide, by decide, ?_, ?_⟩
  · intro flag ys
    have spelled : (Stmt.ifElse test consequent none).code level ++ ys = "if".toList ++ ' ' ::
        '(' :: (test.render.toList ++ ')' :: ' ' :: (consequent.code level ++ ys)) := by
      simp [Stmt.code]
    rw [spelled]
    exact ((lexes_head (by decide) lexes).trans (lexesC false ys)).of_tokens (by simp)
  · intro flag more noElse
    have read : Reads (statement true) (⟨.name "if", flag⟩ :: ⟨.punctuator "(", false⟩ ::
        ⟨first, false⟩ :: (rest ++ ⟨.punctuator ")", false⟩ :: (⟨firstC, false⟩ :: restC ++ more)))
        (Stmt.ifElse test consequent none).lower more :=
      Script.reads_if (reads.parenthesized false _)
        ((readsC false more fun _ => noElse rfl).2 notDeclaration) (noElse rfl)
    have inner : Reads (statement true) (⟨.name "if", flag⟩ :: (⟨.punctuator "(", false⟩ ::
        ⟨first, false⟩ :: (rest ++ ⟨.punctuator ")", false⟩ :: ⟨firstC, false⟩ :: restC)) ++ more)
        (Stmt.ifElse test consequent none).lower more :=
      read.of_eq (by simp)
    exact ⟨reads_item_of_statement (by decide) inner, fun _ => inner⟩

theorem ifElse_codeReads_some {test : Expr} {consequent alternate : Stmt}
    (renders : test.RendersAs) (notDeclaration : consequent.isDeclaration = false)
    (closed : consequent.endsOpen = false) (altDeclaration : alternate.isDeclaration = false)
    (inner : consequent.CodeReads level) (altInner : alternate.CodeReads level) :
    (Stmt.ifElse test consequent (some alternate)).CodeReads level := by
  obtain ⟨first, rest, lexes, reads⟩ := renders
  obtain ⟨firstC, restC, -, -, lexesC, readsC⟩ := inner
  obtain ⟨firstA, restA, -, -, lexesA, readsA⟩ := altInner
  refine ⟨.name "if", ⟨.punctuator "(", false⟩ :: ⟨first, false⟩ ::
    (rest ++ ⟨.punctuator ")", false⟩ :: ⟨firstC, false⟩ :: (restC ++ ⟨.name "else", false⟩ ::
      ⟨firstA, false⟩ :: restA)), by decide, by decide, ?_, ?_⟩
  · intro flag ys
    have spelled : (Stmt.ifElse test consequent (some alternate)).code level ++ ys =
        "if".toList ++ ' ' :: '(' :: (test.render.toList ++ ')' :: ' ' :: (consequent.code level ++
          ' ' :: ("else".toList ++ ' ' :: (alternate.code level ++ ys)))) := by
      simp [Stmt.code]
    rw [spelled]
    exact ((lexes_head (by decide) lexes).trans ((lexesC false _).trans
      (LexesPrefix.blank.trans ((LexesPrefix.word (by decide)).trans
        (lexesA false ys))))).of_tokens (by simp)
  · intro flag more noElse
    have read : Reads (statement true) (⟨.name "if", flag⟩ :: ⟨.punctuator "(", false⟩ ::
        ⟨first, false⟩ :: (rest ++ ⟨.punctuator ")", false⟩ :: (⟨firstC, false⟩ :: restC ++
          ⟨.name "else", false⟩ :: (⟨firstA, false⟩ :: restA ++ more))))
        (Stmt.ifElse test consequent (some alternate)).lower more :=
      Script.reads_ifElse (reads.parenthesized false _)
        ((readsC false _ fun opens => by rw [closed] at opens; cases opens).2 notDeclaration)
        ((readsA false more noElse).2 altDeclaration)
    have inner : Reads (statement true) (⟨.name "if", flag⟩ :: (⟨.punctuator "(", false⟩ ::
        ⟨first, false⟩ :: (rest ++ ⟨.punctuator ")", false⟩ :: ⟨firstC, false⟩ :: (restC ++
          ⟨.name "else", false⟩ :: ⟨firstA, false⟩ :: restA))) ++ more)
        (Stmt.ifElse test consequent (some alternate)).lower more :=
      read.of_eq (by simp)
    exact ⟨reads_item_of_statement (by decide) inner, fun _ => inner⟩

theorem whileLoop_codeReads {test : Expr} {body : Stmt} (renders : test.RendersAs)
    (notDeclaration : body.isDeclaration = false) (inner : body.CodeReads level) :
    (Stmt.whileLoop test body).CodeReads level := by
  obtain ⟨first, rest, lexes, reads⟩ := renders
  obtain ⟨firstB, restB, -, -, lexesB, readsB⟩ := inner
  refine ⟨.name "while", ⟨.punctuator "(", false⟩ :: ⟨first, false⟩ ::
    (rest ++ ⟨.punctuator ")", false⟩ :: ⟨firstB, false⟩ :: restB), by decide, by decide, ?_, ?_⟩
  · intro flag ys
    have spelled : (Stmt.whileLoop test body).code level ++ ys = "while".toList ++ ' ' ::
        '(' :: (test.render.toList ++ ')' :: ' ' :: (body.code level ++ ys)) := by
      simp [Stmt.code]
    rw [spelled]
    exact ((lexes_head (by decide) lexes).trans (lexesB false ys)).of_tokens (by simp)
  · intro flag more noElse
    have read : Reads (statement true) (⟨.name "while", flag⟩ :: ⟨.punctuator "(", false⟩ ::
        ⟨first, false⟩ :: (rest ++ ⟨.punctuator ")", false⟩ :: (⟨firstB, false⟩ :: restB ++ more)))
        (Stmt.whileLoop test body).lower more :=
      Script.reads_while (reads.parenthesized false _) ((readsB false more noElse).2 notDeclaration)
    have inner : Reads (statement true) (⟨.name "while", flag⟩ :: (⟨.punctuator "(", false⟩ ::
        ⟨first, false⟩ :: (rest ++ ⟨.punctuator ")", false⟩ :: ⟨firstB, false⟩ :: restB)) ++ more)
        (Stmt.whileLoop test body).lower more :=
      read.of_eq (by simp)
    exact ⟨reads_item_of_statement (by decide) inner, fun _ => inner⟩

theorem forEach_codeReads {element : String} {collection : Expr} {body : Stmt}
    (plain : isBindingName element) (renders : collection.RendersAs)
    (notDeclaration : body.isDeclaration = false) (inner : body.CodeReads level) :
    (Stmt.forEach element collection body).CodeReads level := by
  obtain ⟨first, rest, lexes, reads⟩ := renders
  obtain ⟨firstB, restB, -, -, lexesB, readsB⟩ := inner
  rw [isBindingName_iff] at plain
  refine ⟨.name "for", ⟨.punctuator "(", false⟩ :: ⟨.name "const", false⟩ ::
    ⟨.name element, false⟩ :: ⟨.name "of", false⟩ :: ⟨first, false⟩ ::
      (rest ++ ⟨.punctuator ")", false⟩ :: ⟨firstB, false⟩ :: restB), by decide, by decide, ?_, ?_⟩
  · intro flag ys
    have spelled : (Stmt.forEach element collection body).code level ++ ys =
        "for".toList ++ ' ' :: '(' :: ("const".toList ++ ' ' :: (element.toList ++ ' ' ::
          ("of".toList ++ ' ' :: (collection.render.toList ++ ')' :: ' ' ::
            (body.code level ++ ys))))) := by
      simp [Stmt.code]
    rw [spelled]
    exact ((LexesPrefix.word (by decide)).trans ((LexesPrefix.closer (by decide)).trans
      ((LexesPrefix.word (by decide)).trans ((LexesPrefix.word plain.1).trans
        ((LexesPrefix.word (by decide)).trans ((lexes.before (.inr rfl)).trans
          (LexesPrefix.blank.trans (lexesB false ys)))))))).of_tokens (by simp)
  · intro flag more noElse
    have read : Reads (statement true) (⟨.name "for", flag⟩ :: ⟨.punctuator "(", false⟩ ::
        ⟨.name "const", false⟩ :: ⟨.name element, false⟩ :: ⟨.name "of", false⟩ ::
          (⟨first, false⟩ :: rest ++ ⟨.punctuator ")", false⟩ :: (⟨firstB, false⟩ :: restB ++ more)))
        (Stmt.forEach element collection body).lower more :=
      Script.reads_forOf plain.2 (reads false _ (by simp))
        ((readsB false more noElse).2 notDeclaration)
    have inner : Reads (statement true) (⟨.name "for", flag⟩ :: (⟨.punctuator "(", false⟩ ::
        ⟨.name "const", false⟩ :: ⟨.name element, false⟩ :: ⟨.name "of", false⟩ :: ⟨first, false⟩ ::
          (rest ++ ⟨.punctuator ")", false⟩ :: ⟨firstB, false⟩ :: restB)) ++ more)
        (Stmt.forEach element collection body).lower more :=
      read.of_eq (by simp)
    exact ⟨reads_item_of_statement (by decide) inner, fun _ => inner⟩

end Compound

/-- The code of statements of `level`, followed by a line break, is lexed as `tokens`
whatever follows it, and the first of them is not `else`; the tokens followed by a closing
brace are read as the statements' trees. -/
def Stmt.ListReads (level : Nat) (ss : List Stmt) : Prop :=
  ∃ tokens : List Script.Token, (∀ t ∈ tokens.head?, t.kind ≠ .name "else") ∧
    (∀ flag ys, LexesPrefix flag (Stmt.codeList level ss ++ '\n' :: ys) tokens true ys) ∧
    ∀ f more, Reads (statementsToBrace true) (tokens ++ ⟨.punctuator "\x7d", f⟩ :: more)
      (Stmt.lowerList ss) more

/-- The code of a function of `level` with header `head` is lexed as tokens that start with
the name `head`, and these tokens are read as the function, or as a method. -/
def Stmt.RoutineReads (level : Nat) (head : String) (definition : FunctionDef Stmt) : Prop :=
  ∃ rest : List Script.Token,
    (∀ flag ys, LexesPrefix flag (Stmt.routineCode level head definition ++ ys)
      (⟨.name head, flag⟩ :: rest) false ys) ∧
    ∀ flag method more, (method = false → isReserved head = false) →
      Reads (routine method) (⟨.name head, flag⟩ :: rest ++ more)
        (Stmt.lowerRoutine head definition) more

/-- The code of the methods of a class of `level`, followed by a line break, is lexed as
`tokens` whatever follows it; the tokens followed by a closing brace are read as the
methods. -/
def Stmt.MethodsReads (level : Nat) (methods : List (FunctionDef Stmt)) : Prop :=
  ∃ tokens : List Script.Token,
    (∀ flag ys, LexesPrefix flag (Stmt.methodsCode level methods ++ '\n' :: ys) tokens true ys) ∧
    ∀ f more, Reads classBody (tokens ++ ⟨.punctuator "\x7d", f⟩ :: more)
      (Stmt.lowerMethods methods) more

section Bodies

variable {level : Nat}

/-- A closing brace on a line of its own after some code. -/
theorem lexes_closing {ys : List Char} :
    LexesPrefix true (indentation level ++ '\x7d' :: ys) [⟨.punctuator "\x7d", true⟩] false ys :=
  ((LexesPrefix.indent (2 * level)).trans (LexesPrefix.closer (by decide))).of_tokens rfl

theorem listReads_nil : Stmt.ListReads level [] :=
  ⟨[], (fun _ first => by cases first), (fun _ _ => LexesPrefix.lineBreak),
    fun _ _ => Script.reads_statementsToBrace_close⟩

theorem listReads_cons {s : Stmt} {ss : List Stmt} (head : s.CodeReads level)
    (tail : Stmt.ListReads level ss) : Stmt.ListReads level (s :: ss) := by
  obtain ⟨first, rest, notElse, notClose, lexes, reads⟩ := head
  obtain ⟨tokens, startsTail, lexesTail, readsTail⟩ := tail
  refine ⟨⟨first, true⟩ :: rest ++ tokens, fun t found => ?_, fun flag ys => ?_, fun f more => ?_⟩
  · cases found
    exact notElse
  · have spelled : Stmt.codeList level (s :: ss) ++ '\n' :: ys = '\n' :: (List.replicate
        (2 * level) ' ' ++ (s.code level ++ (Stmt.codeList level ss ++ '\n' :: ys))) := by
      simp [Stmt.codeList, indentation]
    rw [spelled]
    exact (LexesPrefix.lineBreak.trans ((LexesPrefix.indent _).trans
      ((lexes true _).trans (lexesTail false ys)))).of_tokens (by simp)
  · -- the statement is followed by the next one or by the closing brace, neither of which is
    -- `else`
    have noElse : accept (.name "else") (tokens ++ ⟨.punctuator "\x7d", f⟩ :: more) = none := by
      cases tokens with
      | nil => exact Script.accept_cons_of_ne _ (by simp)
      | cons u us => exact Script.accept_cons_of_ne _ (startsTail u rfl)
    have item := (reads true _ fun _ => noElse).1
    exact (Script.reads_statementsToBrace_cons (Script.accept_cons_of_ne _ notClose) item
      (readsTail f more)).of_eq (by simp)

theorem block_codeReads {body : List Stmt} (inner : Stmt.ListReads (level + 1) body) :
    (Stmt.block body).CodeReads level := by
  obtain ⟨tokens, -, lexes, reads⟩ := inner
  refine ⟨.punctuator "\x7b", tokens ++ [⟨.punctuator "\x7d", true⟩], by decide, by decide,
    fun flag ys => ?_, fun flag more _ => ?_⟩
  · have spelled : (Stmt.block body).code level ++ ys = '\x7b' ::
        (Stmt.codeList (level + 1) body ++ '\n' :: (indentation level ++ '\x7d' :: ys)) := by
      simp [Stmt.code, closingLine]
    rw [spelled]
    exact ((LexesPrefix.closer (by decide)).trans ((lexes false _).trans lexes_closing)).of_tokens
      (by simp)
  · have read : Reads (statement true) (⟨.punctuator "\x7b", flag⟩ ::
        (tokens ++ ⟨.punctuator "\x7d", true⟩ :: more)) (Stmt.block body).lower more :=
      Script.reads_block (reads true more)
    have inner : Reads (statement true) (⟨.punctuator "\x7b", flag⟩ ::
        (tokens ++ [⟨.punctuator "\x7d", true⟩]) ++ more) (Stmt.block body).lower more :=
      read.of_eq (by simp)
    exact ⟨reads_item_of_statement (by decide) inner, fun _ => inner⟩

end Bodies

section Routines

variable {level : Nat}

/-- The tokens of the parameter names of a function, separated by commas. -/
def paramTokens : List String → List Script.Token
  | [] => []
  | p :: ps => ⟨.name p, false⟩ :: ps.flatMap fun q => [⟨.punctuator ",", false⟩, ⟨.name q, false⟩]

theorem intercalate_params_toList (p : String) (ps : List String) :
    (", ".intercalate (p :: ps)).toList = p.toList ++ ps.flatMap fun q => ',' :: ' ' :: q.toList := by
  induction ps generalizing p with
  | nil => simp
  | cons q qs ih =>
    rw [String.intercalate_cons_cons, String.toList_append, String.toList_append, ih q]
    simp

/-- What follows a parameter name: a comma before the next one, or the closing parenthesis. -/
theorem params_head_closer (qs : List String) (ys : List Char) :
    ∀ d ∈ (qs.flatMap (fun q => ',' :: ' ' :: q.toList) ++ ')' :: ys).head?, d ∈ closers := by
  intro d first
  cases qs with
  | nil =>
    cases first
    decide
  | cons q qs =>
    cases first
    decide

theorem lexes_moreParams {ys : List Char} : ∀ qs : List String, (∀ q ∈ qs, isIdentifierName q) →
    LexesPrefix false (qs.flatMap (fun q => ',' :: ' ' :: q.toList) ++ ')' :: ys)
      (qs.flatMap fun q => [⟨.punctuator ",", false⟩, ⟨.name q, false⟩]) false (')' :: ys)
  | [], _ => LexesPrefix.refl _ _
  | q :: qs, plain => by
    have stop := fun d first => isIdentifierPart_closer (params_head_closer qs ys d first)
    rw [List.flatMap_cons, List.flatMap_cons, List.append_assoc, List.cons_append,
      List.cons_append]
    exact ((LexesPrefix.closer (by decide)).trans (LexesPrefix.blank.trans
      ((LexesPrefix.name (plain q (by simp)) stop).trans
        (lexes_moreParams qs fun q' listed => plain q' (by simp [listed]))))).of_tokens (by simp)

theorem lexes_params {ps : List String} (plain : ∀ p ∈ ps, isIdentifierName p) {ys : List Char} :
    LexesPrefix false ((", ".intercalate ps).toList ++ ')' :: ys) (paramTokens ps) false
      (')' :: ys) := by
  cases ps with
  | nil => exact LexesPrefix.refl _ _
  | cons p qs =>
    rw [intercalate_params_toList, List.append_assoc]
    exact ((LexesPrefix.name (plain p (by simp)) fun d first =>
      isIdentifierPart_closer (params_head_closer qs ys d first)).trans
        (lexes_moreParams qs fun q listed => plain q (by simp [listed]))).of_tokens rfl

theorem reads_moreParams {m : List Script.Token} : ∀ qs : List String,
    (∀ q ∈ qs, isReserved q = false) →
    Reads moreParameters ((qs.flatMap fun q => [⟨.punctuator ",", false⟩, ⟨.name q, false⟩]) ++
      ⟨.punctuator ")", false⟩ :: m) qs m
  | [], _ => Script.reads_moreParameters_close
  | q :: qs, free =>
    by
    rw [List.flatMap_cons, List.append_assoc, List.cons_append, List.cons_append, List.nil_append]
    exact Script.reads_moreParameters_cons (free q (by simp))
      (reads_moreParams qs fun q' listed => free q' (by simp [listed]))

theorem reads_params {ps : List String} (free : ∀ p ∈ ps, isReserved p = false) (flag : Bool)
    (m : List Script.Token) :
    Reads parameters (⟨.punctuator "(", flag⟩ :: (paramTokens ps ++ ⟨.punctuator ")", false⟩ :: m))
      ps m := by
  cases ps with
  | nil => exact Script.reads_parameters_nil
  | cons p qs =>
    rw [paramTokens, List.cons_append]
    exact Script.reads_parameters_cons (free p (by simp))
      (reads_moreParams qs fun q listed => free q (by simp [listed]))

theorem routineReads_of_body {head name : String} {params : List String} {body : List Stmt}
    (plainHead : isIdentifierName head) (plainParams : ∀ p ∈ params, isBindingName p)
    (inner : Stmt.ListReads (level + 1) body) :
    Stmt.RoutineReads level head ⟨name, params, body⟩ := by
  obtain ⟨tokens, -, lexes, reads⟩ := inner
  simp only [isBindingName_iff] at plainParams
  refine ⟨⟨.punctuator "(", false⟩ :: (paramTokens params ++ ⟨.punctuator ")", false⟩ ::
    ⟨.punctuator "\x7b", false⟩ :: (tokens ++ [⟨.punctuator "\x7d", true⟩])),
    fun flag ys => ?_, fun flag method more free => ?_⟩
  · have spelled : Stmt.routineCode level head ⟨name, params, body⟩ ++ ys = head.toList ++
        '(' :: ((", ".intercalate params).toList ++ ')' :: ' ' :: '\x7b' ::
          (Stmt.codeList (level + 1) body ++ '\n' :: (indentation level ++ '\x7d' :: ys))) := by
      simp [Stmt.routineCode, closingLine]
    rw [spelled]
    exact ((LexesPrefix.name plainHead fun d first => by cases first; exact isIdentifierPart_closer (by decide)).trans
      ((LexesPrefix.closer (by decide)).trans
        ((lexes_params fun p listed => (plainParams p listed).1).trans
          ((LexesPrefix.closer (by decide)).trans (LexesPrefix.blank.trans
            ((LexesPrefix.closer (by decide)).trans ((lexes false _).trans
              lexes_closing))))))).of_tokens (by simp)
  · have read : Reads (routine method) (⟨.name head, flag⟩ :: ⟨.punctuator "(", false⟩ ::
        (paramTokens params ++ ⟨.punctuator ")", false⟩ :: ⟨.punctuator "\x7b", false⟩ ::
          (tokens ++ ⟨.punctuator "\x7d", true⟩ :: more)))
        (Stmt.lowerRoutine head ⟨name, params, body⟩) more :=
      Script.reads_routine free (reads_params (fun p listed => (plainParams p listed).2) false _)
        (Script.reads_functionBody (reads true more))
    exact read.of_eq (by simp)

theorem routineCode_append (head more : String) (definition : FunctionDef Stmt) :
    Stmt.routineCode level (head ++ more) definition =
      head.toList ++ Stmt.routineCode level more definition := by
  obtain ⟨name, params, body⟩ := definition
  simp [Stmt.routineCode]

theorem function_codeReads {definition : FunctionDef Stmt} (plain : isBindingName definition.name)
    (inner : Stmt.RoutineReads level definition.name definition) :
    (Stmt.function definition).CodeReads level := by
  obtain ⟨rest, lexes, reads⟩ := inner
  rw [isBindingName_iff] at plain
  refine ⟨.name "function", ⟨.name definition.name, false⟩ :: rest, by decide, by decide,
    fun flag ys => ?_, fun flag more _ => ?_⟩
  · have spelled : (Stmt.function definition).code level ++ ys = "function".toList ++ ' ' ::
        (Stmt.routineCode level definition.name definition ++ ys) := by
      rw [Stmt.code, routineCode_append]
      simp
    rw [spelled]
    exact ((LexesPrefix.word (by decide)).trans (lexes false ys)).of_tokens rfl
  · have read : Reads (statementListItem true) (⟨.name "function", flag⟩ ::
        (⟨.name definition.name, false⟩ :: rest ++ more)) (Stmt.function definition).lower more :=
      Script.reads_functionDecl (reads false false more fun _ => plain.2)
    exact ⟨read, fun notDeclaration => by cases notDeclaration⟩

theorem methodName_identifier {name : String} (plain : isIdentifierName name) :
    isIdentifierName (methodName name) := by
  unfold methodName
  split
  · decide
  · exact plain

theorem methodsReads_nil : Stmt.MethodsReads level [] :=
  ⟨[], (fun _ _ => LexesPrefix.lineBreak), fun _ _ => Script.reads_classBody_close⟩

theorem methodsReads_cons {method : FunctionDef Stmt} {methods : List (FunctionDef Stmt)}
    (head : Stmt.RoutineReads level (methodName method.name) method)
    (tail : Stmt.MethodsReads level methods) : Stmt.MethodsReads level (method :: methods) := by
  obtain ⟨rest, lexes, reads⟩ := head
  obtain ⟨tokens, lexesTail, readsTail⟩ := tail
  refine ⟨⟨.name (methodName method.name), true⟩ :: rest ++ tokens, fun flag ys => ?_,
    fun f more => ?_⟩
  · have spelled : Stmt.methodsCode level (method :: methods) ++ '\n' :: ys = '\n' ::
        (List.replicate (2 * level) ' ' ++ (Stmt.routineCode level (methodName method.name) method ++
          (Stmt.methodsCode level methods ++ '\n' :: ys))) := by
      simp [Stmt.methodsCode, indentation]
    rw [spelled]
    exact (LexesPrefix.lineBreak.trans ((LexesPrefix.indent _).trans
      ((lexes true _).trans (lexesTail false ys)))).of_tokens (by simp)
  · exact (Script.reads_classBody_cons (Script.accept_cons_of_ne _ (by simp))
      (reads true true _ fun no => by cases no) (readsTail f more)).of_eq (by simp)

theorem classDecl_codeReads {name : String} {methods : List (FunctionDef Stmt)}
    (plain : isBindingName name) (inner : Stmt.MethodsReads (level + 1) methods) :
    (Stmt.classDecl name methods).CodeReads level := by
  obtain ⟨tokens, lexes, reads⟩ := inner
  rw [isBindingName_iff] at plain
  refine ⟨.name "class", ⟨.name name, false⟩ :: ⟨.punctuator "\x7b", false⟩ ::
    (tokens ++ [⟨.punctuator "\x7d", true⟩]), by decide, by decide, fun flag ys => ?_,
    fun flag more _ => ?_⟩
  · have spelled : (Stmt.classDecl name methods).code level ++ ys = "class".toList ++ ' ' ::
        (name.toList ++ ' ' :: '\x7b' :: (Stmt.methodsCode (level + 1) methods ++ '\n' ::
          (indentation level ++ '\x7d' :: ys))) := by
      simp [Stmt.code, closingLine]
    rw [spelled]
    exact ((LexesPrefix.word (by decide)).trans ((LexesPrefix.word plain.1).trans
      ((LexesPrefix.closer (by decide)).trans ((lexes false _).trans
        lexes_closing)))).of_tokens (by simp)
  · have read : Reads (statementListItem true) (⟨.name "class", flag⟩ :: ⟨.name name, false⟩ ::
        ⟨.punctuator "\x7b", false⟩ :: (tokens ++ ⟨.punctuator "\x7d", true⟩ :: more))
        (Stmt.classDecl name methods).lower more :=
      Script.reads_classDecl plain.2 (reads true more)
    exact ⟨read.of_eq (by simp), fun notDeclaration => by cases notDeclaration⟩

end Routines

section Program

mutual

/-- The code of a statement reads as the statement's tree when the statement nests as the
parser nests statements, binds only names that may be bound, and holds only expressions whose
text reads as their trees. -/
theorem Stmt.codeReads (level : Nat) : (s : Stmt) → s.wellNested = true →
    (∀ n ∈ s.bindings, isBindingName n = true) → (∀ e ∈ s.exprs, e.RendersAs) →
    s.CodeReads level
  | .expr value, _, _, exprs => expr_codeReads (exprs value (by simp [Stmt.exprs]))
  | .letDecl name value, _, names, exprs =>
    letDecl_codeReads (names name (by simp [Stmt.bindings])) (exprs value (by simp [Stmt.exprs]))
  | .ret value, _, _, exprs => ret_codeReads (exprs value (by simp [Stmt.exprs]))
  | .block body, nested, names, exprs => by
    rw [Stmt.wellNested] at nested
    rw [Stmt.bindings] at names
    rw [Stmt.exprs] at exprs
    exact block_codeReads (Stmt.listReads (level + 1) body nested names exprs)
  | .function ⟨name, params, body⟩, nested, names, exprs => by
    rw [Stmt.wellNested] at nested
    rw [Stmt.bindings] at names
    rw [Stmt.exprs] at exprs
    have plain := names name (by simp [Stmt.routineBindings])
    exact function_codeReads plain (Stmt.routineReads level name (isBindingName_iff.mp plain).1
      ⟨name, params, body⟩ nested names exprs)
  | .classDecl name methods, nested, names, exprs => by
    rw [Stmt.wellNested] at nested
    rw [Stmt.bindings] at names
    rw [Stmt.exprs] at exprs
    exact classDecl_codeReads (names name (by simp))
      (Stmt.methodsReads (level + 1) methods nested (fun n listed => names n (by simp [listed]))
        exprs)
  | .ifElse test consequent none, nested, names, exprs => by
    simp only [Stmt.wellNested, Bool.and_eq_true, Bool.not_eq_eq_eq_not, Bool.not_true]
      at nested
    rw [Stmt.bindings] at names
    exact ifElse_codeReads_none (exprs test (by simp [Stmt.exprs])) nested.1
      (Stmt.codeReads level consequent nested.2 names
        (fun e listed => exprs e (by simp [Stmt.exprs, listed])))
  | .ifElse test consequent (some alternate), nested, names, exprs => by
    simp only [Stmt.wellNested, Bool.and_eq_true, Bool.not_eq_eq_eq_not, Bool.not_true]
      at nested
    obtain ⟨⟨⟨⟨notDeclaration, closed⟩, nestedC⟩, altDeclaration⟩, nestedA⟩ := nested
    exact ifElse_codeReads_some (exprs test (by simp [Stmt.exprs])) notDeclaration closed
      altDeclaration
      (Stmt.codeReads level consequent nestedC
        (fun n listed => names n (by simp [Stmt.bindings, listed]))
        (fun e listed => exprs e (by simp [Stmt.exprs, listed])))
      (Stmt.codeReads level alternate nestedA
        (fun n listed => names n (by simp [Stmt.bindings, listed]))
        (fun e listed => exprs e (by simp [Stmt.exprs, listed])))
  | .whileLoop test body, nested, names, exprs => by
    simp only [Stmt.wellNested, Bool.and_eq_true, Bool.not_eq_eq_eq_not, Bool.not_true]
      at nested
    rw [Stmt.bindings] at names
    exact whileLoop_codeReads (exprs test (by simp [Stmt.exprs])) nested.1
      (Stmt.codeReads level body nested.2 names
        (fun e listed => exprs e (by simp [Stmt.exprs, listed])))
  | .forEach element collection body, nested, names, exprs => by
    simp only [Stmt.wellNested, Bool.and_eq_true, Bool.not_eq_eq_eq_not, Bool.not_true]
      at nested
    exact forEach_codeReads (names element (by simp [Stmt.bindings]))
      (exprs collection (by simp [Stmt.exprs])) nested.1
      (Stmt.codeReads level body nested.2
        (fun n listed => names n (by simp [Stmt.bindings, listed]))
        (fun e listed => exprs e (by simp [Stmt.exprs, listed])))

/-- The code of statements reads as their trees under the same conditions. -/
theorem Stmt.listReads (level : Nat) : (ss : List Stmt) → Stmt.wellNestedList ss = true →
    (∀ n ∈ Stmt.bindingsList ss, isBindingName n = true) →
    (∀ e ∈ Stmt.exprsList ss, e.RendersAs) → Stmt.ListReads level ss
  | [], _, _, _ => listReads_nil
  | s :: ss, nested, names, exprs => by
    simp only [Stmt.wellNestedList, Bool.and_eq_true] at nested
    exact listReads_cons
      (Stmt.codeReads level s nested.1
        (fun n listed => names n (by simp [Stmt.bindingsList, listed]))
        (fun e listed => exprs e (by simp [Stmt.exprsList, listed])))
      (Stmt.listReads level ss nested.2
        (fun n listed => names n (by simp [Stmt.bindingsList, listed]))
        (fun e listed => exprs e (by simp [Stmt.exprsList, listed])))

/-- The code of a function reads as the function under any header that is an identifier
name. -/
theorem Stmt.routineReads (level : Nat) (head : String) (plainHead : isIdentifierName head = true) :
    (definition : FunctionDef Stmt) → Stmt.wellNestedRoutine definition = true →
    (∀ n ∈ Stmt.routineBindings definition, isBindingName n = true) →
    (∀ e ∈ Stmt.routineExprs definition, e.RendersAs) → Stmt.RoutineReads level head definition
  | ⟨name, params, body⟩, nested, names, exprs => by
    rw [Stmt.wellNestedRoutine] at nested
    rw [Stmt.routineExprs] at exprs
    exact routineReads_of_body plainHead
      (fun p listed => names p (by simp [Stmt.routineBindings, listed]))
      (Stmt.listReads (level + 1) body nested
        (fun n listed => names n (by simp [Stmt.routineBindings, listed])) exprs)

/-- The code of the methods of a class reads as the methods under the same conditions. -/
theorem Stmt.methodsReads (level : Nat) : (methods : List (FunctionDef Stmt)) →
    Stmt.wellNestedMethods methods = true →
    (∀ n ∈ Stmt.methodBindings methods, isBindingName n = true) →
    (∀ e ∈ Stmt.methodExprs methods, e.RendersAs) → Stmt.MethodsReads level methods
  | [], _, _, _ => methodsReads_nil
  | ⟨name, params, body⟩ :: methods, nested, names, exprs => by
    simp only [Stmt.wellNestedMethods, Bool.and_eq_true] at nested
    have plain := names name (by simp [Stmt.methodBindings, Stmt.routineBindings])
    exact methodsReads_cons
      (Stmt.routineReads level (methodName name)
        (methodName_identifier (isBindingName_iff.mp plain).1) ⟨name, params, body⟩ nested.1
        (fun n listed => names n (by simp [Stmt.methodBindings, listed]))
        (fun e listed => exprs e (by simp [Stmt.methodExprs, listed])))
      (Stmt.methodsReads level methods nested.2
        (fun n listed => names n (by simp [Stmt.methodBindings, listed]))
        (fun e listed => exprs e (by simp [Stmt.methodExprs, listed])))

end

end Program

end VieCompiler
