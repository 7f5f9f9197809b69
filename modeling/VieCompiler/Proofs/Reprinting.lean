import VieCompiler.Proofs.ReadingBack
import VieCompiler.Proofs.Negations
import Mathlib

/-!
# Reading printed programs back

A program that the parser read from some source text is read back from its print, or the
parser runs out of budget on the print; with room for sixteen calls a token it does not run
out (`Program.ofSourceAt_print`). The print may need more budget than the source did: a
negation `- x` is printed as `0 - (x)` when `x` is an operation, and a pair of parentheses
costs the parser a call at every precedence level.

The statements are read back as the expressions are (`VieCompiler.Proofs.ReadingBack`), by
an invariant of every statement production at budget `b` (`Parser.StmtsReadBack`) and the
loops over the statements of a block, the methods of a class and the top level by induction
on the list. Three facts of the parsed program make its print readable, and the parser
proves each of them of what it reads:

* its leaves have the lexer's shapes (`Program.ofSourceAt_lexical`), so that the lexer reads
  the print back to the program's tokens (`Program.tokenize_print`);
* it nests as the parser nests statements (`Program.ofSourceAt_wellNested`): the body of a
  conditional or a loop is no declaration, and an alternative never follows a consequent that
  ends in a conditional without one, which would take it;
* no statement that ends in an expression is followed by one that starts with a parenthesis
  or a bracket (`Program.ofSourceAt_separated`), which would continue that expression.
-/

namespace VieCompiler

namespace Stmt

/-- What the parser needs of a statement to read it back from its printed tokens: leaves of
the lexer's shapes, nesting as the parser nests statements, and no statement before a bracket
that would continue it. -/
def Reprintable (s : Stmt) : Prop :=
  s.WellFormed Leaves.lexical ∧ s.wellNested = true ∧ s.separated = true

/-- The same of a list of statements, which also separates its own statements. -/
def ListReprintable (ss : List Stmt) : Prop :=
  Stmt.ListWellFormed Leaves.lexical ss ∧ Stmt.wellNestedList ss = true ∧
    Stmt.separatedList ss = true

/-- The same of the methods of a class. -/
def MethodsReprintable (methods : List (FunctionDef Stmt)) : Prop :=
  Stmt.MethodsWellFormed Leaves.lexical methods ∧ Stmt.wellNestedMethods methods = true ∧
    Stmt.separatedMethods methods = true

/-- The kinds of the tokens that the statement may start with: its keyword or brace, or those
an expression starts with. -/
def leads : Stmt → List Token.Kind
  | expr _ => Expr.starts
  | letDecl _ _ => [.keyword .cho]
  | function _ => [.keyword .ham]
  | classDecl _ _ => [.keyword .lop]
  | ret _ => [.keyword .traVe]
  | block _ => [.lbrace]
  | ifElse _ _ _ => [.keyword .neu]
  | whileLoop _ _ => [.keyword .khi]
  | forEach _ _ _ => [.keyword .voiMoi]

theorem printed_leads : ∀ s : Stmt, StartsAs s.leads s.opensBracket s.printed
  | expr value => Expr.printed_startsAs value
  | letDecl _ _ | function _ | classDecl _ _ | ret _ | block _ | ifElse _ _ none
  | ifElse _ _ (some _) | whileLoop _ _ | forEach _ _ _ =>
    ⟨_, _, rfl, by simp [leads, Keyword.token], by simp [opensBracket, Keyword.token]⟩

/-- No statement starts with a closing brace, the end of input or an alternative, and only a
parenthesis or a bracket at its start would continue an expression before it. -/
theorem leads_apart (s : Stmt) :
    ∀ k ∈ s.leads, k ≠ .rbrace ∧ k ≠ .eof ∧ k ≠ .keyword .nguocLai ∧ k ≠ .keyword .conNeu ∧
      (k = .lparen ∨ k = .lbracket ∨ k.continuesAt 0 = false) := by
  cases s <;> simp only [leads] <;> decide

/-- A statement that is no declaration starts with none of the keywords of declarations. -/
theorem leads_of_isDeclaration {s : Stmt} (notDeclaration : s.isDeclaration = false) :
    .keyword .cho ∉ s.leads ∧ .keyword .ham ∉ s.leads ∧ .keyword .lop ∉ s.leads := by
  cases s <;> simp only [isDeclaration, Bool.true_eq_false] at notDeclaration <;>
    simp only [leads] <;> decide

section Parts

variable {test : Expr} {consequent alternate body : Stmt}

theorem Reprintable.ifElse_none (good : (ifElse test consequent none).Reprintable) :
    test.WellFormed Leaves.lexical ∧ consequent.Reprintable ∧
      consequent.isDeclaration = false := by
  obtain ⟨⟨tested, lexical⟩, nested, separated⟩ := good
  simp only [wellNested, Bool.and_eq_true, Bool.not_eq_true'] at nested
  exact ⟨tested, ⟨lexical, nested.2, separated⟩, nested.1⟩

theorem Reprintable.ifElse_some (good : (ifElse test consequent (some alternate)).Reprintable) :
    test.WellFormed Leaves.lexical ∧ consequent.Reprintable ∧
      consequent.isDeclaration = false ∧ consequent.endsOpen = false ∧ alternate.Reprintable ∧
        alternate.isDeclaration = false := by
  obtain ⟨⟨tested, lexical, lexicalAlternate⟩, nested, separated⟩ := good
  simp only [wellNested, Bool.and_eq_true, Bool.not_eq_true'] at nested
  obtain ⟨⟨⟨⟨notDeclaration, closed⟩, nestedConsequent⟩, notDeclarationAlternate⟩,
    nestedAlternate⟩ := nested
  simp only [Stmt.separated, Bool.and_eq_true] at separated
  exact ⟨tested, ⟨lexical, nestedConsequent, separated.1⟩, notDeclaration, closed,
    ⟨lexicalAlternate, nestedAlternate, separated.2⟩, notDeclarationAlternate⟩

theorem Reprintable.whileLoop (good : (whileLoop test body).Reprintable) :
    test.WellFormed Leaves.lexical ∧ body.Reprintable ∧ body.isDeclaration = false := by
  obtain ⟨⟨tested, lexical⟩, nested, separated⟩ := good
  simp only [wellNested, Bool.and_eq_true, Bool.not_eq_true'] at nested
  exact ⟨tested, ⟨lexical, nested.2, separated⟩, nested.1⟩

theorem Reprintable.forEach {element : String} (good : (forEach element test body).Reprintable) :
    test.WellFormed Leaves.lexical ∧ body.Reprintable ∧ body.isDeclaration = false := by
  obtain ⟨⟨-, tested, lexical⟩, nested, separated⟩ := good
  simp only [wellNested, Bool.and_eq_true, Bool.not_eq_true'] at nested
  exact ⟨tested, ⟨lexical, nested.2, separated⟩, nested.1⟩

theorem Reprintable.block {ss : List Stmt} (good : (block ss).Reprintable) : ListReprintable ss :=
  good

theorem Reprintable.function {name : String} {params : List String} {ss : List Stmt}
    (good : (function ⟨name, params, ss⟩).Reprintable) : ListReprintable ss :=
  ⟨good.1.2.2, good.2.1, good.2.2⟩

theorem Reprintable.classDecl {name : String} {methods : List (FunctionDef Stmt)}
    (good : (classDecl name methods).Reprintable) : MethodsReprintable methods :=
  ⟨good.1.2, good.2.1, good.2.2⟩

theorem ListReprintable.cons {s : Stmt} {ss : List Stmt} (good : ListReprintable (s :: ss)) :
    s.Reprintable ∧ ListReprintable ss ∧
      (s.endsInExpression = true → headOpensBracket ss = false) := by
  obtain ⟨⟨lexical, lexicalMore⟩, nested, separated⟩ := good
  simp only [wellNestedList, Bool.and_eq_true] at nested
  simp only [separatedList, Bool.and_eq_true, Bool.not_eq_true', Bool.and_eq_false_iff] at separated
  obtain ⟨⟨separatedFirst, apart⟩, separatedMore⟩ := separated
  refine ⟨⟨lexical, nested.1, separatedFirst⟩, ⟨lexicalMore, nested.2, separatedMore⟩, ?_⟩
  intro ends
  simpa [ends] using apart

theorem MethodsReprintable.cons {m : FunctionDef Stmt} {methods : List (FunctionDef Stmt)}
    (good : MethodsReprintable (m :: methods)) :
    ListReprintable m.body ∧ MethodsReprintable methods := by
  obtain ⟨name, params, body⟩ := m
  obtain ⟨⟨lexical, lexicalMore⟩, nested, separated⟩ := good
  simp only [wellNestedMethods, wellNestedRoutine, Bool.and_eq_true] at nested
  simp only [separatedMethods, separatedRoutine, Bool.and_eq_true] at separated
  exact ⟨⟨lexical.2.2, nested.1, separated.1⟩, ⟨lexicalMore, nested.2, separated.2⟩⟩

end Parts

end Stmt

namespace Parser

/-- A statement ends before `rest` for the parser: no token in front of `rest` continues the
expression the statement ends in, and no alternative follows one that ends in a conditional
without an alternative. -/
def EndsBefore (s : Stmt) (rest : List Token) : Prop :=
  (s.endsInExpression = true → Stops 0 rest) ∧ (s.endsOpen = true → NoElse rest)

section Tokens

variable {kinds : List Token.Kind} {opens : Bool} {tokens : List (Token.Kind × String)}
  {front rest : List Token}

/-- Tokens spelled as a list that starts with `tok` start with a token of its kind, and the
others spell the rest of the list. -/
theorem spelled_head (tok : Token.Kind × String) (head : tokens.head? = some tok)
    (spelled : front.map Token.spelling = tokens) :
    ∃ t more, front = t :: more ∧ t.kind = tok.1 ∧ more.map Token.spelling = tokens.tail := by
  cases tokens with
  | nil => cases head
  | cons first others =>
    obtain rfl : first = tok := Option.some.inj head
    obtain ⟨t, more, rfl, spelling, spelledMore⟩ := List.map_eq_cons_iff.mp spelled
    exact ⟨t, more, rfl, congrArg Prod.fst spelling, spelledMore⟩

theorem next?_of_keyword {k : Keyword} {t : Token} (rest : List Token)
    (same : t.kind = k.token.1) : next? (.keyword k) (t :: rest) = some ⟨rest, Nat.lt_succ_self _⟩ :=
  next?_of_kind rest same (by simp)

theorem next?_append_of_keyword {k : Keyword} {t : Token} (more rest : List Token)
    (same : t.kind = k.token.1) :
    next? (.keyword k) (t :: more ++ rest) = some ⟨more ++ rest, Nat.lt_succ_self _⟩ :=
  next?_of_keyword _ same

theorem atCloseOrEnd_of_kind {t : Token} (rest : List Token) (notClose : t.kind ≠ .rbrace)
    (notEnd : t.kind ≠ .eof) : atCloseOrEnd .rbrace (t :: rest) = false := by
  simp [atCloseOrEnd, next?_of_ne _ notClose, atEnd, peek, notEnd]

theorem atCloseOrEnd_of_close {t : Token} (rest : List Token) (close : t.kind = .rbrace) :
    atCloseOrEnd .rbrace (t :: rest) = true := by
  simp [atCloseOrEnd, next?_of_kind _ close (by decide)]

theorem atCloseOrEnd_of_startsAs (starts : StartsAs kinds opens tokens)
    (spelled : front.map Token.spelling = tokens) (noClose : .rbrace ∉ kinds)
    (noEnd : .eof ∉ kinds) : atCloseOrEnd .rbrace (front ++ rest) = false := by
  obtain ⟨t, more, rfl, within, -⟩ := StartsAs.spelled starts spelled
  exact atCloseOrEnd_of_kind _ (fun same => noClose (same ▸ within))
    (fun same => noEnd (same ▸ within))

theorem atEnd_of_startsAs (starts : StartsAs kinds opens tokens)
    (spelled : front.map Token.spelling = tokens) (noEnd : .eof ∉ kinds) :
    atEnd (front ++ rest) = false := by
  obtain ⟨t, more, rfl, within, -⟩ := StartsAs.spelled starts spelled
  have notEnd : t.kind ≠ .eof := fun same => noEnd (same ▸ within)
  simp [atEnd, peek, notEnd]

/-- A statement ends before the next statement of a list, or before the closing brace or the
end of input, when it ends in no expression that the next statement's bracket would continue. -/
theorem endsBefore_printedList {s : Stmt} {ss : List Stmt} {close : Token.Kind × String}
    (closing : close.1 = .rbrace ∨ close.1 = .eof)
    (apart : s.endsInExpression = true → Stmt.headOpensBracket ss = false)
    (spelled : front.map Token.spelling = Stmt.printedList ss ++ [close]) :
    EndsBefore s (front ++ rest) := by
  -- the token after the statement is the next statement's first, or the closing one
  obtain ⟨t, more, rfl, stops, noElse⟩ : ∃ t more, front = t :: more ∧
      (s.endsInExpression = true → t.kind.continuesAt 0 = false) ∧
      t.kind ≠ .keyword .nguocLai ∧ t.kind ≠ .keyword .conNeu := by
    cases ss with
    | nil =>
      obtain ⟨u, rfl, kind, -⟩ := spelled_singleton spelled
      refine ⟨u, [], rfl, fun _ => ?_, ?_, ?_⟩ <;> rcases closing with closing | closing <;>
        rw [kind, closing] <;> decide
    | cons next others =>
      rw [Stmt.printedList, List.append_assoc] at spelled
      obtain ⟨f₁, f₂, rfl, spelled₁, -⟩ := List.map_eq_append_iff.mp spelled
      obtain ⟨t, more, rfl, within, bracket⟩ := StartsAs.spelled (Stmt.printed_leads next) spelled₁
      obtain ⟨-, -, notElse, notElseIf, stopsOrOpens⟩ := Stmt.leads_apart next t.kind within
      refine ⟨t, more ++ f₂, rfl, fun ends => ?_, notElse, notElseIf⟩
      have closed : next.opensBracket = false := apart ends
      rcases stopsOrOpens with opensHere | opensHere | stops
      · rw [bracket.mp (.inl opensHere)] at closed
        cases closed
      · rw [bracket.mp (.inr opensHere)] at closed
        cases closed
      · exact stops
  exact ⟨fun ends => stops_of_continuesAt _ (stops ends),
    fun _ => ⟨next?_of_ne _ noElse.1, next?_of_ne _ noElse.2⟩⟩

end Tokens

section Statements

/-- The invariant of the statement productions with budget `b`: each reads back what the printer
writes for it. The productions after a keyword read what follows the keyword, and the loops
read up to and including the closing brace. -/
structure StmtsReadBack (b : Nat) : Prop where
  statement : ∀ s : Stmt, s.Reprintable → s.isDeclaration = false → ∀ front rest,
    front.map Token.spelling = s.printed → EndsBefore s rest →
      ReadsBack (statement b (front ++ rest)) s rest
  declaration : ∀ s : Stmt, s.Reprintable → ∀ front rest,
    front.map Token.spelling = s.printed → EndsBefore s rest →
      ReadsBack (declaration b (front ++ rest)) s rest
  ifRest : ∀ test consequent alternate, (Stmt.ifElse test consequent alternate).Reprintable →
    ∀ front rest, front.map Token.spelling = (Stmt.ifElse test consequent alternate).printed.tail →
      EndsBefore (.ifElse test consequent alternate) rest →
        ReadsBack (ifRest b (front ++ rest)) (.ifElse test consequent alternate) rest
  whileRest : ∀ test body, (Stmt.whileLoop test body).Reprintable → ∀ front rest,
    front.map Token.spelling = (Stmt.whileLoop test body).printed.tail →
      EndsBefore (.whileLoop test body) rest →
        ReadsBack (whileRest b (front ++ rest)) (.whileLoop test body) rest
  forEachRest : ∀ element collection body, (Stmt.forEach element collection body).Reprintable →
    ∀ front rest, front.map Token.spelling = (Stmt.forEach element collection body).printed.tail →
      EndsBefore (.forEach element collection body) rest →
        ReadsBack (forEachRest b (front ++ rest)) (.forEach element collection body) rest
  blockRest : ∀ ss, Stmt.ListReprintable ss → ∀ front rest,
    front.map Token.spelling = Stmt.printedList ss ++ [(.rbrace, "\x7d")] →
      ReadsBack (blockRest b (front ++ rest)) ss rest
  routine : ∀ kind name params body, Stmt.ListReprintable body → ∀ front rest,
    front.map Token.spelling = Stmt.printedRoutine ⟨name, params, body⟩ →
      ReadsBack (routine b kind (front ++ rest)) ⟨name, params, body⟩ rest
  classDecl : ∀ name methods, Stmt.MethodsReprintable methods → ∀ front rest,
    front.map Token.spelling = (Stmt.classDecl name methods).printed.tail →
      ReadsBack (classDecl b (front ++ rest)) (.classDecl name methods) rest
  classBody : ∀ methods, Stmt.MethodsReprintable methods → ∀ front rest,
    front.map Token.spelling = Stmt.printedMethods methods ++ [(.rbrace, "\x7d")] →
      ReadsBack (classBody b (front ++ rest)) methods rest

variable {b : Nat}

/-- Parameter names after a comma each, up to the closing parenthesis, by induction on the
names. -/
theorem moreParameters_readsBack :
    ∀ (params : List String) (front rest : List Token),
      front.map Token.spelling =
          params.flatMap (fun q => [(.comma, ","), (.ident, q)]) ++ [(.rparen, ")")] →
        ReadsBack (moreParameters (front ++ rest)) params rest
  | [], front, rest, spelled => by
    obtain ⟨u, rfl, kind, -⟩ := spelled_singleton spelled
    rw [List.singleton_append, moreParameters, next?_of_ne _ (by rw [kind]; decide)]
    exact Yields.bind_ok (expect_of_kind kind (by decide)) (.ok ⟨rfl, rfl⟩)
  | q :: qs, front, rest, spelled => by
    simp only [List.flatMap_cons, List.cons_append, List.nil_append] at spelled
    obtain ⟨c, more, rfl, comma, moreSpelled⟩ := List.map_eq_cons_iff.mp spelled
    obtain ⟨u, f, rfl, named, spelledMore⟩ := List.map_eq_cons_iff.mp moreSpelled
    have nameKind : u.kind = .ident := congrArg Prod.fst named
    have lexeme : u.lexeme = q := congrArg Prod.snd named
    rw [List.cons_append, List.cons_append, moreParameters,
      next?_of_kind _ (congrArg Prod.fst comma) (by decide)]
    refine Yields.bind_ok (name_of_ident nameKind) ?_
    refine ReadsBack.bind (moreParameters_readsBack qs f rest spelledMore) fun _ => .ok ⟨?_, rfl⟩
    show u.lexeme :: qs = q :: qs
    rw [lexeme]

/-- Parameter names up to the closing parenthesis; a first name needs a unit of the budget. -/
theorem parameters_readsBack (budget : Nat) (params : List String) (front rest : List Token)
    (spelled : front.map Token.spelling = printedParams params ++ [(.rparen, ")")]) :
    ReadsBack (parameters budget (front ++ rest)) params rest := by
  cases params with
  | nil =>
    obtain ⟨u, rfl, kind, -⟩ := spelled_singleton spelled
    rw [List.singleton_append, parameters, next?_of_kind _ kind (by decide)]
    exact .ok ⟨rfl, rfl⟩
  | cons p ps =>
    obtain ⟨u, f, rfl, named, spelledMore⟩ := List.map_eq_cons_iff.mp spelled
    have nameKind : u.kind = .ident := congrArg Prod.fst named
    have lexeme : u.lexeme = p := congrArg Prod.snd named
    rw [List.cons_append, parameters, next?_of_ne _ (by rw [nameKind]; decide)]
    by_cases spent : budget = 0
    · simp only [spent, ↓reduceIte]
      exact .tooDeep
    simp only [spent, ↓reduceIte]
    refine Yields.bind_ok (name_of_ident nameKind) ?_
    refine ReadsBack.bind (moreParameters_readsBack ps f rest spelledMore) fun _ => .ok ⟨?_, rfl⟩
    show u.lexeme :: ps = p :: ps
    rw [lexeme]

/-- Tokens spelled as a condition in parentheses and what follows it. -/
theorem spelled_condition {test : Expr} {tail : List (Token.Kind × String)} {front : List Token}
    (spelled : front.map Token.spelling = (.lparen, "(") :: (test.printed ++ (.rparen, ")") :: tail)) :
    ∃ u f v g, front = u :: (f ++ v :: g) ∧ u.kind = .lparen ∧
      f.map Token.spelling = test.printed ∧ v.kind = .rparen ∧ g.map Token.spelling = tail := by
  obtain ⟨u, more, rfl, opening, spelledMore⟩ := List.map_eq_cons_iff.mp spelled
  obtain ⟨f, after, rfl, spelledTest, spelledAfter⟩ := List.map_eq_append_iff.mp spelledMore
  obtain ⟨v, g, rfl, closing, spelledTail⟩ := List.map_eq_cons_iff.mp spelledAfter
  exact ⟨u, f, v, g, rfl, congrArg Prod.fst opening, spelledTest, congrArg Prod.fst closing,
    spelledTail⟩

/-- A condition is read up to the parenthesis that closes it. -/
theorem condition_readsBack {test : Expr} (tested : test.WellFormed Leaves.lexical)
    {f : List Token} (spelled : f.map Token.spelling = test.printed) {v : Token}
    (closing : v.kind = .rparen) (more : List Token) :
    ReadsBack (expression b (f ++ v :: more)) test (v :: more) :=
  (exprsReadBack b).expression test tested f (v :: more) (by rwa [Expr.printedAt_zero])
    (stops_of_continuesAt _ (by rw [closing]; rfl))

/-- A variable declaration after `cho`: its name, `=` and its value. -/
theorem variableDecl_readsBack (name : String) (value : Expr)
    (good : (Stmt.letDecl name value).Reprintable) (front rest : List Token)
    (spelled : front.map Token.spelling = (Stmt.letDecl name value).printed.tail)
    (ends : EndsBefore (.letDecl name value) rest) :
    ReadsBack (variableDecl b (front ++ rest)) (.letDecl name value) rest := by
  cases b with
  | zero => exact .tooDeep
  | succ b =>
    obtain ⟨u, f, rfl, named, spelledMore⟩ := List.map_eq_cons_iff.mp spelled
    obtain ⟨v, g, rfl, equal, spelledValue⟩ := List.map_eq_cons_iff.mp spelledMore
    have lexeme : u.lexeme = name := congrArg Prod.snd named
    rw [List.cons_append, List.cons_append, variableDecl]
    refine Yields.bind_ok (name_of_ident (congrArg Prod.fst named)) ?_
    refine Yields.bind_ok (expect_of_kind (congrArg Prod.fst equal) (by decide)) ?_
    refine ReadsBack.bind ((exprsReadBack b).expression value good.1.2 g rest
      (by rwa [Expr.printedAt_zero]) (ends.1 rfl)) fun _ => .ok ⟨?_, rfl⟩
    show Stmt.letDecl u.lexeme value = .letDecl name value
    rw [lexeme]

/-- A statement is read after the keyword or the brace that starts it, and otherwise as an
expression. -/
theorem statement_readsBack (ih : StmtsReadBack b) (s : Stmt) (good : s.Reprintable)
    (notDeclaration : s.isDeclaration = false) (front rest : List Token)
    (spelled : front.map Token.spelling = s.printed) (ends : EndsBefore s rest) :
    ReadsBack (statement (b + 1) (front ++ rest)) s rest := by
  cases s with
  | letDecl | function | classDecl => cases notDeclaration
  | ifElse test consequent alternate =>
    obtain ⟨u, f, rfl, kind, spelledTail⟩ :=
      spelled_head Keyword.neu.token (by cases alternate <;> rfl) spelled
    rw [List.cons_append, statement, next?_of_keyword _ kind]
    exact ReadsBack.bind (ih.ifRest test consequent alternate good f rest spelledTail ends)
      fun _ => .ok ⟨rfl, rfl⟩
  | whileLoop test body =>
    obtain ⟨u, f, rfl, kind, spelledTail⟩ := spelled_head Keyword.khi.token rfl spelled
    rw [List.cons_append, statement, next?_of_ne _ (by rw [kind]; decide),
      next?_of_keyword _ kind]
    exact ReadsBack.bind (ih.whileRest test body good f rest spelledTail ends)
      fun _ => .ok ⟨rfl, rfl⟩
  | forEach element collection body =>
    obtain ⟨u, f, rfl, kind, spelledTail⟩ := spelled_head Keyword.voiMoi.token rfl spelled
    rw [List.cons_append, statement, next?_of_ne _ (by rw [kind]; decide),
      next?_of_ne _ (by rw [kind]; decide), next?_of_keyword _ kind]
    exact ReadsBack.bind (ih.forEachRest element collection body good f rest spelledTail ends)
      fun _ => .ok ⟨rfl, rfl⟩
  | block ss =>
    obtain ⟨u, f, rfl, kind, spelledTail⟩ := spelled_head (.lbrace, "\x7b") rfl spelled
    rw [List.cons_append, statement, next?_of_ne _ (by rw [kind]; decide),
      next?_of_ne _ (by rw [kind]; decide), next?_of_ne _ (by rw [kind]; decide),
      next?_of_kind _ kind (by decide)]
    exact ReadsBack.bind (ih.blockRest ss good.block f rest spelledTail) fun _ => .ok ⟨rfl, rfl⟩
  | ret value =>
    obtain ⟨u, f, rfl, kind, spelledValue⟩ := spelled_head Keyword.traVe.token rfl spelled
    rw [List.cons_append, statement, next?_of_ne _ (by rw [kind]; decide),
      next?_of_ne _ (by rw [kind]; decide), next?_of_ne _ (by rw [kind]; decide),
      next?_of_ne _ (by rw [kind]; decide), next?_of_keyword _ kind]
    -- the value is read even when it is `rỗng`, which starts no closing brace
    dsimp only
    rw [atCloseOrEnd_of_startsAs (Expr.printed_startsAs value) spelledValue (by decide)
      (by decide)]
    cases b with
    | zero => exact .tooDeep
    | succ b =>
      exact ReadsBack.bind ((exprsReadBack b).expression value good.1 f rest
        (by rwa [Expr.printedAt_zero]) (ends.1 rfl)) fun _ => .ok ⟨rfl, rfl⟩
  | expr value =>
    have starts := Expr.printed_startsAs value
    rw [statement, next?_of_startsAs starts spelled (by decide),
      next?_of_startsAs starts spelled (by decide), next?_of_startsAs starts spelled (by decide),
      next?_of_startsAs starts spelled (by decide), next?_of_startsAs starts spelled (by decide)]
    exact ReadsBack.bind ((exprsReadBack b).expression value good.1 front rest
      (by rwa [Expr.printedAt_zero]) (ends.1 rfl)) fun _ => .ok ⟨rfl, rfl⟩

/-- A declaration is read after its keyword, and any other statement as a statement. -/
theorem declaration_readsBack (ih : StmtsReadBack b) (s : Stmt) (good : s.Reprintable)
    (front rest : List Token) (spelled : front.map Token.spelling = s.printed)
    (ends : EndsBefore s rest) : ReadsBack (declaration (b + 1) (front ++ rest)) s rest := by
  cases declares : s.isDeclaration with
  | false =>
    obtain ⟨cho, ham, lop⟩ := Stmt.leads_of_isDeclaration declares
    have starts := Stmt.printed_leads s
    rw [declaration, next?_of_startsAs starts spelled cho, next?_of_startsAs starts spelled ham,
      next?_of_startsAs starts spelled lop]
    exact ih.statement s good declares front rest spelled ends
  | true =>
    cases s with
    | letDecl name value =>
      obtain ⟨u, f, rfl, kind, spelledTail⟩ := spelled_head Keyword.cho.token rfl spelled
      rw [List.cons_append, declaration, next?_of_keyword _ kind]
      exact ReadsBack.bind (variableDecl_readsBack name value good f rest spelledTail ends)
        fun _ => .ok ⟨rfl, rfl⟩
    | function definition =>
      obtain ⟨name, params, body⟩ := definition
      obtain ⟨u, f, rfl, kind, spelledTail⟩ := spelled_head Keyword.ham.token rfl spelled
      rw [List.cons_append, declaration, next?_of_ne _ (by rw [kind]; decide),
        next?_of_keyword _ kind]
      exact ReadsBack.bind (ih.routine .function name params body good.function f rest
        spelledTail) fun _ => .ok ⟨rfl, rfl⟩
    | classDecl name methods =>
      obtain ⟨u, f, rfl, kind, spelledTail⟩ := spelled_head Keyword.lop.token rfl spelled
      rw [List.cons_append, declaration, next?_of_ne _ (by rw [kind]; decide),
        next?_of_ne _ (by rw [kind]; decide), next?_of_keyword _ kind]
      exact ReadsBack.bind (ih.classDecl name methods good.classDecl f rest spelledTail)
        fun _ => .ok ⟨rfl, rfl⟩
    | expr | ret | block | ifElse | whileLoop | forEach => cases declares

/-- The rest of a conditional after `nếu`: the condition, the consequent, and the alternative
after `ngược_lại`, read as the rest of a conditional when it is one. -/
theorem ifRest_readsBack (ih : StmtsReadBack b) (test : Expr) (consequent : Stmt)
    (alternate : Option Stmt) (good : (Stmt.ifElse test consequent alternate).Reprintable)
    (front rest : List Token)
    (spelled : front.map Token.spelling = (Stmt.ifElse test consequent alternate).printed.tail)
    (ends : EndsBefore (.ifElse test consequent alternate) rest) :
    ReadsBack (ifRest (b + 1) (front ++ rest)) (.ifElse test consequent alternate) rest := by
  cases alternate with
  | none =>
    obtain ⟨tested, goodConsequent, notDeclaration⟩ := good.ifElse_none
    simp only [Stmt.printed, List.cons_append, List.tail_cons] at spelled
    obtain ⟨u, f, v, g, rfl, opening, spelledTest, closing, spelledConsequent⟩ :=
      spelled_condition spelled
    rw [List.cons_append, List.append_assoc, List.cons_append, ifRest]
    refine Yields.bind_ok (expect_of_kind opening (by decide)) ?_
    refine ReadsBack.bind (condition_readsBack tested spelledTest closing (g ++ rest))
      fun _ => ?_
    refine Yields.bind_ok (expect_of_kind closing (by decide)) ?_
    -- without an alternative, the consequent ends where the conditional does
    have noElse : NoElse rest := ends.2 rfl
    refine ReadsBack.bind (ih.statement consequent goodConsequent notDeclaration g rest
      spelledConsequent ⟨ends.1, fun _ => noElse⟩) fun _ => ?_
    rw [noElse.1, noElse.2]
    exact .ok ⟨rfl, rfl⟩
  | some alternate =>
    obtain ⟨tested, goodConsequent, notDeclaration, closed, goodAlternate,
      notDeclarationAlternate⟩ := good.ifElse_some
    simp only [Stmt.printed, List.cons_append, List.tail_cons, List.append_assoc] at spelled
    obtain ⟨u, f, v, g, rfl, opening, spelledTest, closing, spelledBranches⟩ :=
      spelled_condition spelled
    obtain ⟨g₁, after, rfl, spelledConsequent, spelledElse⟩ :=
      List.map_eq_append_iff.mp spelledBranches
    obtain ⟨w, g₂, rfl, elseSpelled, spelledAlternate⟩ := List.map_eq_cons_iff.mp spelledElse
    have elseKind : w.kind = Keyword.nguocLai.token.1 := congrArg Prod.fst elseSpelled
    rw [List.cons_append, List.append_assoc, List.cons_append, List.append_assoc,
      List.cons_append, ifRest]
    refine Yields.bind_ok (expect_of_kind opening (by decide)) ?_
    refine ReadsBack.bind (condition_readsBack tested spelledTest closing
      (g₁ ++ w :: (g₂ ++ rest))) fun _ => ?_
    refine Yields.bind_ok (expect_of_kind closing (by decide)) ?_
    -- the consequent ends before `ngược_lại`, which continues no expression
    refine ReadsBack.bind (ih.statement consequent goodConsequent notDeclaration g₁
      (w :: (g₂ ++ rest)) spelledConsequent
      ⟨fun _ => stops_of_continuesAt _ (by rw [elseKind]; rfl), fun opens => by
        rw [closed] at opens
        cases opens⟩) fun _ => ?_
    rw [next?_of_keyword _ elseKind]
    dsimp only
    have endsAlternate : EndsBefore alternate rest := ends
    cases alternate with
    | ifElse test' consequent' alternate' =>
      obtain ⟨x, g₃, rfl, kind, spelledTail⟩ :=
        spelled_head Keyword.neu.token (by cases alternate' <;> rfl) spelledAlternate
      rw [next?_append_of_keyword _ _ kind]
      exact ReadsBack.bind (ih.ifRest test' consequent' alternate' goodAlternate g₃ rest
        spelledTail endsAlternate) fun _ => .ok ⟨rfl, rfl⟩
    | expr | letDecl | function | classDecl | ret | block | whileLoop | forEach =>
      rw [next?_of_startsAs (Stmt.printed_leads _) spelledAlternate
        (by simp only [Stmt.leads]; decide)]
      exact ReadsBack.bind (ih.statement _ goodAlternate notDeclarationAlternate g₂ rest
        spelledAlternate endsAlternate) fun _ => .ok ⟨rfl, rfl⟩

theorem whileRest_readsBack (ih : StmtsReadBack b) (test : Expr) (body : Stmt)
    (good : (Stmt.whileLoop test body).Reprintable) (front rest : List Token)
    (spelled : front.map Token.spelling = (Stmt.whileLoop test body).printed.tail)
    (ends : EndsBefore (.whileLoop test body) rest) :
    ReadsBack (whileRest (b + 1) (front ++ rest)) (.whileLoop test body) rest := by
  obtain ⟨tested, goodBody, notDeclaration⟩ := good.whileLoop
  simp only [Stmt.printed, List.cons_append, List.tail_cons] at spelled
  obtain ⟨u, f, v, g, rfl, opening, spelledTest, closing, spelledBody⟩ :=
    spelled_condition spelled
  rw [List.cons_append, List.append_assoc, List.cons_append, whileRest]
  refine Yields.bind_ok (expect_of_kind opening (by decide)) ?_
  refine ReadsBack.bind (condition_readsBack tested spelledTest closing (g ++ rest)) fun _ => ?_
  refine Yields.bind_ok (expect_of_kind closing (by decide)) ?_
  exact ReadsBack.bind (ih.statement body goodBody notDeclaration g rest spelledBody ends)
    fun _ => .ok ⟨rfl, rfl⟩

theorem forEachRest_readsBack (ih : StmtsReadBack b) (element : String) (collection : Expr)
    (body : Stmt) (good : (Stmt.forEach element collection body).Reprintable)
    (front rest : List Token)
    (spelled : front.map Token.spelling = (Stmt.forEach element collection body).printed.tail)
    (ends : EndsBefore (.forEach element collection body) rest) :
    ReadsBack (forEachRest (b + 1) (front ++ rest)) (.forEach element collection body) rest := by
  obtain ⟨tested, goodBody, notDeclaration⟩ := good.forEach
  simp only [Stmt.printed, List.cons_append, List.tail_cons] at spelled
  obtain ⟨u, f, rfl, opening, spelledMore⟩ := List.map_eq_cons_iff.mp spelled
  obtain ⟨x, g, rfl, named, spelledIn⟩ := List.map_eq_cons_iff.mp spelledMore
  obtain ⟨y, g', rfl, within, spelledHeader⟩ := List.map_eq_cons_iff.mp spelledIn
  obtain ⟨g₁, after, rfl, spelledCollection, spelledClose⟩ :=
    List.map_eq_append_iff.mp spelledHeader
  obtain ⟨v, g₂, rfl, closing, spelledBody⟩ := List.map_eq_cons_iff.mp spelledClose
  have lexeme : x.lexeme = element := congrArg Prod.snd named
  rw [List.cons_append, List.cons_append, List.cons_append, List.append_assoc, List.cons_append,
    forEachRest]
  refine Yields.bind_ok (expect_of_kind (congrArg Prod.fst opening) (by decide)) ?_
  cases b with
  | zero => exact .tooDeep
  | succ b =>
    refine Yields.bind_ok (name_of_ident (congrArg Prod.fst named)) ?_
    refine Yields.bind_ok (expect_of_kind (congrArg Prod.fst within) (by decide)) ?_
    refine ReadsBack.bind (condition_readsBack tested spelledCollection
      (congrArg Prod.fst closing) (g₂ ++ rest)) fun _ => ?_
    refine Yields.bind_ok (expect_of_kind (congrArg Prod.fst closing) (by decide)) ?_
    refine ReadsBack.bind (ih.statement body goodBody notDeclaration g₂ rest spelledBody ends)
      fun _ => .ok ⟨?_, rfl⟩
    show Stmt.forEach x.lexeme collection body = .forEach element collection body
    rw [lexeme]

/-- The statements of a block up to its closing brace, by induction on the statements: each is
read by `declaration` and ends before the next one or the brace. -/
theorem blockRest_readsBack (ih : StmtsReadBack b) :
    ∀ ss, Stmt.ListReprintable ss → ∀ front rest,
      front.map Token.spelling = Stmt.printedList ss ++ [(.rbrace, "\x7d")] →
        ReadsBack (blockRest (b + 1) (front ++ rest)) ss rest
  | [], _, front, rest, spelled => by
    obtain ⟨u, rfl, kind, -⟩ := spelled_singleton spelled
    rw [List.singleton_append, blockRest, atCloseOrEnd_of_close _ kind, if_pos rfl]
    exact Yields.bind_ok (expect_of_kind kind (by decide)) (.ok ⟨rfl, rfl⟩)
  | s :: ss, good, front, rest, spelled => by
    obtain ⟨goodFirst, goodMore, apart⟩ := good.cons
    rw [Stmt.printedList, List.append_assoc] at spelled
    obtain ⟨f₁, f₂, rfl, spelled₁, spelled₂⟩ := List.map_eq_append_iff.mp spelled
    obtain ⟨noClose, noEnd⟩ : .rbrace ∉ s.leads ∧ .eof ∉ s.leads :=
      ⟨fun within => (s.leads_apart _ within).1 rfl, fun within => (s.leads_apart _ within).2.1 rfl⟩
    rw [List.append_assoc, blockRest,
      atCloseOrEnd_of_startsAs (Stmt.printed_leads s) spelled₁ noClose noEnd]
    refine ReadsBack.bind (ih.declaration s goodFirst f₁ (f₂ ++ rest) spelled₁
      (endsBefore_printedList (.inl rfl) apart spelled₂)) fun _ => ?_
    exact ReadsBack.bind (blockRest_readsBack ih ss goodMore f₂ rest spelled₂)
      fun _ => .ok ⟨rfl, rfl⟩

/-- A routine after `hàm`: its name, its parameters in parentheses and its body in braces. -/
theorem routine_readsBack (ih : StmtsReadBack b) (kind : RoutineKind) (name : String)
    (params : List String) (body : List Stmt) (good : Stmt.ListReprintable body)
    (front rest : List Token)
    (spelled : front.map Token.spelling = Stmt.printedRoutine ⟨name, params, body⟩) :
    ReadsBack (routine (b + 1) kind (front ++ rest)) ⟨name, params, body⟩ rest := by
  simp only [Stmt.printedRoutine, List.cons_append, List.append_assoc] at spelled
  obtain ⟨u, more, rfl, named, spelledMore⟩ := List.map_eq_cons_iff.mp spelled
  obtain ⟨v, f, rfl, opening, spelledParams⟩ := List.map_eq_cons_iff.mp spelledMore
  rw [List.append_cons] at spelledParams
  obtain ⟨f₁, f₂, rfl, spelled₁, spelled₂⟩ := List.map_eq_append_iff.mp spelledParams
  obtain ⟨w, f₃, rfl, brace, spelled₃⟩ := List.map_eq_cons_iff.mp spelled₂
  have lexeme : u.lexeme = name := congrArg Prod.snd named
  rw [List.cons_append, List.cons_append, List.append_assoc, List.cons_append, routine]
  refine Yields.bind_ok (name_of_ident (congrArg Prod.fst named)) ?_
  refine Yields.bind_ok (expect_of_kind (congrArg Prod.fst opening) (by decide)) ?_
  refine ReadsBack.bind (parameters_readsBack b params f₁ (w :: (f₃ ++ rest)) spelled₁)
    fun _ => ?_
  refine Yields.bind_ok (expect_of_kind (congrArg Prod.fst brace) (by decide)) ?_
  refine ReadsBack.bind (ih.blockRest body good f₃ rest spelled₃) fun _ => .ok ⟨?_, rfl⟩
  show (⟨u.lexeme, params, body⟩ : FunctionDef Stmt) = ⟨name, params, body⟩
  rw [lexeme]

/-- The methods of a class up to its closing brace, by induction on the methods: each is read
after its `hàm`. -/
theorem classBody_readsBack (ih : StmtsReadBack b) :
    ∀ methods, Stmt.MethodsReprintable methods → ∀ front rest,
      front.map Token.spelling = Stmt.printedMethods methods ++ [(.rbrace, "\x7d")] →
        ReadsBack (classBody (b + 1) (front ++ rest)) methods rest
  | [], _, front, rest, spelled => by
    obtain ⟨u, rfl, kind, -⟩ := spelled_singleton spelled
    rw [List.singleton_append, classBody, atCloseOrEnd_of_close _ kind, if_pos rfl]
    exact Yields.bind_ok (expect_of_kind kind (by decide)) (.ok ⟨rfl, rfl⟩)
  | ⟨name, params, body⟩ :: methods, good, front, rest, spelled => by
    obtain ⟨goodFirst, goodMore⟩ := good.cons
    simp only [Stmt.printedMethods, List.cons_append, List.append_assoc] at spelled
    obtain ⟨u, more, rfl, keyword, spelledMore⟩ := List.map_eq_cons_iff.mp spelled
    obtain ⟨f₁, f₂, rfl, spelled₁, spelled₂⟩ := List.map_eq_append_iff.mp spelledMore
    have kind : u.kind = Keyword.ham.token.1 := congrArg Prod.fst keyword
    rw [List.cons_append, List.append_assoc, classBody,
      atCloseOrEnd_of_kind _ (by rw [kind]; decide) (by rw [kind]; decide),
      if_neg Bool.false_ne_true, next?_of_keyword _ kind]
    refine ReadsBack.bind (ih.routine .method name params body goodFirst f₁ (f₂ ++ rest)
      spelled₁) fun _ => ?_
    exact ReadsBack.bind (classBody_readsBack ih methods goodMore f₂ rest spelled₂)
      fun _ => .ok ⟨rfl, rfl⟩

/-- A class after `lớp`: its name and its methods in braces. -/
theorem classDecl_readsBack (ih : StmtsReadBack b) (name : String)
    (methods : List (FunctionDef Stmt)) (good : Stmt.MethodsReprintable methods)
    (front rest : List Token)
    (spelled : front.map Token.spelling = (Stmt.classDecl name methods).printed.tail) :
    ReadsBack (classDecl (b + 1) (front ++ rest)) (.classDecl name methods) rest := by
  simp only [Stmt.printed, List.tail_cons, List.cons_append] at spelled
  obtain ⟨u, more, rfl, named, spelledMore⟩ := List.map_eq_cons_iff.mp spelled
  obtain ⟨v, f, rfl, brace, spelledMethods⟩ := List.map_eq_cons_iff.mp spelledMore
  have lexeme : u.lexeme = name := congrArg Prod.snd named
  rw [List.cons_append, List.cons_append, classDecl]
  cases b with
  | zero => exact .tooDeep
  | succ b =>
    simp only [Nat.add_one_ne_zero, ↓reduceIte]
    refine Yields.bind_ok (name_of_ident (congrArg Prod.fst named)) ?_
    refine Yields.bind_ok (expect_of_kind (congrArg Prod.fst brace) (by decide)) ?_
    refine ReadsBack.bind (classBody_readsBack ih methods good f rest spelledMethods)
      fun _ => .ok ⟨?_, rfl⟩
    show Stmt.classDecl u.lexeme methods = .classDecl name methods
    rw [lexeme]

/-- With no budget left, every statement production runs out. -/
theorem stmtsReadBack_zero : StmtsReadBack 0 where
  statement _ _ _ _ _ _ _ := by rw [statement]; exact .tooDeep
  declaration _ _ _ _ _ _ := by rw [declaration]; exact .tooDeep
  ifRest _ _ _ _ _ _ _ _ := by rw [ifRest]; exact .tooDeep
  whileRest _ _ _ _ _ _ _ := by rw [whileRest]; exact .tooDeep
  forEachRest _ _ _ _ _ _ _ _ := by rw [forEachRest]; exact .tooDeep
  blockRest _ _ _ _ _ := by rw [blockRest]; exact .tooDeep
  routine _ _ _ _ _ _ _ _ := by rw [routine]; exact .tooDeep
  classDecl _ _ _ _ _ _ := by rw [classDecl]; exact .tooDeep
  classBody _ _ _ _ _ := by rw [classBody]; exact .tooDeep

theorem stmtsReadBack_succ (ih : StmtsReadBack b) : StmtsReadBack (b + 1) where
  statement := statement_readsBack ih
  declaration := declaration_readsBack ih
  ifRest := ifRest_readsBack ih
  whileRest := whileRest_readsBack ih
  forEachRest := forEachRest_readsBack ih
  blockRest := blockRest_readsBack ih
  routine := routine_readsBack ih
  classDecl := classDecl_readsBack ih
  classBody := classBody_readsBack ih

end Statements

/-- Every statement production, at every budget, reads back what the printer writes. -/
theorem stmtsReadBack : ∀ b, StmtsReadBack b
  | 0 => stmtsReadBack_zero
  | b + 1 => stmtsReadBack_succ (stmtsReadBack b)

/-- The declarations of a program up to the end of input, by induction on the declarations. -/
theorem topLevel_readsBack (budget last : Nat) :
    ∀ ss, Stmt.ListReprintable ss → ∀ front, front.map Token.spelling = Stmt.printedList ss →
      Yields (topLevel budget (front ++ [⟨.eof, "", last⟩])) (· = ss)
  | [], _, front, spelled => by
    obtain rfl := List.map_eq_nil_iff.mp spelled
    rw [List.nil_append, topLevel]
    exact .ok rfl
  | s :: ss, good, front, spelled => by
    obtain ⟨goodFirst, goodMore, apart⟩ := good.cons
    rw [Stmt.printedList] at spelled
    obtain ⟨f₁, f₂, rfl, spelled₁, spelled₂⟩ := List.map_eq_append_iff.mp spelled
    have noEnd : .eof ∉ s.leads := fun within => (s.leads_apart _ within).2.1 rfl
    -- the end-of-input token closes the last declaration as a brace closes a block's
    have ends : EndsBefore s (f₂ ++ [⟨.eof, "", last⟩]) := by
      have spelledEnd : List.map Token.spelling (f₂ ++ [⟨.eof, "", last⟩]) =
          Stmt.printedList ss ++ [(.eof, "")] := by
        rw [List.map_append, spelled₂]
        rfl
      have closed : EndsBefore s (f₂ ++ [⟨.eof, "", last⟩] ++ []) := by
        refine endsBefore_printedList ?_ apart spelledEnd
        exact .inr rfl
      rwa [List.append_nil] at closed
    rw [List.append_assoc, topLevel, atEnd_of_startsAs (Stmt.printed_leads s) spelled₁ noEnd]
    refine ReadsBack.bind ((stmtsReadBack budget).declaration s goodFirst f₁ _ spelled₁ ends)
      fun _ => ?_
    refine Yields.bind (topLevel_readsBack budget last ss goodMore f₂ spelled₂) fun more same => ?_
    exact .ok (by rw [same])

/-- The tokens of a printed program, followed by the end of input, are parsed back to the
program at every budget, or the budget runs out. -/
theorem parse_printed {program : Program} (good : Stmt.ListReprintable program.body)
    (budget last : Nat) {front : List Token} (spelled : front.map Token.spelling = program.printed) :
    parse budget (front ++ [⟨.eof, "", last⟩]) = .ok program ∨
      parse budget (front ++ [⟨.eof, "", last⟩]) = .error .tooDeep := by
  rcases topLevel_readsBack budget last program.body good front spelled with
    deep | ⟨body, read, same⟩
  · exact .inr (by rw [parse, deep]; rfl)
  · exact .inl (by rw [parse, read, same]; rfl)

end Parser

/-- A program that the parser read from some source text is read back from its print, unless
the print nests deeper than the budget allows; and that happens only when the budget is below
sixteen calls for every token of the print and the end of input, and sixteen more. -/
theorem Program.ofSourceAt_print {active : Nat} {source : String} {program : Program}
    (parsed : Program.ofSourceAt active source = .ok program) :
    Program.ofSourceAt active program.print = .ok program ∨
      (Program.ofSourceAt active program.print = .error .tooDeep ∧
        parseBudget active < 16 * (program.printed.length + 2)) := by
  have good : Stmt.ListReprintable program.body := ⟨Program.ofSourceAt_lexical parsed,
    Program.ofSourceAt_wellNested parsed, Program.ofSourceAt_separated parsed⟩
  obtain ⟨front, last, lexed, spelled⟩ := Program.tokenize_print good.1
  have count : front.length = program.printed.length := by
    rw [← spelled, List.length_map]
  rw [Program.ofSourceAt_of_tokenize lexed, Program.ofTokensAt]
  rcases Parser.parse_printed good (parseBudget active) last spelled with read | deep
  · exact .inl (by rw [read]; rfl)
  · refine .inr ⟨by rw [deep]; rfl, Nat.lt_of_not_le fun enough => ?_⟩
    -- with room for sixteen calls a token the parse settles, which running out is not
    have settled := @Parser.parse_settled (parseBudget active) (front ++ [⟨.eof, "", last⟩])
      (by rw [List.length_append, count]; simpa using enough)
    exact settled deep

/-- An assignment of a negation is read back from its print `a = 0 - b`. -/
theorem negated_assignment_reprinted :
    Program.ofSourceAt requestDepth "a = - b" =
        .ok ⟨[.expr (.assign (.ident "a") (.binary (.number .zero) .sub (.ident "b")))]⟩ ∧
      (Program.ofSourceAt requestDepth
          (Program.print ⟨[.expr (.assign (.ident "a") (.binary (.number .zero) .sub (.ident "b")))]⟩) =
          .ok ⟨[.expr (.assign (.ident "a") (.binary (.number .zero) .sub (.ident "b")))]⟩ ∨
        (Program.ofSourceAt requestDepth
            (Program.print ⟨[.expr (.assign (.ident "a") (.binary (.number .zero) .sub (.ident "b")))]⟩) =
            .error .tooDeep ∧
          parseBudget requestDepth < 16 *
            ((Program.printed ⟨[.expr (.assign (.ident "a")
              (.binary (.number .zero) .sub (.ident "b")))]⟩).length + 2))) :=
  have parsed : Program.ofSourceAt requestDepth "a = - b" =
      .ok ⟨[.expr (.assign (.ident "a") (.binary (.number .zero) .sub (.ident "b")))]⟩ := by
    cbv
  ⟨parsed, Program.ofSourceAt_print parsed⟩

/-- Two hundred minus signs before `1` are read within the budget of a request, but the print of
what they are read as, `0 - ( 0 - ( … ) )`, nests too deeply for it. -/
theorem negations_reprint_tooDeep :
    Program.ofSource (String.ofList ((List.replicate 200 ['-', ' ']).flatten ++ ['1'])) =
        .ok ⟨[.expr (Expr.negation^[200] (.number (Binary64.ofNat 1)))]⟩ ∧
      Program.ofSource (Program.print ⟨[.expr (Expr.negation^[200] (.number (Binary64.ofNat 1)))]⟩) =
        .error .tooDeep := by
  have parsed := @Program.ofSourceAt_negations requestDepth 200 (by decide)
  exact ⟨parsed, Program.ofSourceAt_print_negations (k := 199) (Program.ofSourceAt_lexical parsed)
    (by decide)⟩

end VieCompiler
