import VieCompiler.Proofs.Script.Parser

/-!
# What each production reads

`Reads f tokens value rest` says that the production `f` reads `value` from `tokens` and
stops before `rest`. This file states, for every production of `Script.Parser` and each of
its branches, when it reads what: one lemma per branch, whose hypotheses are the readings of
the productions it calls, in order, and the tokens that choose the branch. Later proofs
compose these lemmas and never unfold the parser.

A reading is a proposition about the input and the rest only, so a reading of a call on
`p.rest` moves along an equation `p.rest = rest` by `Reads.of_eq`, with no dependent
rewriting.
-/

namespace VieCompiler.Script

variable {α : Type}

/-- The production `f` reads `value` from `tokens` and leaves `rest`. -/
def Reads (f : (tokens : List Token) → Option (Parsed tokens α)) (tokens : List Token)
    (value : α) (rest : List Token) : Prop :=
  ∃ p, f tokens = some p ∧ p.value = value ∧ p.rest = rest

/-- The loop `f` reads `value` from `tokens` and leaves `rest`. -/
def Continues (f : (tokens : List Token) → Option (Continued tokens α)) (tokens : List Token)
    (value : α) (rest : List Token) : Prop :=
  ∃ p, f tokens = some p ∧ p.value = value ∧ p.rest = rest

section Basics

variable {f : (tokens : List Token) → Option (Parsed tokens α)} {ts ts' m : List Token} {v : α}

theorem Reads.of_eq (h : Reads f ts v m) (e : ts' = ts) : Reads f ts' v m := e ▸ h

theorem Reads.suffix (h : Reads f ts v m) : m <:+ ts := by
  obtain ⟨p, -, -, rfl⟩ := h
  exact p.suffix

theorem Continues.of_eq {f : (tokens : List Token) → Option (Continued tokens α)}
    (h : Continues f ts v m) (e : ts' = ts) : Continues f ts' v m := e ▸ h

theorem reads_single {read : Token → Option α} {t : Token} (rest : List Token)
    (h : read t = some v) : Reads (single read) (t :: rest) v rest :=
  ⟨⟨v, rest, ⟨[t], rfl⟩, by simp⟩, by simp [single, h], rfl, rfl⟩

theorem single_cons_of_none {read : Token → Option α} {t : Token} (rest : List Token)
    (h : read t = none) : single read (t :: rest) = none := by
  simp [single, h]

theorem reads_accept (k : Token.Kind) (flag : Bool) (rest : List Token) :
    Reads (accept k) (⟨k, flag⟩ :: rest) () rest :=
  reads_single rest (by simp)

theorem accept_cons_of_ne {k : Token.Kind} {t : Token} (rest : List Token) (h : t.kind ≠ k) :
    accept k (t :: rest) = none :=
  single_cons_of_none rest (by simp [h])

theorem reads_identifier {text : String} (flag : Bool) (rest : List Token)
    (h : isReserved text = false) : Reads identifier (⟨.name text, flag⟩ :: rest) text rest :=
  reads_single rest (by simp [h])

theorem reads_propertyName (text : String) (flag : Bool) (rest : List Token) :
    Reads propertyName (⟨.name text, flag⟩ :: rest) text rest :=
  reads_single rest rfl

theorem reads_operator {ops : List String} {t : Token} (rest : List Token) (h : t.text ∈ ops) :
    Reads (operator ops) (t :: rest) t.text rest :=
  reads_single rest (by simp [h])

theorem operator_cons_of_not_mem {ops : List String} {t : Token} (rest : List Token)
    (h : t.text ∉ ops) : operator ops (t :: rest) = none :=
  single_cons_of_none rest (by simp [h])

theorem reads_atom {t : Token} {x : Expr} (rest : List Token) (h : atomOf t.kind = some x) :
    Reads atom (t :: rest) x rest :=
  reads_single rest h

theorem accept_eq_none_of_head {k : Token.Kind} (h : ∀ t ∈ ts.head?, t.kind ≠ k) :
    accept k ts = none := by
  cases ts with
  | nil => rfl
  | cons t rest => exact accept_cons_of_ne rest (h t rfl)

end Basics

section Statements

variable {ret flag : Bool} {ts m m₁ m₂ : List Token}

theorem reads_block {body : List Stmt} (inner : Reads (statementsToBrace ret) ts body m) :
    Reads (statement ret) (⟨.punctuator "\x7b", flag⟩ :: ts) (.block body) m := by
  obtain ⟨opening, h₁, -, e₁⟩ := reads_accept (.punctuator "\x7b") flag ts
  obtain ⟨body', h₂, rfl, e₂⟩ := inner.of_eq e₁
  rw [Reads, statement, h₁]
  simp only [Option.bind_eq_bind, Option.bind_some, h₂, Option.pure_def, Option.some.injEq,
    exists_eq_left']
  exact ⟨rfl, e₂⟩

theorem reads_if {t : Expr} {c : Stmt} (test : Reads parenthesized ts t m₁)
    (consequent : Reads (statement ret) m₁ c m₂) (noElse : accept (.name "else") m₂ = none) :
    Reads (statement ret) (⟨.name "if", flag⟩ :: ts) (.ifElse t c none) m₂ := by
  obtain ⟨ifWord, h₁, -, e₁⟩ := reads_accept (.name "if") flag ts
  obtain ⟨test', h₂, rfl, e₂⟩ := test.of_eq e₁
  obtain ⟨c', h₃, rfl, e₃⟩ := consequent.of_eq e₂
  rw [← e₃] at noElse
  rw [Reads, statement, accept_cons_of_ne _ (by simp), h₁]
  simp only [Option.bind_eq_bind, Option.bind_some, h₂, h₃, noElse, Option.pure_def,
    Option.some.injEq, exists_eq_left']
  exact ⟨rfl, e₃⟩

theorem reads_ifElse {t : Expr} {c a : Stmt} {m₃ : List Token} {elseFlag : Bool}
    (test : Reads parenthesized ts t m₁)
    (consequent : Reads (statement ret) m₁ c (⟨.name "else", elseFlag⟩ :: m₃))
    (alternate : Reads (statement ret) m₃ a m) :
    Reads (statement ret) (⟨.name "if", flag⟩ :: ts) (.ifElse t c (some a)) m := by
  obtain ⟨ifWord, h₁, -, e₁⟩ := reads_accept (.name "if") flag ts
  obtain ⟨test', h₂, rfl, e₂⟩ := test.of_eq e₁
  obtain ⟨c', h₃, rfl, e₃⟩ := consequent.of_eq e₂
  obtain ⟨elseWord, h₄, -, e₄⟩ := (reads_accept (.name "else") elseFlag m₃).of_eq e₃
  obtain ⟨a', h₅, rfl, e₅⟩ := alternate.of_eq e₄
  rw [Reads, statement, accept_cons_of_ne _ (by simp), h₁]
  simp only [Option.bind_eq_bind, Option.bind_some, h₂, h₃, h₄, h₅, Option.pure_def,
    Option.some.injEq, exists_eq_left']
  exact ⟨rfl, e₅⟩

theorem reads_while {t : Expr} {body : Stmt} (test : Reads parenthesized ts t m₁)
    (loop : Reads (statement ret) m₁ body m) :
    Reads (statement ret) (⟨.name "while", flag⟩ :: ts) (.whileLoop t body) m := by
  obtain ⟨whileWord, h₁, -, e₁⟩ := reads_accept (.name "while") flag ts
  obtain ⟨test', h₂, rfl, e₂⟩ := test.of_eq e₁
  obtain ⟨body', h₃, rfl, e₃⟩ := loop.of_eq e₂
  rw [Reads, statement, accept_cons_of_ne _ (by simp), accept_cons_of_ne _ (by simp), h₁]
  simp only [Option.bind_eq_bind, Option.bind_some, h₂, h₃, Option.pure_def,
    Option.some.injEq, exists_eq_left']
  exact ⟨rfl, e₃⟩

theorem reads_forOf {binding : String} {collection : Expr} {body : Stmt}
    {f₁ f₂ f₃ f₄ f₅ : Bool} (free : isReserved binding = false)
    (iterated : Reads assignment ts collection (⟨.punctuator ")", f₅⟩ :: m₁))
    (loop : Reads (statement ret) m₁ body m) :
    Reads (statement ret)
      (⟨.name "for", flag⟩ :: ⟨.punctuator "(", f₁⟩ :: ⟨.name "const", f₂⟩ ::
        ⟨.name binding, f₃⟩ :: ⟨.name "of", f₄⟩ :: ts)
      (.forOf binding collection body) m := by
  obtain ⟨forWord, h₁, -, e₁⟩ := reads_accept (.name "for") flag _
  obtain ⟨opening, h₂, -, e₂⟩ := (reads_accept (.punctuator "(") f₁ _).of_eq e₁
  obtain ⟨constWord, h₃, -, e₃⟩ := (reads_accept (.name "const") f₂ _).of_eq e₂
  obtain ⟨name, h₄, v₄, e₄⟩ := (reads_identifier f₃ _ free).of_eq e₃
  obtain ⟨ofWord, h₅, -, e₅⟩ := (reads_accept (.name "of") f₄ _).of_eq e₄
  obtain ⟨collected, h₆, rfl, e₆⟩ := iterated.of_eq e₅
  obtain ⟨closing, h₇, -, e₇⟩ := (reads_accept (.punctuator ")") f₅ m₁).of_eq e₆
  obtain ⟨body', h₈, rfl, e₈⟩ := loop.of_eq e₇
  rw [Reads, statement, accept_cons_of_ne _ (by simp), accept_cons_of_ne _ (by simp),
    accept_cons_of_ne _ (by simp), h₁]
  simp only [Option.bind_eq_bind, Option.bind_some, h₂, h₃, h₄, h₅, h₆, h₇, h₈,
    Option.pure_def, Option.some.injEq, exists_eq_left']
  exact ⟨congrArg (fun b => Stmt.forOf b collected.value body'.value) v₄, e₈⟩

theorem reads_return {x : Expr} {t : Token} {f : Bool} (sameLine : t.afterLineBreak = false)
    (notEmpty : t.kind ≠ .punctuator ";")
    (value : Reads assignment (t :: ts) x (⟨.punctuator ";", f⟩ :: m)) :
    Reads (statement true) (⟨.name "return", flag⟩ :: t :: ts) (.ret (some x)) m := by
  obtain ⟨returnWord, h₁, -, e₁⟩ := reads_accept (.name "return") flag (t :: ts)
  obtain ⟨value', h₂, rfl, e₂⟩ := value.of_eq e₁
  obtain ⟨semicolon, h₃, -, e₃⟩ := (reads_accept (.punctuator ";") f m).of_eq e₂
  have noSemicolon : accept (.punctuator ";") returnWord.rest = none := by
    rw [e₁]
    exact accept_cons_of_ne ts notEmpty
  have onLine : returnWord.rest.head?.map Token.afterLineBreak = some false := by
    rw [e₁]
    simp [sameLine]
  rw [Reads, statement, accept_cons_of_ne _ (by simp), accept_cons_of_ne _ (by simp),
    accept_cons_of_ne _ (by simp), accept_cons_of_ne _ (by simp), h₁]
  simp only [onLine, and_self, if_true, noSemicolon, Option.bind_eq_bind, Option.bind_some, h₂,
    h₃, Option.pure_def, Option.some.injEq, exists_eq_left']
  exact ⟨rfl, e₃⟩

/-- The words that open a statement other than an expression statement. -/
def statementWords : List Token.Kind :=
  [.punctuator "\x7b", .name "if", .name "while", .name "for", .name "return"]

theorem reads_expressionStatement {x : Expr} {f : Bool}
    (start : ∀ k ∈ statementWords, accept k ts = none)
    (value : Reads assignment ts x (⟨.punctuator ";", f⟩ :: m)) :
    Reads (statement ret) ts (.expr x) m := by
  obtain ⟨value', h₁, rfl, e₁⟩ := value
  obtain ⟨semicolon, h₂, -, e₂⟩ := (reads_accept (.punctuator ";") f m).of_eq e₁
  have block := start (.punctuator "\x7b") (by simp [statementWords])
  have conditional := start (.name "if") (by simp [statementWords])
  have whileLoop := start (.name "while") (by simp [statementWords])
  have forLoop := start (.name "for") (by simp [statementWords])
  have returnWord := start (.name "return") (by simp [statementWords])
  rw [Reads, statement]
  simp only [block, conditional, whileLoop, forLoop, returnWord, Option.bind_eq_bind,
    Option.bind_some, h₁, h₂, Option.pure_def, Option.some.injEq, exists_eq_left']
  exact ⟨rfl, e₂⟩

/-- The words that open a declaration. -/
def declarationWords : List Token.Kind :=
  [.name "let", .name "function", .name "class"]

theorem reads_statementListItem_of_statement {s : Stmt}
    (start : ∀ k ∈ declarationWords, accept k ts = none) (inner : Reads (statement ret) ts s m) :
    Reads (statementListItem ret) ts s m := by
  have letWord := start (.name "let") (by simp [declarationWords])
  have functionWord := start (.name "function") (by simp [declarationWords])
  have classWord := start (.name "class") (by simp [declarationWords])
  rw [Reads, statementListItem]
  simp only [letWord, functionWord, classWord]
  exact inner

theorem reads_letDecl {name : String} {x : Expr} {f₁ f₂ f₃ : Bool}
    (free : isReserved name = false)
    (value : Reads assignment ts x (⟨.punctuator ";", f₃⟩ :: m)) :
    Reads (statementListItem ret)
      (⟨.name "let", flag⟩ :: ⟨.name name, f₁⟩ :: ⟨.punctuator "=", f₂⟩ :: ts)
      (.letDecl name x) m := by
  obtain ⟨letWord, h₁, -, e₁⟩ := reads_accept (.name "let") flag _
  obtain ⟨name', h₂, v₂, e₂⟩ := (reads_identifier f₁ _ free).of_eq e₁
  obtain ⟨equals, h₃, -, e₃⟩ := (reads_accept (.punctuator "=") f₂ ts).of_eq e₂
  obtain ⟨value', h₄, rfl, e₄⟩ := value.of_eq e₃
  obtain ⟨semicolon, h₅, -, e₅⟩ := (reads_accept (.punctuator ";") f₃ m).of_eq e₄
  rw [Reads, statementListItem, h₁]
  simp only [Option.bind_eq_bind, Option.bind_some, h₂, h₃, h₄, h₅, Option.pure_def,
    Option.some.injEq, exists_eq_left']
  exact ⟨congrArg (fun n => Stmt.letDecl n value'.value) v₂, e₅⟩

theorem reads_functionDecl {definition : FunctionDef Stmt}
    (inner : Reads (routine false) ts definition m) :
    Reads (statementListItem ret) (⟨.name "function", flag⟩ :: ts) (.function definition) m := by
  obtain ⟨functionWord, h₁, -, e₁⟩ := reads_accept (.name "function") flag ts
  obtain ⟨definition', h₂, rfl, e₂⟩ := inner.of_eq e₁
  rw [Reads, statementListItem, accept_cons_of_ne _ (by simp), h₁]
  simp only [Option.bind_eq_bind, Option.bind_some, h₂, Option.pure_def, Option.some.injEq,
    exists_eq_left']
  exact ⟨rfl, e₂⟩

theorem reads_classDecl {name : String} {methods : List (FunctionDef Stmt)} {f₁ f₂ : Bool}
    (free : isReserved name = false) (inner : Reads classBody ts methods m) :
    Reads (statementListItem ret)
      (⟨.name "class", flag⟩ :: ⟨.name name, f₁⟩ :: ⟨.punctuator "\x7b", f₂⟩ :: ts)
      (.classDecl name methods) m := by
  obtain ⟨classWord, h₁, -, e₁⟩ := reads_accept (.name "class") flag _
  obtain ⟨name', h₂, v₂, e₂⟩ := (reads_identifier f₁ _ free).of_eq e₁
  obtain ⟨opening, h₃, -, e₃⟩ := (reads_accept (.punctuator "\x7b") f₂ ts).of_eq e₂
  obtain ⟨methods', h₄, rfl, e₄⟩ := inner.of_eq e₃
  rw [Reads, statementListItem, accept_cons_of_ne _ (by simp), accept_cons_of_ne _ (by simp),
    h₁]
  simp only [Option.bind_eq_bind, Option.bind_some, h₂, h₃, h₄, Option.pure_def,
    Option.some.injEq, exists_eq_left']
  exact ⟨congrArg (fun n => Stmt.classDecl n methods'.value) v₂, e₄⟩

theorem reads_statementsToBrace_close :
    Reads (statementsToBrace ret) (⟨.punctuator "\x7d", flag⟩ :: m) [] m := by
  obtain ⟨closing, h₁, -, e₁⟩ := reads_accept (.punctuator "\x7d") flag m
  rw [Reads, statementsToBrace, h₁]
  simp only [Option.some.injEq, exists_eq_left']
  exact ⟨rfl, e₁⟩

theorem reads_statementsToBrace_cons {s : Stmt} {body : List Stmt}
    (open_ : accept (.punctuator "\x7d") ts = none) (first : Reads (statementListItem ret) ts s m₁)
    (more : Reads (statementsToBrace ret) m₁ body m) :
    Reads (statementsToBrace ret) ts (s :: body) m := by
  obtain ⟨first', h₁, rfl, e₁⟩ := first
  obtain ⟨more', h₂, rfl, e₂⟩ := more.of_eq e₁
  rw [Reads, statementsToBrace, open_]
  simp only [Option.bind_eq_bind, Option.bind_some, h₁, h₂, Option.pure_def, Option.some.injEq,
    exists_eq_left']
  exact ⟨rfl, e₂⟩

theorem reads_functionBody {body : List Stmt} (inner : Reads (statementsToBrace true) ts body m) :
    Reads functionBody (⟨.punctuator "\x7b", flag⟩ :: ts) body m := by
  obtain ⟨opening, h₁, -, e₁⟩ := reads_accept (.punctuator "\x7b") flag ts
  obtain ⟨body', h₂, rfl, e₂⟩ := inner.of_eq e₁
  rw [Reads, functionBody, h₁]
  simp only [Option.bind_eq_bind, Option.bind_some, h₂, Option.pure_def, Option.some.injEq,
    exists_eq_left']
  exact ⟨rfl, e₂⟩

theorem reads_moreParameters_close : Reads moreParameters (⟨.punctuator ")", flag⟩ :: m) [] m := by
  obtain ⟨closing, h₁, -, e₁⟩ := reads_accept (.punctuator ")") flag m
  rw [Reads, moreParameters, h₁]
  simp only [Option.some.injEq, exists_eq_left']
  exact ⟨rfl, e₁⟩

theorem reads_moreParameters_cons {name : String} {names : List String} {f : Bool}
    (free : isReserved name = false) (more : Reads moreParameters ts names m) :
    Reads moreParameters (⟨.punctuator ",", flag⟩ :: ⟨.name name, f⟩ :: ts) (name :: names) m := by
  obtain ⟨comma, h₁, -, e₁⟩ := reads_accept (.punctuator ",") flag _
  obtain ⟨name', h₂, v₂, e₂⟩ := (reads_identifier f ts free).of_eq e₁
  obtain ⟨more', h₃, rfl, e₃⟩ := more.of_eq e₂
  rw [Reads, moreParameters, accept_cons_of_ne _ (by simp), h₁]
  simp only [Option.bind_eq_bind, Option.bind_some, h₂, h₃, Option.pure_def, Option.some.injEq,
    exists_eq_left']
  exact ⟨congrArg (· :: more'.value) v₂, e₃⟩

theorem reads_parameters_nil {f : Bool} :
    Reads parameters (⟨.punctuator "(", flag⟩ :: ⟨.punctuator ")", f⟩ :: m) [] m := by
  obtain ⟨opening, h₁, -, e₁⟩ := reads_accept (.punctuator "(") flag _
  obtain ⟨closing, h₂, -, e₂⟩ := (reads_accept (.punctuator ")") f m).of_eq e₁
  rw [Reads, parameters, h₁]
  simp only [Option.bind_eq_bind, Option.bind_some, h₂, Option.pure_def, Option.some.injEq,
    exists_eq_left']
  exact ⟨rfl, e₂⟩

theorem reads_parameters_cons {name : String} {names : List String} {f : Bool}
    (free : isReserved name = false) (more : Reads moreParameters ts names m) :
    Reads parameters (⟨.punctuator "(", flag⟩ :: ⟨.name name, f⟩ :: ts) (name :: names) m := by
  obtain ⟨opening, h₁, -, e₁⟩ := reads_accept (.punctuator "(") flag _
  obtain ⟨name', h₂, v₂, e₂⟩ := (reads_identifier f ts free).of_eq e₁
  obtain ⟨more', h₃, rfl, e₃⟩ := more.of_eq e₂
  have noClose : accept (.punctuator ")") opening.rest = none := by
    rw [e₁]
    exact accept_cons_of_ne ts (by simp)
  rw [Reads, parameters, h₁]
  simp only [Option.bind_eq_bind, Option.bind_some, noClose, h₂, h₃, Option.pure_def,
    Option.some.injEq, exists_eq_left']
  exact ⟨congrArg (· :: more'.value) v₂, e₃⟩

theorem reads_routine {method : Bool} {name : String} {params : List String} {body : List Stmt}
    {f : Bool} (free : method = false → isReserved name = false)
    (signature : Reads parameters ts params m₁) (inner : Reads functionBody m₁ body m) :
    Reads (routine method) (⟨.name name, f⟩ :: ts) ⟨name, params, body⟩ m := by
  obtain ⟨name', h₁, v₁, e₁⟩ : Reads (if method then propertyName else identifier)
      (⟨.name name, f⟩ :: ts) name ts := by
    cases method with
    | true => exact reads_propertyName name f ts
    | false => exact reads_identifier f ts (free rfl)
  obtain ⟨params', h₂, rfl, e₂⟩ := signature.of_eq e₁
  obtain ⟨body', h₃, rfl, e₃⟩ := inner.of_eq e₂
  rw [Reads, routine]
  cases method <;>
  · simp only [Bool.false_eq_true, if_true, if_false] at h₁ ⊢
    simp only [Option.bind_eq_bind, h₁, Option.bind_some, h₂, h₃, Option.pure_def,
      Option.some.injEq, exists_eq_left']
    exact ⟨congrArg (fun n => (⟨n, params'.value, body'.value⟩ : FunctionDef Stmt)) v₁, e₃⟩

theorem reads_classBody_close : Reads classBody (⟨.punctuator "\x7d", flag⟩ :: m) [] m := by
  obtain ⟨closing, h₁, -, e₁⟩ := reads_accept (.punctuator "\x7d") flag m
  rw [Reads, classBody, h₁]
  simp only [Option.some.injEq, exists_eq_left']
  exact ⟨rfl, e₁⟩

theorem reads_classBody_cons {method : FunctionDef Stmt} {methods : List (FunctionDef Stmt)}
    (open_ : accept (.punctuator "\x7d") ts = none) (first : Reads (routine true) ts method m₁)
    (more : Reads classBody m₁ methods m) :
    Reads classBody ts (method :: methods) m := by
  obtain ⟨first', h₁, rfl, e₁⟩ := first
  obtain ⟨more', h₂, rfl, e₂⟩ := more.of_eq e₁
  rw [Reads, classBody, open_]
  simp only [Option.bind_eq_bind, Option.bind_some, h₁, h₂, Option.pure_def, Option.some.injEq,
    exists_eq_left']
  exact ⟨rfl, e₂⟩

end Statements

section Expressions

variable {flag f : Bool} {ts m m₁ m₂ : List Token} {x y : Expr} {xs : List Expr}

theorem reads_primary_atom {t : Token} (h : atomOf t.kind = some x) :
    Reads primary (t :: m) x m := by
  have notPunctuator : ∀ p, t.kind ≠ .punctuator p := by
    intro p same
    rw [same] at h
    cases h
  obtain ⟨atom', h₁, rfl, e₁⟩ := reads_atom m h
  rw [Reads, primary, accept_cons_of_ne _ (notPunctuator "["),
    accept_cons_of_ne _ (notPunctuator "(")]
  simp only [h₁, Option.some.injEq, exists_eq_left', true_and]
  exact e₁

theorem reads_primary_array (inner : Reads (elementsTo "]") ts xs m) :
    Reads primary (⟨.punctuator "[", flag⟩ :: ts) (.array xs) m := by
  obtain ⟨opening, h₁, -, e₁⟩ := reads_accept (.punctuator "[") flag ts
  obtain ⟨elements, h₂, rfl, e₂⟩ := inner.of_eq e₁
  rw [Reads, primary, h₁]
  simp only [Option.bind_eq_bind, Option.bind_some, h₂, Option.pure_def, Option.some.injEq,
    exists_eq_left']
  exact ⟨rfl, e₂⟩

theorem reads_parenthesized (inner : Reads assignment ts x (⟨.punctuator ")", f⟩ :: m)) :
    Reads parenthesized (⟨.punctuator "(", flag⟩ :: ts) x m := by
  obtain ⟨opening, h₁, -, e₁⟩ := reads_accept (.punctuator "(") flag ts
  obtain ⟨inner', h₂, rfl, e₂⟩ := inner.of_eq e₁
  obtain ⟨closing, h₃, -, e₃⟩ := (reads_accept (.punctuator ")") f m).of_eq e₂
  rw [Reads, parenthesized, h₁]
  simp only [Option.bind_eq_bind, Option.bind_some, h₂, h₃, Option.pure_def, Option.some.injEq,
    exists_eq_left']
  exact ⟨rfl, e₃⟩

theorem reads_primary_parenthesized (inner : Reads assignment ts x (⟨.punctuator ")", f⟩ :: m)) :
    Reads primary (⟨.punctuator "(", flag⟩ :: ts) x m := by
  obtain ⟨opening, h₁, -, -⟩ := reads_accept (.punctuator "(") flag ts
  obtain ⟨inner', h₂, rfl, e₂⟩ : Reads parenthesized (⟨.punctuator "(", flag⟩ :: ts) x m :=
    reads_parenthesized inner
  rw [Reads, primary, accept_cons_of_ne _ (by simp), h₁]
  simp only [h₂, Option.some.injEq, exists_eq_left', true_and]
  exact e₂

theorem reads_elementsTo_close (close : String) :
    Reads (elementsTo close) (⟨.punctuator close, flag⟩ :: m) [] m := by
  obtain ⟨closing, h₁, -, e₁⟩ := reads_accept (.punctuator close) flag m
  exact ⟨closing.map fun _ => [], by rw [elementsTo, h₁], rfl, e₁⟩

theorem reads_elementsTo_cons {close : String} (open_ : accept (.punctuator close) ts = none)
    (first : Reads assignment ts x m₁) (more : Reads (moreElements close) m₁ xs m) :
    Reads (elementsTo close) ts (x :: xs) m := by
  obtain ⟨first', h₁, rfl, e₁⟩ := first
  obtain ⟨more', h₂, rfl, e₂⟩ := more.of_eq e₁
  rw [Reads, elementsTo, open_]
  simp only [Option.bind_eq_bind, Option.bind_some, h₁, h₂, Option.pure_def, Option.some.injEq,
    exists_eq_left']
  exact ⟨rfl, e₂⟩

theorem reads_moreElements_close (close : String) :
    Reads (moreElements close) (⟨.punctuator close, flag⟩ :: m) [] m := by
  obtain ⟨closing, h₁, -, e₁⟩ := reads_accept (.punctuator close) flag m
  exact ⟨closing.map fun _ => [], by rw [moreElements, h₁], rfl, e₁⟩

theorem reads_moreElements_cons {close : String} (notComma : close ≠ ",")
    (item : Reads assignment ts x m₁) (more : Reads (moreElements close) m₁ xs m) :
    Reads (moreElements close) (⟨.punctuator ",", flag⟩ :: ts) (x :: xs) m := by
  obtain ⟨comma, h₁, -, e₁⟩ := reads_accept (.punctuator ",") flag ts
  obtain ⟨item', h₂, rfl, e₂⟩ := item.of_eq e₁
  obtain ⟨more', h₃, rfl, e₃⟩ := more.of_eq e₂
  rw [Reads, moreElements, accept_cons_of_ne _ (by simp [Ne.symm notComma]), h₁]
  simp only [Option.bind_eq_bind, Option.bind_some, h₂, h₃, Option.pure_def, Option.some.injEq,
    exists_eq_left']
  exact ⟨rfl, e₃⟩

theorem reads_arguments (inner : Reads (elementsTo ")") ts xs m) :
    Reads arguments (⟨.punctuator "(", flag⟩ :: ts) xs m := by
  obtain ⟨opening, h₁, -, e₁⟩ := reads_accept (.punctuator "(") flag ts
  obtain ⟨list, h₂, rfl, e₂⟩ := inner.of_eq e₁
  rw [Reads, arguments, h₁]
  simp only [Option.bind_eq_bind, Option.bind_some, h₂, Option.pure_def, Option.some.injEq,
    exists_eq_left']
  exact ⟨rfl, e₂⟩

/-- The punctuators that continue a chain of member accesses, and of calls when `calls`
holds. -/
def suffixWords (calls : Bool) : List Token.Kind :=
  [.punctuator ".", .punctuator "["] ++ if calls then [.punctuator "("] else []

theorem continues_suffixes_stop {calls : Bool} {target : Expr}
    (stop : ∀ k ∈ suffixWords calls, accept k ts = none) :
    Continues (suffixes calls target) ts target ts := by
  have dot := stop (.punctuator ".") (by simp [suffixWords])
  have bracket := stop (.punctuator "[") (by simp [suffixWords])
  rw [Continues, suffixes.eq_def, dot, bracket]
  cases calls with
  | false => simp
  | true =>
    have paren := stop (.punctuator "(") (by simp [suffixWords])
    simp [paren]

theorem continues_suffixes_member {calls : Bool} {target : Expr} {property : String}
    (more : Continues (suffixes calls (.member target property)) ts x m) :
    Continues (suffixes calls target)
      (⟨.punctuator ".", flag⟩ :: ⟨.name property, f⟩ :: ts) x m := by
  obtain ⟨dot, h₁, -, e₁⟩ := reads_accept (.punctuator ".") flag _
  obtain ⟨name, h₂, v₂, e₂⟩ := (reads_propertyName property f ts).of_eq e₁
  rw [← v₂] at more
  obtain ⟨more', h₃, rfl, e₃⟩ := more.of_eq e₂
  rw [Continues, suffixes.eq_def, h₁]
  simp only [Option.bind_eq_bind, Option.bind_some, h₂, h₃, Option.pure_def, Option.some.injEq,
    exists_eq_left']
  exact ⟨rfl, e₃⟩

theorem continues_suffixes_index {calls : Bool} {target key : Expr}
    (index : Reads assignment ts key (⟨.punctuator "]", f⟩ :: m₁))
    (more : Continues (suffixes calls (.index target key)) m₁ x m) :
    Continues (suffixes calls target) (⟨.punctuator "[", flag⟩ :: ts) x m := by
  obtain ⟨opening, h₁, -, e₁⟩ := reads_accept (.punctuator "[") flag ts
  obtain ⟨key', h₂, rfl, e₂⟩ := index.of_eq e₁
  obtain ⟨closing, h₃, -, e₃⟩ := (reads_accept (.punctuator "]") f m₁).of_eq e₂
  obtain ⟨more', h₄, rfl, e₄⟩ := more.of_eq e₃
  rw [Continues, suffixes.eq_def, accept_cons_of_ne _ (by simp), h₁]
  simp only [Option.bind_eq_bind, Option.bind_some, h₂, h₃, h₄, Option.pure_def,
    Option.some.injEq, exists_eq_left']
  exact ⟨rfl, e₄⟩

theorem continues_suffixes_call {target : Expr}
    (args : Reads arguments (⟨.punctuator "(", flag⟩ :: ts) xs m₁)
    (more : Continues (suffixes true (.call target xs)) m₁ x m) :
    Continues (suffixes true target) (⟨.punctuator "(", flag⟩ :: ts) x m := by
  obtain ⟨opening, h₁, -, -⟩ := reads_accept (.punctuator "(") flag ts
  obtain ⟨args', h₂, rfl, e₂⟩ := args
  obtain ⟨more', h₃, rfl, e₃⟩ := more.of_eq e₂
  rw [Continues, suffixes.eq_def, accept_cons_of_ne _ (by simp), accept_cons_of_ne _ (by simp), h₁]
  simp only [Option.bind_eq_bind, Option.bind_some, h₂, h₃, Option.pure_def, Option.some.injEq,
    exists_eq_left']
  exact ⟨rfl, e₃⟩

theorem reads_memberExpression_new {callee : Expr}
    (target : Reads memberExpression ts callee m₁) (args : Reads arguments m₁ xs m₂)
    (more : Continues (suffixes false (.new callee xs)) m₂ x m) :
    Reads memberExpression (⟨.name "new", flag⟩ :: ts) x m := by
  obtain ⟨newWord, h₁, -, e₁⟩ := reads_accept (.name "new") flag ts
  obtain ⟨callee', h₂, rfl, e₂⟩ := target.of_eq e₁
  obtain ⟨args', h₃, rfl, e₃⟩ := args.of_eq e₂
  obtain ⟨more', h₄, rfl, e₄⟩ := more.of_eq e₃
  rw [Reads, memberExpression, h₁]
  simp only [Option.bind_eq_bind, Option.bind_some, h₂, h₃, h₄, Option.pure_def,
    Option.some.injEq, exists_eq_left']
  exact ⟨rfl, e₄⟩

theorem reads_memberExpression_primary {head : Expr} (notNew : accept (.name "new") ts = none)
    (first : Reads primary ts head m₁) (more : Continues (suffixes false head) m₁ x m) :
    Reads memberExpression ts x m := by
  obtain ⟨head', h₁, rfl, e₁⟩ := first
  obtain ⟨more', h₂, rfl, e₂⟩ := more.of_eq e₁
  rw [Reads, memberExpression, notNew]
  simp only [Option.bind_eq_bind, Option.bind_some, h₁, h₂, Option.pure_def, Option.some.injEq,
    exists_eq_left']
  exact ⟨rfl, e₂⟩

theorem reads_leftHandSide {head : Expr} (first : Reads memberExpression ts head m₁)
    (more : Continues (suffixes true head) m₁ x m) : Reads leftHandSide ts x m := by
  obtain ⟨head', h₁, rfl, e₁⟩ := first
  obtain ⟨more', h₂, rfl, e₂⟩ := more.of_eq e₁
  rw [Reads, leftHandSide]
  simp only [Option.bind_eq_bind, Option.bind_some, h₁, h₂, Option.pure_def, Option.some.injEq,
    exists_eq_left']
  exact ⟨rfl, e₂⟩

theorem reads_unary_operator {t : Token} (op : t.text ∈ unaryOperators)
    (operand : Reads unary ts x m) : Reads unary (t :: ts) (.unary t.text x) m := by
  obtain ⟨op', h₁, v₁, e₁⟩ := reads_operator ts op
  obtain ⟨operand', h₂, rfl, e₂⟩ := operand.of_eq e₁
  rw [Reads, unary, h₁]
  simp only [Option.bind_eq_bind, Option.bind_some, h₂, Option.pure_def, Option.some.injEq,
    exists_eq_left']
  exact ⟨congrArg (fun o => Expr.unary o operand'.value) v₁, e₂⟩

theorem reads_unary_of_leftHandSide (notOperator : operator unaryOperators ts = none)
    (inner : Reads leftHandSide ts x m) : Reads unary ts x m := by
  rw [Reads, unary, notOperator]
  exact inner

theorem reads_binaryOperand_next {level : Nat} (next : level + 1 < binaryLevels.length)
    (inner : Reads (binary (level + 1)) ts x m) : Reads (binaryOperand level) ts x m := by
  rw [Reads, binaryOperand, if_pos next]
  exact inner

theorem reads_binaryOperand_unary {level : Nat} (tightest : binaryLevels.length ≤ level + 1)
    (inner : Reads unary ts x m) : Reads (binaryOperand level) ts x m := by
  rw [Reads, binaryOperand, if_neg (Nat.not_lt.mpr tightest)]
  exact inner

theorem reads_binary {level : Nat} (first : Reads (binaryOperand level) ts x m₁)
    (tail : Continues (binaryTail level x) m₁ y m) : Reads (binary level) ts y m := by
  obtain ⟨first', h₁, rfl, e₁⟩ := first
  obtain ⟨tail', h₂, rfl, e₂⟩ := tail.of_eq e₁
  rw [Reads, binary]
  simp only [Option.bind_eq_bind, Option.bind_some, h₁, h₂, Option.pure_def, Option.some.injEq,
    exists_eq_left']
  exact ⟨rfl, e₂⟩

theorem continues_binaryTail_stop {level : Nat}
    (stop : operator (binaryLevels.getD level []) ts = none) :
    Continues (binaryTail level x) ts x ts := by
  rw [Continues, binaryTail, stop]
  simp

theorem continues_binaryTail_operator {level : Nat} {t : Token} {right : Expr}
    (op : t.text ∈ binaryLevels.getD level []) (operand : Reads (binaryOperand level) ts right m₁)
    (more : Continues (binaryTail level (.binary x t.text right)) m₁ y m) :
    Continues (binaryTail level x) (t :: ts) y m := by
  obtain ⟨op', h₁, v₁, e₁⟩ := reads_operator ts op
  obtain ⟨right', h₂, rfl, e₂⟩ := operand.of_eq e₁
  rw [← v₁] at more
  obtain ⟨more', h₃, rfl, e₃⟩ := more.of_eq e₂
  rw [Continues, binaryTail, h₁]
  simp only [Option.bind_eq_bind, Option.bind_some, h₂, h₃, Option.pure_def, Option.some.injEq,
    exists_eq_left']
  exact ⟨rfl, e₃⟩

theorem asyncArrow_eq_none {rest : List Token}
    (h : ∀ t ∈ rest.head?, t ≠ ⟨.punctuator "=>", false⟩) : asyncArrow ts rest = none := by
  unfold asyncArrow
  split
  · split
    · cases rest with
      | nil => rfl
      | cons t more => exact single_cons_of_none more (by simp [h t rfl])
    · rfl
  · rfl

theorem reads_assignment_plain (left : Reads (binary 0) ts x m)
    (noEquals : accept (.punctuator "=") m = none) (noArrow : asyncArrow ts m = none) :
    Reads assignment ts x m := by
  obtain ⟨left', h₁, rfl, e₁⟩ := left
  rw [← e₁] at noEquals noArrow
  rw [Reads, assignment]
  simp only [Option.bind_eq_bind, Option.bind_some, h₁, noEquals, noArrow, Option.pure_def,
    Option.some.injEq, exists_eq_left', true_and]
  exact e₁

theorem reads_assignment_assign (left : Reads (binary 0) ts x (⟨.punctuator "=", f⟩ :: m₁))
    (target : x.isSimpleTarget = true) (value : Reads assignment m₁ y m) :
    Reads assignment ts (.assign x y) m := by
  obtain ⟨left', h₁, rfl, e₁⟩ := left
  obtain ⟨equals, h₂, -, e₂⟩ := (reads_accept (.punctuator "=") f m₁).of_eq e₁
  obtain ⟨value', h₃, rfl, e₃⟩ := value.of_eq e₂
  rw [Reads, assignment]
  simp only [Option.bind_eq_bind, Option.bind_some, h₁, h₂, target, if_true, h₃,
    Option.pure_def, Option.some.injEq, exists_eq_left']
  exact ⟨rfl, e₃⟩

theorem reads_assignment_arrow {body : List Stmt} {f₁ f₂ : Bool}
    (head : Reads (binary 0)
      (⟨.name "async", f₁⟩ :: ⟨.punctuator "(", false⟩ :: ⟨.punctuator ")", f₂⟩ ::
        ⟨.punctuator "=>", false⟩ :: ts) x (⟨.punctuator "=>", false⟩ :: ts))
    (inner : Reads functionBody ts body m) :
    Reads assignment
      (⟨.name "async", f₁⟩ :: ⟨.punctuator "(", false⟩ :: ⟨.punctuator ")", f₂⟩ ::
        ⟨.punctuator "=>", false⟩ :: ts) (.asyncArrow body) m := by
  obtain ⟨left', h₁, rfl, e₁⟩ := head
  have noEquals : accept (.punctuator "=") left'.rest = none := by
    rw [e₁]
    exact accept_cons_of_ne ts (by simp)
  obtain ⟨arrow, h₂, -, e₂⟩ : Reads (asyncArrow (⟨.name "async", f₁⟩ ::
      ⟨.punctuator "(", false⟩ :: ⟨.punctuator ")", f₂⟩ :: ⟨.punctuator "=>", false⟩ :: ts))
      left'.rest () ts := by
    rw [e₁]
    refine ⟨⟨(), ts, ⟨[_], rfl⟩, by simp⟩, ?_, rfl, rfl⟩
    simp [asyncArrow, single]
  obtain ⟨body', h₃, rfl, e₃⟩ := inner.of_eq e₂
  rw [Reads, assignment]
  simp only [Option.bind_eq_bind, Option.bind_some, h₁, noEquals, h₂, h₃, Option.pure_def,
    Option.some.injEq, exists_eq_left']
  exact ⟨rfl, e₃⟩

end Expressions

section Scripts

variable {ts m : List Token}

theorem script_nil : script [] = some [] := by
  rw [script]
  simp

/-- A script is an item of a list, then the rest of the script. -/
theorem script_of_reads {s : Stmt} {ss : List Stmt}
    (first : Reads (statementListItem false) ts s m) (more : script m = some ss) :
    script ts = some (s :: ss) := by
  obtain ⟨p, found, rfl, rfl⟩ := first
  have filled : ts ≠ [] := by
    rintro rfl
    have := p.shorter
    simp at this
  rw [script, if_neg filled]
  simp [found, more]

end Scripts

end VieCompiler.Script
