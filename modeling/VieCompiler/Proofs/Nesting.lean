import VieCompiler.Compile
import Mathlib

/-!
# How the parser nests statements

The body of a conditional or of a loop is read by `Parser.statement`, which reads no
declaration, and a conditional takes every alternative that follows it: a consequent that
ends in a conditional without an alternative is never followed by `ngược_lại` or `còn_nếu`,
since the inner conditional would have taken it. `Stmt.wellNested` states both facts of every
statement inside a program, and `Program.ofSource_wellNested` proves them of every program
the parser reads.

The proof follows the recursion of the parser: one step lemma per production, at budget
`b + 1` from the invariant of every production at budget `b` (`ParsesNested`), and the loops
over the statements of a block and the methods of a class by induction on the tokens left.
-/

namespace VieCompiler

namespace Stmt

/-- Whether the statement is a declaration, which may stand in a list of statements and
nowhere else. -/
def isDeclaration : Stmt → Bool
  | .letDecl _ _ | .function _ | .classDecl _ _ => true
  | _ => false

/-- Whether the statement ends in a conditional without an alternative, which an alternative
right after the statement would complete. -/
def endsOpen : Stmt → Bool
  | .ifElse _ _ none => true
  | .ifElse _ _ (some alternate) => alternate.endsOpen
  | .whileLoop _ body | .forEach _ _ body => body.endsOpen
  | _ => false

mutual

/-- The statement nests as the parser nests statements: the body of a conditional or of a
loop is no declaration, and a consequent followed by an alternative does not end open. -/
def wellNested : Stmt → Bool
  | .expr _ | .letDecl _ _ | .ret _ => true
  | .block body => Stmt.wellNestedList body
  | .function definition => Stmt.wellNestedRoutine definition
  | .classDecl _ methods => Stmt.wellNestedMethods methods
  | .ifElse _ consequent none => !consequent.isDeclaration && consequent.wellNested
  | .ifElse _ consequent (some alternate) =>
    !consequent.isDeclaration && !consequent.endsOpen && consequent.wellNested &&
      !alternate.isDeclaration && alternate.wellNested
  | .whileLoop _ body => !body.isDeclaration && body.wellNested
  | .forEach _ _ body => !body.isDeclaration && body.wellNested

/-- Every statement of the list nests well. -/
def wellNestedList : List Stmt → Bool
  | [] => true
  | s :: ss => s.wellNested && Stmt.wellNestedList ss

/-- The body of the function nests well. -/
def wellNestedRoutine : FunctionDef Stmt → Bool
  | ⟨_, _, body⟩ => Stmt.wellNestedList body

/-- The body of every method nests well. -/
def wellNestedMethods : List (FunctionDef Stmt) → Bool
  | [] => true
  | m :: ms => Stmt.wellNestedRoutine m && Stmt.wellNestedMethods ms

end

end Stmt

theorem Except.exists_of_bind_eq_ok {ε α β : Type} {x : Except ε α} {f : α → Except ε β} {r : β}
    (h : x >>= f = .ok r) : ∃ a, x = .ok a ∧ f a = .ok r := by
  cases x with
  | error e => cases h
  | ok a => exact ⟨a, rfl, h⟩

namespace Parser

/-- No alternative follows: the tokens start with neither `ngược_lại` nor `còn_nếu`. -/
def NoElse (rest : List Token) : Prop :=
  next? (.keyword .nguocLai) rest = none ∧ next? (.keyword .conNeu) rest = none

/-- What the parser guarantees of a statement it reads before `rest`: it is no declaration,
it nests well, and if it ends open, no alternative follows it. -/
def Nests (s : Stmt) (rest : List Token) : Prop :=
  s.isDeclaration = false ∧ s.wellNested = true ∧ (s.endsOpen = true → NoElse rest)

/-- The invariants of what each production reads with budget `b`. -/
structure ParsesNested (b : Nat) : Prop where
  statement : ∀ ts (p : Parsed ts Stmt), statement b ts = .ok p → Nests p.value p.rest
  ifRest : ∀ ts (p : Parsed ts Stmt), ifRest b ts = .ok p → Nests p.value p.rest
  whileRest : ∀ ts (p : Parsed ts Stmt), whileRest b ts = .ok p → Nests p.value p.rest
  forEachRest : ∀ ts (p : Parsed ts Stmt), forEachRest b ts = .ok p → Nests p.value p.rest
  declaration : ∀ ts (p : Parsed ts Stmt), declaration b ts = .ok p → p.value.wellNested
  blockRest : ∀ ts (p : Parsed ts (List Stmt)), blockRest b ts = .ok p →
    Stmt.wellNestedList p.value
  routine : ∀ kind ts (p : Parsed ts (FunctionDef Stmt)), routine b kind ts = .ok p →
    Stmt.wellNestedRoutine p.value
  classDecl : ∀ ts (p : Parsed ts Stmt), classDecl b ts = .ok p → p.value.wellNested
  classBody : ∀ ts (p : Parsed ts (List (FunctionDef Stmt))), classBody b ts = .ok p →
    Stmt.wellNestedMethods p.value

section Steps

variable {b : Nat} {ts : List Token}

theorem nests_of_simple {s : Stmt} (rest : List Token) (notDeclaration : s.isDeclaration = false)
    (simple : s.wellNested = true) (closed : s.endsOpen = false) : Nests s rest :=
  ⟨notDeclaration, simple, fun opens => by rw [closed] at opens; cases opens⟩

theorem statement_nests (ih : ParsesNested b) {p : Parsed ts Stmt}
    (h : statement (b + 1) ts = .ok p) : Nests p.value p.rest := by
  rw [statement] at h
  split at h
  · obtain ⟨q, found, h₁⟩ := Except.exists_of_bind_eq_ok h
    cases h₁
    exact ih.ifRest _ q found
  split at h
  · obtain ⟨q, found, h₁⟩ := Except.exists_of_bind_eq_ok h
    cases h₁
    exact ih.whileRest _ q found
  split at h
  · obtain ⟨q, found, h₁⟩ := Except.exists_of_bind_eq_ok h
    cases h₁
    exact ih.forEachRest _ q found
  split at h
  · obtain ⟨q, found, h₁⟩ := Except.exists_of_bind_eq_ok h
    cases h₁
    exact nests_of_simple _ rfl (ih.blockRest _ q found) rfl
  split at h
  · -- a return, with or without its value
    split at h
    · cases h
      exact nests_of_simple _ rfl rfl rfl
    · split at h
      · cases h
      · obtain ⟨q, -, h₁⟩ := Except.exists_of_bind_eq_ok h
        cases h₁
        exact nests_of_simple _ rfl rfl rfl
  · obtain ⟨q, -, h₁⟩ := Except.exists_of_bind_eq_ok h
    cases h₁
    exact nests_of_simple _ rfl rfl rfl

/-- A conditional nests well: its consequent is followed by an alternative only if it does not
end open, as the consequent, read first, would have taken the alternative. -/
theorem ifRest_nests (ih : ParsesNested b) {p : Parsed ts Stmt} (h : ifRest (b + 1) ts = .ok p) :
    Nests p.value p.rest := by
  rw [ifRest] at h
  dsimp only at h
  obtain ⟨afterOpen, -, h₁⟩ := Except.exists_of_bind_eq_ok h
  obtain ⟨test, -, h₂⟩ := Except.exists_of_bind_eq_ok h₁
  obtain ⟨afterClose, -, h₃⟩ := Except.exists_of_bind_eq_ok h₂
  obtain ⟨consequent, found, h₄⟩ := Except.exists_of_bind_eq_ok h₃
  obtain ⟨notDeclaration, nested, closes⟩ := ih.statement _ consequent found
  -- with an alternative after it, the consequent does not end open
  have closedBefore : ∀ {x}, next? (.keyword .nguocLai) consequent.rest = some x ∨
      next? (.keyword .conNeu) consequent.rest = some x → consequent.value.endsOpen = false := by
    intro x follows
    cases opens : consequent.value.endsOpen
    · rfl
    · obtain ⟨noElse, noElseIf⟩ := closes opens
      rcases follows with follows | follows <;> simp_all
  have withAlternate : ∀ (alternate : Stmt) (rest : List Token),
      consequent.value.endsOpen = false → Nests alternate rest →
        Nests (.ifElse test.value consequent.value (some alternate)) rest := by
    rintro alternate rest closed ⟨altDeclaration, altNested, altCloses⟩
    refine ⟨rfl, ?_, altCloses⟩
    simp [Stmt.wellNested, notDeclaration, closed, nested, altDeclaration, altNested]
  split at h₄
  · rename_i elseFound
    split at h₄
    · obtain ⟨alternate, found, h₅⟩ := Except.exists_of_bind_eq_ok h₄
      cases h₅
      exact withAlternate _ _ (closedBefore (.inl elseFound)) (ih.ifRest _ alternate found)
    · obtain ⟨alternate, found, h₅⟩ := Except.exists_of_bind_eq_ok h₄
      cases h₅
      exact withAlternate _ _ (closedBefore (.inl elseFound)) (ih.statement _ alternate found)
  · rename_i noElse
    split at h₄
    · rename_i elseIfFound
      obtain ⟨alternate, found, h₅⟩ := Except.exists_of_bind_eq_ok h₄
      cases h₅
      exact withAlternate _ _ (closedBefore (.inr elseIfFound)) (ih.ifRest _ alternate found)
    · rename_i noElseIf
      cases h₄
      refine ⟨rfl, ?_, fun _ => ⟨noElse, noElseIf⟩⟩
      simp [Stmt.wellNested, notDeclaration, nested]

theorem whileRest_nests (ih : ParsesNested b) {p : Parsed ts Stmt}
    (h : whileRest (b + 1) ts = .ok p) : Nests p.value p.rest := by
  rw [whileRest] at h
  dsimp only at h
  obtain ⟨afterOpen, -, h₁⟩ := Except.exists_of_bind_eq_ok h
  obtain ⟨test, -, h₂⟩ := Except.exists_of_bind_eq_ok h₁
  obtain ⟨afterClose, -, h₃⟩ := Except.exists_of_bind_eq_ok h₂
  obtain ⟨body, found, h₄⟩ := Except.exists_of_bind_eq_ok h₃
  cases h₄
  obtain ⟨notDeclaration, nested, closes⟩ := ih.statement _ body found
  exact ⟨rfl, by simp [Stmt.wellNested, notDeclaration, nested], closes⟩

theorem forEachRest_nests (ih : ParsesNested b) {p : Parsed ts Stmt}
    (h : forEachRest (b + 1) ts = .ok p) : Nests p.value p.rest := by
  rw [forEachRest] at h
  dsimp only at h
  obtain ⟨afterOpen, -, h₁⟩ := Except.exists_of_bind_eq_ok h
  split at h₁
  · cases h₁
  obtain ⟨element, -, h₂⟩ := Except.exists_of_bind_eq_ok h₁
  obtain ⟨afterIn, -, h₃⟩ := Except.exists_of_bind_eq_ok h₂
  obtain ⟨collection, -, h₄⟩ := Except.exists_of_bind_eq_ok h₃
  obtain ⟨afterClose, -, h₅⟩ := Except.exists_of_bind_eq_ok h₄
  obtain ⟨body, found, h₆⟩ := Except.exists_of_bind_eq_ok h₅
  cases h₆
  obtain ⟨notDeclaration, nested, closes⟩ := ih.statement _ body found
  exact ⟨rfl, by simp [Stmt.wellNested, notDeclaration, nested], closes⟩

theorem routine_nests (ih : ParsesNested b) {kind : RoutineKind}
    {p : Parsed ts (FunctionDef Stmt)} (h : routine (b + 1) kind ts = .ok p) :
    Stmt.wellNestedRoutine p.value := by
  rw [routine] at h
  dsimp only at h
  obtain ⟨name, -, h₁⟩ := Except.exists_of_bind_eq_ok h
  obtain ⟨afterOpen, -, h₂⟩ := Except.exists_of_bind_eq_ok h₁
  obtain ⟨params, -, h₃⟩ := Except.exists_of_bind_eq_ok h₂
  obtain ⟨afterBrace, -, h₄⟩ := Except.exists_of_bind_eq_ok h₃
  obtain ⟨body, found, h₅⟩ := Except.exists_of_bind_eq_ok h₄
  cases h₅
  exact ih.blockRest _ body found

/-- The methods of a class body, by induction on the tokens left. -/
theorem classBody_nests (ih : ParsesNested b) {ts : List Token}
    {p : Parsed ts (List (FunctionDef Stmt))}
    (h : classBody (b + 1) ts = .ok p) : Stmt.wellNestedMethods p.value := by
  rw [classBody] at h
  dsimp only at h
  split at h
  · obtain ⟨rest, -, h₁⟩ := Except.exists_of_bind_eq_ok h
    cases h₁
    rfl
  split at h
  · rename_i tail shorter _
    obtain ⟨method, found, h₁⟩ := Except.exists_of_bind_eq_ok h
    obtain ⟨others, foundMore, h₂⟩ := Except.exists_of_bind_eq_ok h₁
    cases h₂
    have later := classBody_nests ih foundMore
    simp [Stmt.wellNestedMethods, ih.routine _ _ method found, later]
  · cases h
termination_by ts.length
decreasing_by
  have := method.shorter
  omega

theorem classDecl_nests (ih : ParsesNested b) {p : Parsed ts Stmt}
    (h : classDecl (b + 1) ts = .ok p) : p.value.wellNested := by
  rw [classDecl] at h
  dsimp only at h
  split at h
  · cases h
  obtain ⟨name, -, h₁⟩ := Except.exists_of_bind_eq_ok h
  obtain ⟨afterBrace, -, h₂⟩ := Except.exists_of_bind_eq_ok h₁
  obtain ⟨methods, found, h₃⟩ := Except.exists_of_bind_eq_ok h₂
  cases h₃
  exact classBody_nests ih found

theorem variableDecl_simple {b : Nat} {p : Parsed ts Stmt} (h : variableDecl b ts = .ok p) :
    p.value.wellNested := by
  unfold variableDecl at h
  split at h
  · cases h
  · dsimp only at h
    obtain ⟨name, -, h₁⟩ := Except.exists_of_bind_eq_ok h
    obtain ⟨afterEquals, -, h₂⟩ := Except.exists_of_bind_eq_ok h₁
    obtain ⟨value, -, h₃⟩ := Except.exists_of_bind_eq_ok h₂
    cases h₃
    rfl

theorem declaration_nests (ih : ParsesNested b) {p : Parsed ts Stmt}
    (h : declaration (b + 1) ts = .ok p) : p.value.wellNested := by
  rw [declaration] at h
  split at h
  · obtain ⟨q, found, h₁⟩ := Except.exists_of_bind_eq_ok h
    cases h₁
    exact (variableDecl_simple found :)
  split at h
  · obtain ⟨q, found, h₁⟩ := Except.exists_of_bind_eq_ok h
    cases h₁
    exact ih.routine _ _ q found
  split at h
  · obtain ⟨q, found, h₁⟩ := Except.exists_of_bind_eq_ok h
    cases h₁
    exact ih.classDecl _ q found
  · exact (ih.statement _ p h).2.1

/-- The statements of a block, by induction on the tokens left. -/
theorem blockRest_nests (ih : ParsesNested b) {ts : List Token} {p : Parsed ts (List Stmt)}
    (h : blockRest (b + 1) ts = .ok p) : Stmt.wellNestedList p.value := by
  rw [blockRest] at h
  split at h
  · obtain ⟨rest, -, h₁⟩ := Except.exists_of_bind_eq_ok h
    cases h₁
    rfl
  · obtain ⟨first, found, h₁⟩ := Except.exists_of_bind_eq_ok h
    obtain ⟨others, foundMore, h₂⟩ := Except.exists_of_bind_eq_ok h₁
    cases h₂
    have later := blockRest_nests ih foundMore
    simp [Stmt.wellNestedList, ih.declaration _ first found, later]
termination_by ts.length
decreasing_by
  have := first.shorter
  omega

/-- With no budget left, no production reads anything. -/
theorem parsesNested_zero : ParsesNested 0 where
  statement _ _ h := by rw [statement] at h; cases h
  ifRest _ _ h := by rw [ifRest] at h; cases h
  whileRest _ _ h := by rw [whileRest] at h; cases h
  forEachRest _ _ h := by rw [forEachRest] at h; cases h
  declaration _ _ h := by rw [declaration] at h; cases h
  blockRest _ _ h := by rw [blockRest] at h; cases h
  routine _ _ _ h := by rw [routine] at h; cases h
  classDecl _ _ h := by rw [classDecl] at h; cases h
  classBody _ _ h := by rw [classBody] at h; cases h

theorem parsesNested_succ (ih : ParsesNested b) : ParsesNested (b + 1) where
  statement _ _ h := statement_nests ih h
  ifRest _ _ h := ifRest_nests ih h
  whileRest _ _ h := whileRest_nests ih h
  forEachRest _ _ h := forEachRest_nests ih h
  declaration _ _ h := declaration_nests ih h
  blockRest _ _ h := blockRest_nests ih h
  routine _ _ _ h := routine_nests ih h
  classDecl _ _ h := classDecl_nests ih h
  classBody _ _ h := classBody_nests ih h

end Steps

/-- Everything the parser reads nests well, whatever its budget. -/
theorem parsesNested : ∀ b, ParsesNested b
  | 0 => parsesNested_zero
  | b + 1 => parsesNested_succ (parsesNested b)

theorem topLevel_wellNested {budget : Nat} {ts : List Token} {body : List Stmt}
    (h : topLevel budget ts = .ok body) : Stmt.wellNestedList body := by
  rw [topLevel] at h
  split at h
  · cases h
    rfl
  · obtain ⟨first, found, h₁⟩ := Except.exists_of_bind_eq_ok h
    obtain ⟨others, foundMore, h₂⟩ := Except.exists_of_bind_eq_ok h₁
    cases h₂
    have later := topLevel_wellNested foundMore
    simp [Stmt.wellNestedList, (parsesNested budget).declaration _ first found, later]
termination_by ts.length
decreasing_by
  have := first.shorter
  omega

/-- Every program the parser reads from tokens nests well. -/
theorem parse_wellNested {budget : Nat} {ts : List Token} {program : Program}
    (h : parse budget ts = .ok program) : Stmt.wellNestedList program.body := by
  rw [parse] at h
  cases parsed : topLevel budget ts with
  | error e =>
    rw [parsed] at h
    cases h
  | ok body =>
    rw [parsed] at h
    cases h
    exact topLevel_wellNested parsed

end Parser

/-- Every program the parser reads nests well. -/
theorem Program.ofSourceAt_wellNested {active : Nat} {source : String} {program : Program}
    (h : Program.ofSourceAt active source = .ok program) : Stmt.wellNestedList program.body := by
  rw [Program.ofSourceAt] at h
  obtain ⟨tokens, -, h₁⟩ := Except.exists_of_bind_eq_ok h
  rw [Program.ofTokensAt] at h₁
  cases parsed : Parser.parse (parseBudget active) tokens with
  | error e =>
    rw [parsed] at h₁
    cases h₁
  | ok read =>
    rw [parsed] at h₁
    cases h₁
    exact Parser.parse_wellNested parsed

end VieCompiler
