import VieCompiler.Proofs.SourcePrinter
import VieCompiler.Proofs.WellFormed
import VieCompiler.Proofs.Budget
import Mathlib

/-!
# What follows what the parser reads

The parser reads as much as it can: an expression goes on as long as the next token continues
it. A parenthesis, a bracket or a dot opens a postfix form, an operator of a level that the
place reads continues an operation, and at the loosest place `=` makes an assignment
(`Token.Kind.continuesAt`). So no such token follows an expression that the parser has read
(`Parser.Stops`).

The other half is how a read expression starts. Its printed tokens start with a parenthesis or
a bracket only if the tokens it was read from start with one of them or with a minus, which
the printer writes as a subtraction from zero (`Parser.StartsOpen`).

Together they say that in a program the parser reads, no statement that ends in an expression
is followed by one whose printed tokens start with a bracket (`Stmt.separated`): that bracket
would have continued the expression. This is what lets a printed program be read back
statement by statement, and `Program.ofSourceAt_separated` proves it of every program read
from a source text.

As in `VieCompiler.Proofs.WellFormed`, the invariant of the productions at budget `b`
(`Parser.ExprsDelimited`, `Parser.StmtsDelimited`) gives the one at `b + 1`, production by
production, and the loops of the grammar go by induction on the tokens left.
-/

namespace VieCompiler

namespace Token.Kind

/-- The precedence level of the binary operator that a token of this kind writes. -/
def operatorLevel? : Token.Kind → Option Nat
  | keyword .hoac => some 0
  | keyword .va => some 1
  | eqEq | notEq => some 2
  | lt | le | gt | ge => some 3
  | plus | minus => some 4
  | star | slash => some 5
  | _ => none

/-- Whether a token of this kind, right after an expression read at a place of precedence
`context`, is read as part of that expression. -/
def continuesAt (context : Nat) (kind : Token.Kind) : Bool :=
  kind == .lparen || kind == .lbracket || kind == .dot || (context == 0 && kind == .equal) ||
    match kind.operatorLevel? with
    | some level => decide (context ≤ level + 1)
    | none => false

theorem operatorLevel?_le {kind : Token.Kind} {level : Nat}
    (found : kind.operatorLevel? = some level) : level ≤ 5 := by
  unfold operatorLevel? at found
  split at found <;> cases found <;> omega

/-- A token continues no expression at a place when it opens no postfix form, is no `=` at the
loosest place, and writes no operator of a level that the place reads. -/
theorem continuesAt_eq_false {context : Nat} {kind : Token.Kind} :
    kind.continuesAt context = false ↔
      kind ≠ .lparen ∧ kind ≠ .lbracket ∧ kind ≠ .dot ∧ (context = 0 → kind ≠ .equal) ∧
        ∀ level, kind.operatorLevel? = some level → level + 1 < context := by
  unfold continuesAt
  cases kind.operatorLevel? with
  | none => simp [and_assoc]
  | some level =>
    simp only [Bool.or_eq_false_iff, beq_eq_false_iff_ne, ne_eq, Bool.and_eq_false_iff,
      decide_eq_false_iff_not, Nat.not_le, Option.some.injEq, forall_eq', and_assoc]
    constructor
    · rintro ⟨paren, bracket, dot, equal, below⟩
      refine ⟨paren, bracket, dot, fun zero => ?_, below⟩
      rcases equal with loosest | notEqual
      · exact absurd (by simpa using zero) loosest
      · exact notEqual
    · rintro ⟨paren, bracket, dot, equal, below⟩
      refine ⟨paren, bracket, dot, ?_, below⟩
      by_cases zero : context = 0
      · exact .inr (equal zero)
      · exact .inl (by simpa using zero)

end Token.Kind

namespace Stmt

/-- Whether the statement ends in an expression, which a token after it could continue. -/
def endsInExpression : Stmt → Bool
  | expr _ | letDecl _ _ | ret _ => true
  | ifElse _ consequent none => consequent.endsInExpression
  | ifElse _ _ (some alternate) => alternate.endsInExpression
  | whileLoop _ body | forEach _ _ body => body.endsInExpression
  | _ => false

/-- Whether the first of the statements starts with a parenthesis or a bracket. -/
def headOpensBracket : List Stmt → Bool
  | [] => false
  | s :: _ => s.opensBracket

mutual

/-- No statement of a list inside the statement that ends in an expression is followed by one
whose tokens start with a parenthesis or a bracket. -/
def separated : Stmt → Bool
  | expr _ | letDecl _ _ | ret _ => true
  | block body => separatedList body
  | function definition => separatedRoutine definition
  | classDecl _ methods => separatedMethods methods
  | ifElse _ consequent none => consequent.separated
  | ifElse _ consequent (some alternate) => consequent.separated && alternate.separated
  | whileLoop _ body => body.separated
  | forEach _ _ body => body.separated

/-- No statement of the list that ends in an expression is followed by one that starts with a
parenthesis or a bracket, and every statement of it is separated. -/
def separatedList : List Stmt → Bool
  | [] => true
  | s :: ss => s.separated && !(s.endsInExpression && headOpensBracket ss) && separatedList ss

/-- The body of the routine is separated. -/
def separatedRoutine : FunctionDef Stmt → Bool
  | ⟨_, _, body⟩ => separatedList body

/-- The body of every method is separated. -/
def separatedMethods : List (FunctionDef Stmt) → Bool
  | [] => true
  | m :: ms => separatedRoutine m && separatedMethods ms

end

end Stmt

namespace Parser

/-- No token in front of `rest` continues an expression read at a place of precedence
`context`. -/
def Stops (context : Nat) (rest : List Token) : Prop :=
  ∀ t ∈ rest.head?, t.kind.continuesAt context = false

/-- The tokens start with a parenthesis, a bracket or a minus. -/
def StartsOpen (tokens : List Token) : Prop :=
  ∃ t ∈ tokens.head?, t.kind = .lparen ∨ t.kind = .lbracket ∨ t.kind = .minus

section Operators

variable {level : Nat}

/-- The operators that `levelOperators` lists for a level are those of that level. -/
theorem find?_levelOperators_isSome (bounded : level ≤ 5) (kind : Token.Kind) :
    ((levelOperators level).find? (·.1 == kind)).isSome = (kind.operatorLevel? == some level) := by
  interval_cases level <;> cases kind <;> try rfl
  all_goals
    rename_i k
    cases k <;> rfl

theorem level_of_mem_levelOperators (bounded : level ≤ 5) :
    ∀ entry ∈ levelOperators level, entry.2.level = level := by
  interval_cases level <;> decide

theorem operator?_cons_of_level {t : Token} {rest : List Token} {found}
    (h : operator? level (t :: rest) = some found) (bounded : level ≤ 5) :
    t.kind.operatorLevel? = some level ∧ found.1.level = level := by
  simp only [operator?] at h
  split at h
  · cases h
  · obtain ⟨entry, listed, same⟩ := Option.map_eq_some_iff.mp h
    cases same
    have isSome := find?_levelOperators_isSome bounded t.kind
    rw [listed] at isSome
    refine ⟨by simpa using isSome.symm, ?_⟩
    exact level_of_mem_levelOperators bounded _ (List.mem_of_find?_eq_some listed)

/-- The operator found at a level is of that level. -/
theorem operator?_level {ts : List Token} {found} (h : operator? level ts = some found)
    (bounded : level ≤ 5) : found.1.level = level := by
  cases ts with
  | nil => cases h
  | cons t rest => exact (operator?_cons_of_level h bounded).2

theorem operator?_eq_none (bounded : level ≤ 5) {t : Token} (rest : List Token)
    (other : t.kind.operatorLevel? ≠ some level) : operator? level (t :: rest) = none := by
  cases found : operator? level (t :: rest) with
  | none => rfl
  | some found' => exact absurd (operator?_cons_of_level found bounded).1 other

end Operators

section Stopping

variable {context : Nat} {ts : List Token}

/-- The token in front of tokens that stop an expression, if there is one. -/
theorem Stops.head {t : Token} {rest : List Token} (stops : Stops context (t :: rest)) :
    t.kind ≠ .lparen ∧ t.kind ≠ .lbracket ∧ t.kind ≠ .dot ∧ (context = 0 → t.kind ≠ .equal) ∧
      ∀ level, t.kind.operatorLevel? = some level → level + 1 < context :=
  Token.Kind.continuesAt_eq_false.mp (stops t rfl)

theorem stops_cons {t : Token} (rest : List Token)
    (stops : t.kind ≠ .lparen ∧ t.kind ≠ .lbracket ∧ t.kind ≠ .dot ∧
      (context = 0 → t.kind ≠ .equal) ∧
      ∀ level, t.kind.operatorLevel? = some level → level + 1 < context) :
    Stops context (t :: rest) := by
  intro u head
  cases head
  exact Token.Kind.continuesAt_eq_false.mpr stops

theorem stops_nil : Stops context [] := nofun

theorem Stops.mono {context' : Nat} (stops : Stops context ts) (le : context ≤ context') :
    Stops context' ts := by
  cases ts with
  | nil => exact stops_nil
  | cons t rest =>
    obtain ⟨paren, bracket, dot, equal, below⟩ := stops.head
    exact stops_cons rest ⟨paren, bracket, dot, fun zero => equal (by omega),
      fun level found => by have := below level found; omega⟩

/-- An operation stops where no operator of its own level follows and its last operand, read
one level tighter, stopped. -/
theorem Stops.of_operator?_eq_none {level : Nat} (bounded : level ≤ 5)
    (stops : Stops (level + 2) ts) (none : operator? level ts = none) : Stops (level + 1) ts := by
  cases ts with
  | nil => exact stops_nil
  | cons t rest =>
    obtain ⟨paren, bracket, dot, -, below⟩ := stops.head
    have notOwn : t.kind.operatorLevel? ≠ some level := by
      intro own
      have found := find?_levelOperators_isSome bounded t.kind
      have notEnd : t.kind ≠ .eof := by
        intro eof
        simp [eof, Token.Kind.operatorLevel?] at own
      simp only [operator?, notEnd, if_false, Option.map_eq_none_iff] at none
      simp [none, own] at found
    refine stops_cons rest ⟨paren, bracket, dot, fun zero => by omega, fun l found => ?_⟩
    have := below l found
    have : l ≠ level := fun same => notOwn (same ▸ found)
    omega

/-- The postfix forms stop where no parenthesis, bracket or dot follows. -/
theorem stops_of_suffixes (call : next? .lparen ts = none) (index : next? .lbracket ts = none)
    (field : next? .dot ts = none) : Stops 7 ts := by
  cases ts with
  | nil => exact stops_nil
  | cons t rest =>
    simp only [next?] at call index field
    refine stops_cons rest ⟨fun same => by simp [same] at call, fun same => by simp [same] at index,
      fun same => by simp [same] at field, fun seven => absurd seven (by decide),
      fun level found => ?_⟩
    have := Token.Kind.operatorLevel?_le found
    omega

/-- An assignment stops where the binary expression before it stops and no `=` follows. -/
theorem Stops.of_next?_equal (stops : Stops 1 ts) (none : next? .equal ts = none) :
    Stops 0 ts := by
  cases ts with
  | nil => exact stops_nil
  | cons t rest =>
    obtain ⟨paren, bracket, dot, -, below⟩ := stops.head
    refine stops_cons rest ⟨paren, bracket, dot, fun _ same => ?_, fun level found => ?_⟩
    · simp [next?, same] at none
    · have := below level found
      omega

/-- A closing brace or the end of the input continues no expression. -/
theorem stops_of_atCloseOrEnd (closing : atCloseOrEnd .rbrace ts = true) : Stops 0 ts := by
  cases ts with
  | nil => exact stops_nil
  | cons t rest =>
    have kind : t.kind = .rbrace ∨ t.kind = .eof := by
      simp only [atCloseOrEnd, next?, atEnd, peek, Bool.or_eq_true, beq_iff_eq] at closing
      rcases closing with closing | closing
      · split at closing
        · rename_i fits
          exact .inl fits.1
        · cases closing
      · exact .inr closing
    refine stops_cons rest ⟨?_, ?_, ?_, ?_, fun level found => ?_⟩ <;>
      rcases kind with kind | kind <;> simp_all [Token.Kind.operatorLevel?]

/-- No expression read at the loosest place is followed by a parenthesis, a bracket or a
minus. -/
theorem Stops.not_startsOpen (stops : Stops 0 ts) : ¬StartsOpen ts := by
  rintro ⟨t, head, kind⟩
  obtain ⟨rest, rfl⟩ : ∃ rest, ts = t :: rest := by
    cases ts with
    | nil => cases head
    | cons u rest =>
      cases head
      exact ⟨rest, rfl⟩
  obtain ⟨paren, bracket, -, -, below⟩ := stops.head
  rcases kind with kind | kind | kind
  · exact paren kind
  · exact bracket kind
  · have := below 4 (by simp [kind, Token.Kind.operatorLevel?])
    omega

end Stopping

section Expressions

/-- What the expression production `f` reads, at a place of precedence `context`, is followed by
no token that continues it, and its printed tokens start with a parenthesis or a bracket only
if the tokens it was read from start open. -/
def ReadsDelimited (context : Nat)
    (f : (ts : List Token) → Except ParseFailure (Parsed ts Expr)) : Prop :=
  ∀ ts (p : Parsed ts Expr), f ts = .ok p →
    Stops context p.rest ∧ (p.value.opensBracketAt context = true → StartsOpen ts)

/-- The invariant of the expression productions with budget `b`. The loops say the same of
what they build on their start: it opens with a bracket only if the start does. -/
structure ExprsDelimited (b : Nat) : Prop where
  expression : ReadsDelimited 0 (expression b)
  assignment : ReadsDelimited 0 (assignment b)
  binary : ∀ level, level ≤ 5 → ReadsDelimited (level + 1) (binary b level)
  binaryTail : ∀ level, level ≤ 5 → ∀ start ts (p : Continued ts Expr),
    binaryTail b level start ts = .ok p → Stops (level + 2) ts →
      Stops (level + 1) p.rest ∧
        (p.value.opensBracketAt (level + 1) = true → start.opensBracketAt (level + 1) = true)
  unary : ReadsDelimited 7 (unary b)
  suffixed : ReadsDelimited 7 (suffixed b)
  suffixes : ∀ start ts (p : Continued ts Expr), suffixes b start ts = .ok p →
    Stops 7 p.rest ∧ (p.value.opensBracketAt 7 = true → start.opensBracketAt 7 = true)
  primary : ∀ ts (p : Parsed ts Expr), primary b ts = .ok p →
    p.value.opensBracketAt 8 = true → StartsOpen ts

variable {b : Nat}

theorem expression_delimited (ih : ExprsDelimited b) : ReadsDelimited 0 (expression (b + 1)) := by
  intro ts p h
  rw [expression] at h
  exact ih.assignment ts p h

theorem assignment_delimited (ih : ExprsDelimited b) : ReadsDelimited 0 (assignment (b + 1)) := by
  intro ts p h
  rw [assignment] at h
  obtain ⟨left, leftFound, h₁⟩ := Except.exists_of_bind_eq_ok h
  obtain ⟨leftStops, leftOpens⟩ := ih.binary 0 (by omega) ts left leftFound
  split at h₁
  · rename_i afterEquals shorter equalFound
    obtain ⟨value, valueFound, h₂⟩ := Except.exists_of_bind_eq_ok h₁
    obtain ⟨valueStops, -⟩ := ih.assignment afterEquals value valueFound
    split at h₂
    · cases h₂
      -- the tokens of an assignment start with those of its target
      refine ⟨valueStops, fun opens => leftOpens ?_⟩
      simpa [Expr.opensBracketAt, Expr.opensBracket, Expr.precedence] using opens
    · cases h₂
  · rename_i noEquals
    cases h₁
    exact ⟨leftStops.of_next?_equal noEquals,
      fun opens => leftOpens (Expr.opensBracketAt_mono (by omega) opens)⟩

/-- An operand of a binary level is of the next level, or unary at the tightest, which is
level 5. -/
theorem tightest_of_not_lt {level : Nat} (bounded : level ≤ 5) (notTighter : ¬level < tightestLevel) :
    level = 5 := by
  simp only [tightestLevel] at notTighter
  omega

/-- The operators and operands after the first operand of a binary level, by induction on the
tokens left. -/
theorem binaryTail_delimited (ih : ExprsDelimited b) (level : Nat) (bounded : level ≤ 5) :
    ∀ start ts (p : Continued ts Expr), binaryTail (b + 1) level start ts = .ok p →
      Stops (level + 2) ts → Stops (level + 1) p.rest ∧
        (p.value.opensBracketAt (level + 1) = true → start.opensBracketAt (level + 1) = true) := by
  suffices ∀ ts start (p : Continued ts Expr), binaryTail (b + 1) level start ts = .ok p →
      Stops (level + 2) ts → Stops (level + 1) p.rest ∧
        (p.value.opensBracketAt (level + 1) = true → start.opensBracketAt (level + 1) = true) from
    fun start ts => this ts start
  refine forall_of_shorter fun ts loop start p h stops => ?_
  rw [binaryTail] at h
  split at h
  · rename_i op tail shorter opFound
    have same := operator?_level opFound bounded
    -- the loop goes on from the operation with the operand, which opens as its left side does
    have continues : ∀ right : Parsed tail Expr, Stops (level + 2) right.rest →
        ∀ whole : Continued right.rest Expr,
          binaryTail (b + 1) level (.binary start op right.value) right.rest = .ok whole →
          Stops (level + 1) whole.rest ∧ (whole.value.opensBracketAt (level + 1) = true →
            start.opensBracketAt (level + 1) = true) := by
      intro right rightStops whole wholeFound
      have fewer : right.rest.length < ts.length := by
        have := right.shorter
        omega
      obtain ⟨wholeStops, wholeOpens⟩ := loop right.rest fewer _ whole wholeFound rightStops
      refine ⟨wholeStops, fun opens => ?_⟩
      simpa [Expr.opensBracketAt, Expr.opensBracket, Expr.precedence, same] using wholeOpens opens
    -- the operand is of the next level, or unary at the tightest
    split at h
    all_goals
      obtain ⟨right, rightFound, h₁⟩ := Except.exists_of_bind_eq_ok h
      obtain ⟨whole, wholeFound, h₂⟩ := Except.exists_of_bind_eq_ok h₁
      cases h₂
    · rename_i tighter
      have operand := ih.binary (level + 1) (by simp only [tightestLevel] at tighter; omega)
      exact continues right (operand tail right rightFound).1 whole wholeFound
    · rename_i notTighter
      obtain rfl := tightest_of_not_lt bounded notTighter
      exact continues right (ih.unary tail right rightFound).1 whole wholeFound
  · rename_i noOperator
    cases h
    exact ⟨stops.of_operator?_eq_none bounded noOperator, id⟩

theorem binary_delimited (ih : ExprsDelimited b) (level : Nat) (bounded : level ≤ 5) :
    ReadsDelimited (level + 1) (binary (b + 1) level) := by
  intro ts p h
  rw [binary] at h
  -- the loop goes on from the first operand, which the whole opens as
  have continues : ∀ first : Parsed ts Expr, Stops (level + 2) first.rest →
      (first.value.opensBracketAt (level + 2) = true → StartsOpen ts) →
      ∀ whole : Continued first.rest Expr,
        binaryTail (b + 1) level first.value first.rest = .ok whole →
        Stops (level + 1) whole.rest ∧ (whole.value.opensBracketAt (level + 1) = true → StartsOpen ts) := by
    intro first firstStops firstOpens whole wholeFound
    obtain ⟨wholeStops, wholeOpens⟩ :=
      binaryTail_delimited ih level bounded _ _ whole wholeFound firstStops
    exact ⟨wholeStops,
      fun opens => firstOpens (Expr.opensBracketAt_mono (by omega) (wholeOpens opens))⟩
  -- the first operand is of the next level, or unary at the tightest
  split at h
  all_goals
    obtain ⟨first, firstFound, h₁⟩ := Except.exists_of_bind_eq_ok h
    obtain ⟨whole, wholeFound, h₂⟩ := Except.exists_of_bind_eq_ok h₁
    cases h₂
  · rename_i tighter
    have operand := ih.binary (level + 1) (by simp only [tightestLevel] at tighter; omega)
    obtain ⟨firstStops, firstOpens⟩ := operand ts first firstFound
    exact continues first firstStops firstOpens whole wholeFound
  · rename_i notTighter
    obtain rfl := tightest_of_not_lt bounded notTighter
    obtain ⟨firstStops, firstOpens⟩ := ih.unary ts first firstFound
    exact continues first firstStops firstOpens whole wholeFound

theorem unary_delimited (ih : ExprsDelimited b) : ReadsDelimited 7 (unary (b + 1)) := by
  intro ts p h
  rw [unary] at h
  split at h
  · rename_i tail shorter minusFound
    obtain ⟨operand, operandFound, h₁⟩ := Except.exists_of_bind_eq_ok h
    cases h₁
    obtain ⟨operandStops, -⟩ := ih.unary tail operand operandFound
    obtain ⟨t, split, isMinus⟩ := next?_cons minusFound
    -- a negation starts with its minus
    exact ⟨operandStops, fun _ => ⟨t, by simp [split], .inr (.inr isMinus)⟩⟩
  · exact ih.suffixed ts p h

/-- Calls, index accesses and field accesses after an expression, by induction on the tokens
left: each builds on the expression before it, so it opens as that one does. -/
theorem suffixes_delimited :
    ∀ start ts (p : Continued ts Expr), suffixes (b + 1) start ts = .ok p →
      Stops 7 p.rest ∧ (p.value.opensBracketAt 7 = true → start.opensBracketAt 7 = true) := by
  suffices ∀ ts start (p : Continued ts Expr), suffixes (b + 1) start ts = .ok p →
      Stops 7 p.rest ∧ (p.value.opensBracketAt 7 = true → start.opensBracketAt 7 = true) from
    fun start ts => this ts start
  refine forall_of_shorter fun ts loop start p h => ?_
  rw [suffixes] at h
  split at h
  · rename_i tail shorter openFound
    obtain ⟨args, argsFound, h₁⟩ := Except.exists_of_bind_eq_ok h
    obtain ⟨whole, wholeFound, h₂⟩ := Except.exists_of_bind_eq_ok h₁
    cases h₂
    have fewer : args.rest.length < ts.length := by
      have := args.shorter
      omega
    obtain ⟨wholeStops, wholeOpens⟩ := loop args.rest fewer _ whole wholeFound
    exact ⟨wholeStops, fun opens => by
      simpa [Expr.opensBracketAt, Expr.opensBracket, Expr.precedence] using wholeOpens opens⟩
  split at h
  · rename_i tail shorter openFound
    obtain ⟨key, keyFound, h₁⟩ := Except.exists_of_bind_eq_ok h
    obtain ⟨afterClose, closeFound, h₂⟩ := Except.exists_of_bind_eq_ok h₁
    obtain ⟨whole, wholeFound, h₃⟩ := Except.exists_of_bind_eq_ok h₂
    cases h₃
    have fewer : afterClose.val.length < ts.length := by
      have := key.shorter
      have := afterClose.property
      omega
    obtain ⟨wholeStops, wholeOpens⟩ := loop afterClose.val fewer _ whole wholeFound
    exact ⟨wholeStops, fun opens => by
      simpa [Expr.opensBracketAt, Expr.opensBracket, Expr.precedence] using wholeOpens opens⟩
  split at h
  · rename_i tail shorter dotFound
    dsimp only at h
    split at h
    · cases h
    obtain ⟨field, fieldFound, h₁⟩ := Except.exists_of_bind_eq_ok h
    obtain ⟨whole, wholeFound, h₂⟩ := Except.exists_of_bind_eq_ok h₁
    cases h₂
    have fewer : field.rest.length < ts.length := by
      have := field.shorter
      omega
    obtain ⟨wholeStops, wholeOpens⟩ := loop field.rest fewer _ whole wholeFound
    exact ⟨wholeStops, fun opens => by
      simpa [Expr.opensBracketAt, Expr.opensBracket, Expr.precedence] using wholeOpens opens⟩
  · cases h
    exact ⟨stops_of_suffixes (by assumption) (by assumption) (by assumption), id⟩

theorem suffixed_delimited (ih : ExprsDelimited b) : ReadsDelimited 7 (suffixed (b + 1)) := by
  intro ts p h
  rw [suffixed] at h
  obtain ⟨head, headFound, h₁⟩ := Except.exists_of_bind_eq_ok h
  obtain ⟨whole, wholeFound, h₂⟩ := Except.exists_of_bind_eq_ok h₁
  cases h₂
  obtain ⟨wholeStops, wholeOpens⟩ := suffixes_delimited _ _ whole wholeFound
  exact ⟨wholeStops, fun opens =>
    ih.primary ts head headFound (Expr.opensBracketAt_mono (by omega) (wholeOpens opens))⟩

/-- A primary expression opens with a bracket only as an array or in parentheses, which it
was read from. -/
theorem primary_delimited :
    ∀ ts (p : Parsed ts Expr), primary (b + 1) ts = .ok p →
      p.value.opensBracketAt 8 = true → StartsOpen ts := by
  intro ts p h opens
  obtain _ | ⟨t, rest⟩ := ts
  · rw [primary] at h
    cases h
  rw [primary] at h
  dsimp only at h
  -- only an array and a group open with a bracket; every other primary is a leaf or `mới`
  generalize isKind : t.kind = kind at h
  cases kind
  case lbracket => exact ⟨t, rfl, .inr (.inl isKind)⟩
  case lparen => exact ⟨t, rfl, .inl isKind⟩
  case number =>
    cases read : Binary64.ofText? t.lexeme with
    | none =>
      rw [read] at h
      cases h
    | some value =>
      rw [read] at h
      cases h
      simp [Expr.opensBracketAt, Expr.precedence, Expr.opensBracket] at opens
  case keyword word =>
    cases word
    case moi =>
      dsimp only at h
      by_cases zero : b = 0
      · simp only [zero, ↓reduceIte] at h
        cases h
      simp only [zero, ↓reduceIte] at h
      obtain ⟨className, classFound, h₁⟩ := Except.exists_of_bind_eq_ok h
      obtain ⟨afterOpen, openFound, h₂⟩ := Except.exists_of_bind_eq_ok h₁
      obtain ⟨args, argsFound, h₃⟩ := Except.exists_of_bind_eq_ok h₂
      cases h₃
      simp [Expr.opensBracketAt, Expr.precedence, Expr.opensBracket] at opens
    all_goals first
      | (cases h; simp [Expr.opensBracketAt, Expr.precedence, Expr.opensBracket] at opens)
      | cases h
  all_goals first
    | (cases h; simp [Expr.opensBracketAt, Expr.precedence, Expr.opensBracket] at opens)
    | cases h

theorem exprsDelimited_zero : ExprsDelimited 0 where
  expression _ _ h := by rw [expression] at h; cases h
  assignment _ _ h := by rw [assignment] at h; cases h
  binary _ _ _ _ h := by rw [binary] at h; cases h
  binaryTail _ _ _ _ _ h := by rw [binaryTail] at h; cases h
  unary _ _ h := by rw [unary] at h; cases h
  suffixed _ _ h := by rw [suffixed] at h; cases h
  suffixes _ _ _ h := by rw [suffixes] at h; cases h
  primary _ _ h := by rw [primary] at h; cases h

theorem exprsDelimited_succ (ih : ExprsDelimited b) : ExprsDelimited (b + 1) where
  expression := expression_delimited ih
  assignment := assignment_delimited ih
  binary := binary_delimited ih
  binaryTail := binaryTail_delimited ih
  unary := unary_delimited ih
  suffixed := suffixed_delimited ih
  suffixes := suffixes_delimited
  primary := primary_delimited

end Expressions

/-- Every expression production, at every budget, is delimited. -/
theorem exprsDelimited : ∀ b, ExprsDelimited b
  | 0 => exprsDelimited_zero
  | b + 1 => exprsDelimited_succ (exprsDelimited b)

section Statements

/-- A statement is closed at `rest` when it is separated and, if it ends in an expression, no
token in front of `rest` continues that expression. -/
def ClosesAt (s : Stmt) (rest : List Token) : Prop :=
  s.separated = true ∧ (s.endsInExpression = true → Stops 0 rest)

/-- The invariant of the statement productions with budget `b`. A compound statement starts
with its keyword, so it opens with no bracket; a list of statements opens with a bracket only
if the tokens it was read from start open. -/
structure StmtsDelimited (b : Nat) : Prop where
  statement : ∀ ts (p : Parsed ts Stmt), statement b ts = .ok p →
    ClosesAt p.value p.rest ∧ (p.value.opensBracket = true → StartsOpen ts)
  declaration : ∀ ts (p : Parsed ts Stmt), declaration b ts = .ok p →
    ClosesAt p.value p.rest ∧ (p.value.opensBracket = true → StartsOpen ts)
  ifRest : ∀ ts (p : Parsed ts Stmt), ifRest b ts = .ok p →
    ClosesAt p.value p.rest ∧ p.value.opensBracket = false
  whileRest : ∀ ts (p : Parsed ts Stmt), whileRest b ts = .ok p →
    ClosesAt p.value p.rest ∧ p.value.opensBracket = false
  forEachRest : ∀ ts (p : Parsed ts Stmt), forEachRest b ts = .ok p →
    ClosesAt p.value p.rest ∧ p.value.opensBracket = false
  blockRest : ∀ ts (p : Parsed ts (List Stmt)), blockRest b ts = .ok p →
    Stmt.separatedList p.value = true ∧ (Stmt.headOpensBracket p.value = true → StartsOpen ts)
  routine : ∀ kind ts (p : Parsed ts (FunctionDef Stmt)), routine b kind ts = .ok p →
    Stmt.separatedRoutine p.value = true
  classDecl : ∀ ts (p : Parsed ts Stmt), classDecl b ts = .ok p →
    ClosesAt p.value p.rest ∧ p.value.opensBracket = false
  classBody : ∀ ts (p : Parsed ts (List (FunctionDef Stmt))), classBody b ts = .ok p →
    Stmt.separatedMethods p.value = true

variable {b : Nat} {ts : List Token}

theorem closesAt_of_shut {s : Stmt} {rest : List Token}
    (shut : ClosesAt s rest ∧ s.opensBracket = false) :
    ClosesAt s rest ∧ (s.opensBracket = true → StartsOpen ts) :=
  ⟨shut.1, fun opens => by simp [shut.2] at opens⟩

/-- An expression statement is closed where the expression stops. -/
theorem closesAt_of_stops {s : Stmt} {rest : List Token} (separated : s.separated = true)
    (stops : Stops 0 rest) : ClosesAt s rest :=
  ⟨separated, fun _ => stops⟩

/-- A statement that ends in no expression is closed wherever it ends. -/
theorem closesAt_of_endsInExpression {s : Stmt} {rest : List Token}
    (separated : s.separated = true) (ends : s.endsInExpression = false) : ClosesAt s rest :=
  ⟨separated, fun opens => by simp [ends] at opens⟩

/-- A separated statement followed by a separated list is separated as a list when the
statement, if it ends in an expression, stops where the list starts, and the list then starts
without a bracket. -/
theorem separatedList_cons {s : Stmt} {rest : List Token} {more : List Stmt}
    (closes : ClosesAt s rest) (separatedMore : Stmt.separatedList more = true)
    (opens : Stmt.headOpensBracket more = true → StartsOpen rest) :
    Stmt.separatedList (s :: more) = true := by
  obtain ⟨separated, stops⟩ := closes
  have apart : (s.endsInExpression && Stmt.headOpensBracket more) = false := by
    cases ends : s.endsInExpression
    · rfl
    · cases head : Stmt.headOpensBracket more
      · rfl
      · exact absurd (opens head) (stops ends).not_startsOpen
  simp [Stmt.separatedList, separated, separatedMore, apart]

theorem statement_delimited (ih : StmtsDelimited b) {p : Parsed ts Stmt}
    (h : statement (b + 1) ts = .ok p) :
    ClosesAt p.value p.rest ∧ (p.value.opensBracket = true → StartsOpen ts) := by
  rw [statement] at h
  split at h
  · obtain ⟨q, found, h₁⟩ := Except.exists_of_bind_eq_ok h
    cases h₁
    exact closesAt_of_shut (ih.ifRest _ q found)
  split at h
  · obtain ⟨q, found, h₁⟩ := Except.exists_of_bind_eq_ok h
    cases h₁
    exact closesAt_of_shut (ih.whileRest _ q found)
  split at h
  · obtain ⟨q, found, h₁⟩ := Except.exists_of_bind_eq_ok h
    cases h₁
    exact closesAt_of_shut (ih.forEachRest _ q found)
  split at h
  · obtain ⟨q, found, h₁⟩ := Except.exists_of_bind_eq_ok h
    cases h₁
    exact closesAt_of_shut
      ⟨closesAt_of_endsInExpression (ih.blockRest _ q found).1 rfl, rfl⟩
  split at h
  · -- a return, with or without its value
    split at h
    · rename_i closing
      cases h
      exact closesAt_of_shut ⟨closesAt_of_stops rfl (stops_of_atCloseOrEnd closing), rfl⟩
    · split at h
      · cases h
      · obtain ⟨q, found, h₁⟩ := Except.exists_of_bind_eq_ok h
        cases h₁
        exact closesAt_of_shut
          ⟨closesAt_of_stops rfl ((exprsDelimited _).expression _ q found).1, rfl⟩
  · obtain ⟨q, found, h₁⟩ := Except.exists_of_bind_eq_ok h
    cases h₁
    obtain ⟨stops, opens⟩ := (exprsDelimited b).expression _ q found
    refine ⟨closesAt_of_stops rfl stops, fun bracket => opens ?_⟩
    simpa [Parsed.map, Expr.opensBracketAt, Stmt.opensBracket] using bracket

/-- A conditional is closed where its last branch is. -/
theorem ifRest_delimited (ih : StmtsDelimited b) {p : Parsed ts Stmt}
    (h : ifRest (b + 1) ts = .ok p) : ClosesAt p.value p.rest ∧ p.value.opensBracket = false := by
  rw [ifRest] at h
  dsimp only at h
  obtain ⟨afterOpen, -, h₁⟩ := Except.exists_of_bind_eq_ok h
  obtain ⟨test, -, h₂⟩ := Except.exists_of_bind_eq_ok h₁
  obtain ⟨afterClose, -, h₃⟩ := Except.exists_of_bind_eq_ok h₂
  obtain ⟨consequent, found, h₄⟩ := Except.exists_of_bind_eq_ok h₃
  obtain ⟨⟨separated, stops⟩, -⟩ := ih.statement _ consequent found
  have withAlternate : ∀ (alternate : Stmt) (rest : List Token), ClosesAt alternate rest →
      ClosesAt (.ifElse test.value consequent.value (some alternate)) rest ∧
        (Stmt.ifElse test.value consequent.value (some alternate)).opensBracket = false := by
    rintro alternate rest ⟨altSeparated, altStops⟩
    refine ⟨⟨?_, fun ends => altStops (by simpa [Stmt.endsInExpression] using ends)⟩, rfl⟩
    simp [Stmt.separated, separated, altSeparated]
  split at h₄
  · split at h₄
    · obtain ⟨alternate, found, h₅⟩ := Except.exists_of_bind_eq_ok h₄
      cases h₅
      exact withAlternate _ _ (ih.ifRest _ alternate found).1
    · obtain ⟨alternate, found, h₅⟩ := Except.exists_of_bind_eq_ok h₄
      cases h₅
      exact withAlternate _ _ (ih.statement _ alternate found).1
  · split at h₄
    · obtain ⟨alternate, found, h₅⟩ := Except.exists_of_bind_eq_ok h₄
      cases h₅
      exact withAlternate _ _ (ih.ifRest _ alternate found).1
    · cases h₄
      exact ⟨⟨separated, fun ends => stops (by simpa [Stmt.endsInExpression] using ends)⟩, rfl⟩

theorem whileRest_delimited (ih : StmtsDelimited b) {p : Parsed ts Stmt}
    (h : whileRest (b + 1) ts = .ok p) : ClosesAt p.value p.rest ∧ p.value.opensBracket = false := by
  rw [whileRest] at h
  dsimp only at h
  obtain ⟨afterOpen, -, h₁⟩ := Except.exists_of_bind_eq_ok h
  obtain ⟨test, -, h₂⟩ := Except.exists_of_bind_eq_ok h₁
  obtain ⟨afterClose, -, h₃⟩ := Except.exists_of_bind_eq_ok h₂
  obtain ⟨body, found, h₄⟩ := Except.exists_of_bind_eq_ok h₃
  cases h₄
  obtain ⟨⟨separated, stops⟩, -⟩ := ih.statement _ body found
  exact ⟨⟨separated, stops⟩, rfl⟩

theorem forEachRest_delimited (ih : StmtsDelimited b) {p : Parsed ts Stmt}
    (h : forEachRest (b + 1) ts = .ok p) :
    ClosesAt p.value p.rest ∧ p.value.opensBracket = false := by
  rw [forEachRest] at h
  dsimp only at h
  obtain ⟨afterOpen, -, h₁⟩ := Except.exists_of_bind_eq_ok h
  split at h₁
  · cases h₁
  obtain ⟨element, -, h₂⟩ := Except.exists_of_bind_eq_ok h₁
  obtain ⟨afterIn, -, h₃⟩ := Except.exists_of_bind_eq_ok h₂
  obtain ⟨collection, -, h₄⟩ := Except.exists_of_bind_eq_ok h₃
  obtain ⟨afterClose, -, h₅⟩ := Except.exists_of_bind_eq_ok h₄
  obtain ⟨body, found, h₆⟩ := Except.exists_of_bind_eq_ok h₅
  cases h₆
  obtain ⟨⟨separated, stops⟩, -⟩ := ih.statement _ body found
  exact ⟨⟨separated, stops⟩, rfl⟩

theorem routine_delimited (ih : StmtsDelimited b) {kind : RoutineKind}
    {p : Parsed ts (FunctionDef Stmt)} (h : routine (b + 1) kind ts = .ok p) :
    Stmt.separatedRoutine p.value = true := by
  rw [routine] at h
  dsimp only at h
  obtain ⟨name, -, h₁⟩ := Except.exists_of_bind_eq_ok h
  obtain ⟨afterOpen, -, h₂⟩ := Except.exists_of_bind_eq_ok h₁
  obtain ⟨params, -, h₃⟩ := Except.exists_of_bind_eq_ok h₂
  obtain ⟨afterBrace, -, h₄⟩ := Except.exists_of_bind_eq_ok h₃
  obtain ⟨body, found, h₅⟩ := Except.exists_of_bind_eq_ok h₄
  cases h₅
  exact (ih.blockRest _ body found).1

/-- The methods of a class body, by induction on the tokens left. -/
theorem classBody_delimited (ih : StmtsDelimited b) {ts : List Token}
    {p : Parsed ts (List (FunctionDef Stmt))}
    (h : classBody (b + 1) ts = .ok p) : Stmt.separatedMethods p.value = true := by
  rw [classBody] at h
  dsimp only at h
  split at h
  · obtain ⟨rest, -, h₁⟩ := Except.exists_of_bind_eq_ok h
    cases h₁
    rfl
  split at h
  · obtain ⟨method, found, h₁⟩ := Except.exists_of_bind_eq_ok h
    obtain ⟨others, foundMore, h₂⟩ := Except.exists_of_bind_eq_ok h₁
    cases h₂
    simp [Stmt.separatedMethods, ih.routine _ _ method found, classBody_delimited ih foundMore]
  · cases h
termination_by ts.length
decreasing_by
  have := method.shorter
  omega

theorem classDecl_delimited (ih : StmtsDelimited b) {p : Parsed ts Stmt}
    (h : classDecl (b + 1) ts = .ok p) : ClosesAt p.value p.rest ∧ p.value.opensBracket = false := by
  rw [classDecl] at h
  dsimp only at h
  split at h
  · cases h
  obtain ⟨name, -, h₁⟩ := Except.exists_of_bind_eq_ok h
  obtain ⟨afterBrace, -, h₂⟩ := Except.exists_of_bind_eq_ok h₁
  obtain ⟨methods, found, h₃⟩ := Except.exists_of_bind_eq_ok h₂
  cases h₃
  exact ⟨closesAt_of_endsInExpression (classBody_delimited ih found) rfl, rfl⟩

theorem variableDecl_delimited {p : Parsed ts Stmt} (h : variableDecl b ts = .ok p) :
    ClosesAt p.value p.rest ∧ p.value.opensBracket = false := by
  unfold variableDecl at h
  split at h
  · cases h
  · dsimp only at h
    obtain ⟨name, -, h₁⟩ := Except.exists_of_bind_eq_ok h
    obtain ⟨afterEquals, -, h₂⟩ := Except.exists_of_bind_eq_ok h₁
    obtain ⟨value, found, h₃⟩ := Except.exists_of_bind_eq_ok h₂
    cases h₃
    exact ⟨closesAt_of_stops rfl ((exprsDelimited _).expression _ value found).1, rfl⟩

theorem declaration_delimited (ih : StmtsDelimited b) {p : Parsed ts Stmt}
    (h : declaration (b + 1) ts = .ok p) :
    ClosesAt p.value p.rest ∧ (p.value.opensBracket = true → StartsOpen ts) := by
  rw [declaration] at h
  split at h
  · obtain ⟨q, found, h₁⟩ := Except.exists_of_bind_eq_ok h
    cases h₁
    have shut := variableDecl_delimited found
    exact closesAt_of_shut shut
  split at h
  · obtain ⟨q, found, h₁⟩ := Except.exists_of_bind_eq_ok h
    cases h₁
    exact closesAt_of_shut ⟨closesAt_of_endsInExpression (ih.routine _ _ q found) rfl, rfl⟩
  split at h
  · obtain ⟨q, found, h₁⟩ := Except.exists_of_bind_eq_ok h
    cases h₁
    exact closesAt_of_shut (ih.classDecl _ q found)
  · exact ih.statement _ p h

/-- The statements of a block, by induction on the tokens left. -/
theorem blockRest_delimited (ih : StmtsDelimited b) {ts : List Token} {p : Parsed ts (List Stmt)}
    (h : blockRest (b + 1) ts = .ok p) :
    Stmt.separatedList p.value = true ∧ (Stmt.headOpensBracket p.value = true → StartsOpen ts) := by
  rw [blockRest] at h
  split at h
  · obtain ⟨rest, -, h₁⟩ := Except.exists_of_bind_eq_ok h
    cases h₁
    exact ⟨rfl, fun opens => absurd opens Bool.false_ne_true⟩
  · obtain ⟨first, found, h₁⟩ := Except.exists_of_bind_eq_ok h
    obtain ⟨others, foundMore, h₂⟩ := Except.exists_of_bind_eq_ok h₁
    cases h₂
    obtain ⟨closes, opens⟩ := ih.declaration _ first found
    obtain ⟨separatedMore, opensMore⟩ := blockRest_delimited ih foundMore
    exact ⟨separatedList_cons closes separatedMore opensMore, opens⟩
termination_by ts.length
decreasing_by
  have := first.shorter
  omega

/-- With no budget left, no production reads anything. -/
theorem stmtsDelimited_zero : StmtsDelimited 0 where
  statement _ _ h := by rw [statement] at h; cases h
  declaration _ _ h := by rw [declaration] at h; cases h
  ifRest _ _ h := by rw [ifRest] at h; cases h
  whileRest _ _ h := by rw [whileRest] at h; cases h
  forEachRest _ _ h := by rw [forEachRest] at h; cases h
  blockRest _ _ h := by rw [blockRest] at h; cases h
  routine _ _ _ h := by rw [routine] at h; cases h
  classDecl _ _ h := by rw [classDecl] at h; cases h
  classBody _ _ h := by rw [classBody] at h; cases h

theorem stmtsDelimited_succ (ih : StmtsDelimited b) : StmtsDelimited (b + 1) where
  statement _ _ h := statement_delimited ih h
  declaration _ _ h := declaration_delimited ih h
  ifRest _ _ h := ifRest_delimited ih h
  whileRest _ _ h := whileRest_delimited ih h
  forEachRest _ _ h := forEachRest_delimited ih h
  blockRest _ _ h := blockRest_delimited ih h
  routine _ _ _ h := routine_delimited ih h
  classDecl _ _ h := classDecl_delimited ih h
  classBody _ _ h := classBody_delimited ih h

end Statements

/-- Every statement production, at every budget, is delimited. -/
theorem stmtsDelimited : ∀ b, StmtsDelimited b
  | 0 => stmtsDelimited_zero
  | b + 1 => stmtsDelimited_succ (stmtsDelimited b)

/-- The declarations up to the end of the input, by induction on the tokens left. -/
theorem topLevel_delimited {budget : Nat} {ts : List Token} {body : List Stmt}
    (h : topLevel budget ts = .ok body) :
    Stmt.separatedList body = true ∧ (Stmt.headOpensBracket body = true → StartsOpen ts) := by
  rw [topLevel] at h
  split at h
  · cases h
    exact ⟨rfl, fun opens => absurd opens Bool.false_ne_true⟩
  · obtain ⟨first, found, h₁⟩ := Except.exists_of_bind_eq_ok h
    obtain ⟨others, foundMore, h₂⟩ := Except.exists_of_bind_eq_ok h₁
    cases h₂
    obtain ⟨closes, opens⟩ := (stmtsDelimited budget).declaration _ first found
    obtain ⟨separatedMore, opensMore⟩ := topLevel_delimited foundMore
    exact ⟨separatedList_cons closes separatedMore opensMore, opens⟩
termination_by ts.length
decreasing_by
  have := first.shorter
  omega

end Parser

/-- In every program the parser reads, no statement that ends in an expression is followed by
one whose tokens start with a parenthesis or a bracket. -/
theorem Program.ofSourceAt_separated {active : Nat} {source : String} {program : Program}
    (h : Program.ofSourceAt active source = .ok program) :
    Stmt.separatedList program.body = true := by
  rw [Program.ofSourceAt] at h
  obtain ⟨tokens, -, h₁⟩ := Except.exists_of_bind_eq_ok h
  rw [Program.ofTokensAt, Parser.parse] at h₁
  cases parsed : Parser.topLevel (parseBudget active) tokens with
  | error e =>
    rw [parsed] at h₁
    cases h₁
  | ok body =>
    rw [parsed] at h₁
    cases h₁
    exact (Parser.topLevel_delimited parsed).1

end VieCompiler
