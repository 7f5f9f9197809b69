import VieCompiler.Proofs.Nesting
import VieCompiler.Proofs.TokenShapes

/-!
# What the parser builds

Every tree the parser builds is well formed in the sense that the code generator relies
on. Some of that the types say already: a field access holds a name, and a binary operator is
one of the twelve of `BinaryOp`. The rest is proved here of every program the parser returns.

* Every assignment is to a name, a field or an index (`Expr.isTarget`).
* Every name, number and string in the tree is one that a token of the input holds, or the
  zero that a negation subtracts from (`Leaves`, `Expr.WellFormed`, `Stmt.WellFormed`). With
  the shapes of the lexer's tokens (`VieCompiler.Proofs.TokenShapes`), a name is a lone `!` or
  a word that is no reserved word, a number is what `Binary64.ofText?` reads from a nonempty
  run of ASCII digits, and a string never holds both quotes (`Leaves.lexical`).
* The body of a conditional or a loop is no declaration, and no consequent that ends in a
  conditional without an alternative is followed by an alternative (`Stmt.wellNested`, from
  `VieCompiler.Proofs.Nesting`).

The proof follows the recursion of the parser, as `VieCompiler.Proofs.Nesting` does: an
invariant of every production at budget `b` (`Parser.ExprsWellFormed`,
`Parser.StmtsWellFormed`), one step lemma per production for budget `b + 1`, and the loops of
the grammar by induction on the tokens left (`Parser.Keeps.of_shorter`).
-/

namespace VieCompiler

/-- Which names, numbers and strings the leaves of a tree may be. A negation is read as a
subtraction from a zero that no token spells, so zero is always allowed. -/
structure Leaves where
  /-- The names allowed. -/
  name : String → Prop
  /-- The numbers allowed. -/
  number : Binary64 → Prop
  /-- The strings allowed. -/
  string : String → Prop
  number_zero : number Binary64.zero

namespace Leaves

/-- The leaf that the token `t` holds, if any, is one that `L` allows. -/
def admits (L : Leaves) (t : Token) : Prop :=
  match t.kind with
  | .ident => L.name t.lexeme
  | .number => ∀ value, Binary64.ofText? t.lexeme = some value → L.number value
  | .string => L.string t.lexeme
  | _ => True

/-- Every leaf that a token of `tokens` holds is one that `L` allows. -/
def Admits (L : Leaves) (tokens : List Token) : Prop :=
  ∀ t ∈ tokens, L.admits t

theorem Admits.head {L : Leaves} {t : Token} {rest : List Token} (admits : L.Admits (t :: rest)) :
    L.admits t :=
  admits t List.mem_cons_self

theorem Admits.tail {L : Leaves} {t : Token} {rest : List Token} (admits : L.Admits (t :: rest)) :
    L.Admits rest :=
  fun u mem => admits u (List.mem_cons_of_mem t mem)

/-- The leaves that the lexer's tokens hold: a lone `!` or a word that spells no reserved
word, what `Binary64.ofText?` reads from a nonempty run of ASCII digits, and strings that lack
one of the two quotes. -/
def lexical : Leaves where
  name n := n = "!" ∨ (isWord n.toList ∧ Keyword.ofWord? n = none)
  number v := ∃ digits : List Char, digits ≠ [] ∧ (∀ c ∈ digits, c.isDigit) ∧
    Binary64.ofText? (String.ofList digits) = some v
  string s := '"' ∉ s.toList ∨ '\'' ∉ s.toList
  number_zero := ⟨['0'], List.cons_ne_nil _ _, forall_mem_of_all_decide (by decide),
    (Binary64.ofText?_digits (List.cons_ne_nil _ _) (forall_mem_of_all_decide (by decide))).trans rfl⟩

theorem lexical_admits {t : Token} (shaped : t.Shaped) : lexical.admits t := by
  obtain ⟨kind, lexeme, line⟩ := t
  cases kind
  case ident => exact shaped
  case number =>
    obtain ⟨nonempty, digits⟩ := shaped
    intro value read
    exact ⟨lexeme.toList, nonempty, digits, by rw [String.ofList_toList]; exact read⟩
  case string => exact shaped
  all_goals trivial

end Leaves

mutual

/-- The leaves of the expression are among those `L` allows, and every assignment in it is
to a name, a field or an index. -/
def Expr.WellFormed (L : Leaves) : Expr → Prop
  | .ident name => L.name name
  | .self | .bool _ | .null => True
  | .number value => L.number value
  | .string value => L.string value
  | .array elements => Expr.ListWellFormed L elements
  | .binary left _ right => left.WellFormed L ∧ right.WellFormed L
  | .field object name => object.WellFormed L ∧ L.name name
  | .index object key => object.WellFormed L ∧ key.WellFormed L
  | .assign target value => target.isTarget ∧ target.WellFormed L ∧ value.WellFormed L
  | .call callee args => callee.WellFormed L ∧ Expr.ListWellFormed L args
  | .new className args => L.name className ∧ Expr.ListWellFormed L args

/-- Every expression of the list is well formed. -/
def Expr.ListWellFormed (L : Leaves) : List Expr → Prop
  | [] => True
  | e :: es => e.WellFormed L ∧ Expr.ListWellFormed L es

end

mutual

/-- The names and expressions of the statement are well formed. -/
def Stmt.WellFormed (L : Leaves) : Stmt → Prop
  | .expr value => value.WellFormed L
  | .ret value => value.WellFormed L
  | .letDecl name value => L.name name ∧ value.WellFormed L
  | .function definition => Stmt.RoutineWellFormed L definition
  | .classDecl name methods => L.name name ∧ Stmt.MethodsWellFormed L methods
  | .block body => Stmt.ListWellFormed L body
  | .ifElse test consequent none => test.WellFormed L ∧ consequent.WellFormed L
  | .ifElse test consequent (some alternate) =>
    test.WellFormed L ∧ consequent.WellFormed L ∧ alternate.WellFormed L
  | .whileLoop test body => test.WellFormed L ∧ body.WellFormed L
  | .forEach element collection body =>
    L.name element ∧ collection.WellFormed L ∧ body.WellFormed L

/-- Every statement of the list is well formed. -/
def Stmt.ListWellFormed (L : Leaves) : List Stmt → Prop
  | [] => True
  | s :: ss => s.WellFormed L ∧ Stmt.ListWellFormed L ss

/-- The name, the parameters and the body of the routine are well formed. -/
def Stmt.RoutineWellFormed (L : Leaves) : FunctionDef Stmt → Prop
  | ⟨name, params, body⟩ => L.name name ∧ (∀ p ∈ params, L.name p) ∧ Stmt.ListWellFormed L body

/-- Every method of the list is well formed. -/
def Stmt.MethodsWellFormed (L : Leaves) : List (FunctionDef Stmt) → Prop
  | [] => True
  | m :: ms => Stmt.RoutineWellFormed L m ∧ Stmt.MethodsWellFormed L ms

end

namespace Parser

section Tokens

variable {L : Leaves} {kind : Token.Kind} {problem : Problem} {tokens rest : List Token}

theorem next?_cons {shorter : rest.length < tokens.length}
    (found : next? kind tokens = some ⟨rest, shorter⟩) : ∃ t, tokens = t :: rest ∧ t.kind = kind := by
  cases tokens with
  | nil => cases found
  | cons t more =>
    by_cases fits : t.kind = kind ∧ t.kind ≠ .eof
    · simp only [next?, if_pos fits] at found
      cases found
      exact ⟨t, rfl, fits.1⟩
    · simp [next?, if_neg fits] at found

theorem expect_cons {problem : Problem} {r : {rest : List Token // rest.length < tokens.length}}
    (found : expect kind problem tokens = .ok r) : ∃ t, tokens = t :: r.val ∧ t.kind = kind := by
  unfold expect at found
  cases consumed : next? kind tokens with
  | none =>
    rw [consumed] at found
    cases found
  | some r' =>
    rw [consumed] at found
    cases found
    exact next?_cons consumed

theorem name_cons {problem : Problem} {p : Parsed tokens String}
    (found : name problem tokens = .ok p) :
    ∃ t, tokens = t :: p.rest ∧ t.kind = .ident ∧ t.lexeme = p.value := by
  cases tokens with
  | nil => cases found
  | cons t more =>
    by_cases isName : t.kind = .ident
    · simp only [name, if_pos isName] at found
      cases found
      exact ⟨t, rfl, isName, rfl⟩
    · simp only [name, if_neg isName] at found
      cases found

theorem operator?_cons {level : Nat} {op : BinaryOp} {shorter : rest.length < tokens.length}
    (found : operator? level tokens = some (op, ⟨rest, shorter⟩)) : ∃ t, tokens = t :: rest := by
  cases tokens with
  | nil => cases found
  | cons t more =>
    by_cases isEnd : t.kind = .eof
    · simp [operator?, isEnd] at found
    · simp only [operator?, if_neg isEnd] at found
      obtain ⟨entry, -, same⟩ := Option.map_eq_some_iff.mp found
      cases same
      exact ⟨t, rfl⟩

theorem next?_admits {shorter : rest.length < tokens.length}
    (found : next? kind tokens = some ⟨rest, shorter⟩) (admits : L.Admits tokens) :
    L.Admits rest := by
  obtain ⟨t, rfl, -⟩ := next?_cons found
  exact admits.tail

theorem expect_admits {r : {rest : List Token // rest.length < tokens.length}}
    (found : expect kind problem tokens = .ok r) (admits : L.Admits tokens) : L.Admits r.val := by
  obtain ⟨t, split, -⟩ := expect_cons found
  rw [split] at admits
  exact admits.tail

theorem name_admits {p : Parsed tokens String} (found : name problem tokens = .ok p)
    (admits : L.Admits tokens) : L.Admits p.rest ∧ L.name p.value := by
  obtain ⟨t, split, isName, text⟩ := name_cons found
  rw [split] at admits
  have leaf := admits.head
  simp only [Leaves.admits, isName] at leaf
  exact ⟨admits.tail, text ▸ leaf⟩

theorem operator?_admits {level : Nat} {op : BinaryOp} {shorter : rest.length < tokens.length}
    (found : operator? level tokens = some (op, ⟨rest, shorter⟩)) (admits : L.Admits tokens) :
    L.Admits rest := by
  obtain ⟨t, rfl⟩ := operator?_cons found
  exact admits.tail

end Tokens

section Loops

variable {α : Type} (L : Leaves)

/-- What the production `f` reads from `tokens` whose leaves `L` allows is `good`, and the
leaves of the tokens after it are allowed too. -/
def KeepsAt (good : α → Prop)
    (f : (tokens : List Token) → Except ParseFailure (Parsed tokens α)) (tokens : List Token) :
    Prop :=
  ∀ p : Parsed tokens α, L.Admits tokens → f tokens = .ok p → L.Admits p.rest ∧ good p.value

/-- What the production `f` reads is `good`, wherever in the input it starts. -/
def Keeps (good : α → Prop)
    (f : (tokens : List Token) → Except ParseFailure (Parsed tokens α)) : Prop :=
  ∀ tokens, KeepsAt L good f tokens

/-- What the loop `f` builds from a `good` start and `tokens` whose leaves `L` allows is
`good`, and the leaves of the tokens after it are allowed too. -/
def KeepsFromAt (good : α → Prop)
    (f : α → (tokens : List Token) → Except ParseFailure (Continued tokens α))
    (tokens : List Token) : Prop :=
  ∀ start (p : Continued tokens α), L.Admits tokens → good start → f start tokens = .ok p →
    L.Admits p.rest ∧ good p.value

/-- What the loop `f` builds from a `good` start is `good`. -/
def KeepsFrom (good : α → Prop)
    (f : α → (tokens : List Token) → Except ParseFailure (Continued tokens α)) : Prop :=
  ∀ tokens, KeepsFromAt L good f tokens

variable {L} {good : α → Prop}

/-- A loop of the grammar keeps an invariant when each of its turns does, given that the
rest of the loop, on fewer tokens, does. -/
theorem Keeps.of_shorter {f : (tokens : List Token) → Except ParseFailure (Parsed tokens α)}
    (step : ∀ tokens, (∀ shorter : List Token, shorter.length < tokens.length →
      KeepsAt L good f shorter) → KeepsAt L good f tokens) : Keeps L good f := by
  intro tokens
  induction count : tokens.length using Nat.strongRecOn generalizing tokens with
  | ind n ih => exact step tokens fun shorter fewer => ih _ (count ▸ fewer) shorter rfl

theorem KeepsFrom.of_shorter
    {f : α → (tokens : List Token) → Except ParseFailure (Continued tokens α)}
    (step : ∀ tokens, (∀ shorter : List Token, shorter.length < tokens.length →
      KeepsFromAt L good f shorter) → KeepsFromAt L good f tokens) : KeepsFrom L good f := by
  intro tokens
  induction count : tokens.length using Nat.strongRecOn generalizing tokens with
  | ind n ih => exact step tokens fun shorter fewer => ih _ (count ▸ fewer) shorter rfl

end Loops

/-- The invariant of the expression productions with budget `b`. -/
structure ExprsWellFormed (L : Leaves) (b : Nat) : Prop where
  expression : Keeps L (Expr.WellFormed L) (expression b)
  assignment : Keeps L (Expr.WellFormed L) (assignment b)
  binary : ∀ level, Keeps L (Expr.WellFormed L) (binary b level)
  binaryTail : ∀ level, KeepsFrom L (Expr.WellFormed L) (binaryTail b level)
  unary : Keeps L (Expr.WellFormed L) (unary b)
  suffixed : Keeps L (Expr.WellFormed L) (suffixed b)
  suffixes : KeepsFrom L (Expr.WellFormed L) (suffixes b)
  arguments : Keeps L (Expr.ListWellFormed L) (arguments b)
  listTail : ∀ close problem, Keeps L (Expr.ListWellFormed L) (listTail b close problem)
  primary : Keeps L (Expr.WellFormed L) (primary b)

section Expressions

variable {L : Leaves} {b : Nat}

theorem expression_keeps (ih : ExprsWellFormed L b) :
    Keeps L (Expr.WellFormed L) (expression (b + 1)) := by
  intro tokens p admits h
  rw [expression] at h
  exact ih.assignment tokens p admits h

theorem assignment_keeps (ih : ExprsWellFormed L b) :
    Keeps L (Expr.WellFormed L) (assignment (b + 1)) := by
  intro tokens p admits h
  rw [assignment] at h
  obtain ⟨left, leftFound, h₁⟩ := Except.exists_of_bind_eq_ok h
  obtain ⟨afterLeft, leftGood⟩ := ih.binary 0 tokens left admits leftFound
  cases equalFound : next? .equal left.rest with
  | some next =>
    obtain ⟨afterEquals, shorter⟩ := next
    simp only [equalFound] at h₁
    obtain ⟨value, valueFound, h₂⟩ := Except.exists_of_bind_eq_ok h₁
    obtain ⟨afterValue, valueGood⟩ :=
      ih.assignment _ value (next?_admits equalFound afterLeft) valueFound
    -- the target is checked only once the value has been read
    by_cases isTarget : left.value.isTarget = true
    · rw [if_pos isTarget] at h₂
      cases h₂
      exact ⟨afterValue, isTarget, leftGood, valueGood⟩
    · rw [if_neg isTarget] at h₂
      cases h₂
  | none =>
    simp only [equalFound] at h₁
    cases h₁
    exact ⟨afterLeft, leftGood⟩

theorem binaryTail_keeps (ih : ExprsWellFormed L b) (level : Nat) :
    KeepsFrom L (Expr.WellFormed L) (binaryTail (b + 1) level) := by
  refine KeepsFrom.of_shorter fun tokens loop start p admits good h => ?_
  rw [binaryTail] at h
  cases opFound : operator? level tokens with
  | some next =>
    obtain ⟨op, tail, shorter⟩ := next
    simp only [opFound] at h
    have afterOp := operator?_admits opFound admits
    have continues : ∀ right : Parsed tail Expr, L.Admits right.rest → right.value.WellFormed L →
        ∀ whole : Continued right.rest Expr,
          binaryTail (b + 1) level (.binary start op right.value) right.rest = .ok whole →
          L.Admits whole.rest ∧ whole.value.WellFormed L := by
      intro right afterRight rightGood whole wholeFound
      have fewer : right.rest.length < tokens.length := by
        have := right.shorter
        omega
      exact loop right.rest fewer (.binary start op right.value) whole afterRight ⟨good, rightGood⟩
        wholeFound
    -- the operand is of the next level, or unary at the tightest
    by_cases tighter : level < tightestLevel
    · simp only [tighter, ↓reduceIte] at h
      obtain ⟨right, rightFound, h₁⟩ := Except.exists_of_bind_eq_ok h
      obtain ⟨whole, wholeFound, h₂⟩ := Except.exists_of_bind_eq_ok h₁
      cases h₂
      obtain ⟨afterRight, rightGood⟩ := ih.binary (level + 1) tail right afterOp rightFound
      exact continues right afterRight rightGood whole wholeFound
    · simp only [tighter, ↓reduceIte] at h
      obtain ⟨right, rightFound, h₁⟩ := Except.exists_of_bind_eq_ok h
      obtain ⟨whole, wholeFound, h₂⟩ := Except.exists_of_bind_eq_ok h₁
      cases h₂
      obtain ⟨afterRight, rightGood⟩ := ih.unary tail right afterOp rightFound
      exact continues right afterRight rightGood whole wholeFound
  | none =>
    simp only [opFound] at h
    cases h
    exact ⟨admits, good⟩

theorem binary_keeps (ih : ExprsWellFormed L b) (level : Nat) :
    Keeps L (Expr.WellFormed L) (binary (b + 1) level) := by
  intro tokens p admits h
  rw [binary] at h
  -- the first operand is of the next level, or unary at the tightest
  by_cases tighter : level < tightestLevel
  · simp only [tighter, ↓reduceIte] at h
    obtain ⟨first, firstFound, h₁⟩ := Except.exists_of_bind_eq_ok h
    obtain ⟨whole, wholeFound, h₂⟩ := Except.exists_of_bind_eq_ok h₁
    cases h₂
    obtain ⟨afterFirst, firstGood⟩ := ih.binary (level + 1) tokens first admits firstFound
    exact binaryTail_keeps ih level first.rest first.value whole afterFirst firstGood wholeFound
  · simp only [tighter, ↓reduceIte] at h
    obtain ⟨first, firstFound, h₁⟩ := Except.exists_of_bind_eq_ok h
    obtain ⟨whole, wholeFound, h₂⟩ := Except.exists_of_bind_eq_ok h₁
    cases h₂
    obtain ⟨afterFirst, firstGood⟩ := ih.unary tokens first admits firstFound
    exact binaryTail_keeps ih level first.rest first.value whole afterFirst firstGood wholeFound

theorem unary_keeps (ih : ExprsWellFormed L b) : Keeps L (Expr.WellFormed L) (unary (b + 1)) := by
  intro tokens p admits h
  rw [unary] at h
  cases minusFound : next? .minus tokens with
  | some next =>
    obtain ⟨tail, shorter⟩ := next
    simp only [minusFound] at h
    obtain ⟨operand, operandFound, h₁⟩ := Except.exists_of_bind_eq_ok h
    cases h₁
    obtain ⟨afterOperand, operandGood⟩ :=
      ih.unary tail operand (next?_admits minusFound admits) operandFound
    -- a negation subtracts from a zero that no token spells
    exact ⟨afterOperand, L.number_zero, operandGood⟩
  | none =>
    simp only [minusFound] at h
    exact ih.suffixed tokens p admits h

/-- The arguments of a call or the elements of an array: a first expression and the rest of
the list. -/
theorem listTail_keeps (ih : ExprsWellFormed L b) (close : Token.Kind) (problem : Problem) :
    Keeps L (Expr.ListWellFormed L) (listTail (b + 1) close problem) := by
  refine Keeps.of_shorter fun tokens loop p admits h => ?_
  rw [listTail] at h
  cases commaFound : next? .comma tokens with
  | some next =>
    obtain ⟨tail, shorter⟩ := next
    simp only [commaFound] at h
    obtain ⟨item, itemFound, h₁⟩ := Except.exists_of_bind_eq_ok h
    obtain ⟨more, moreFound, h₂⟩ := Except.exists_of_bind_eq_ok h₁
    cases h₂
    obtain ⟨afterItem, itemGood⟩ :=
      ih.expression tail item (next?_admits commaFound admits) itemFound
    have fewer : item.rest.length < tokens.length := by
      have := item.shorter
      omega
    obtain ⟨afterMore, moreGood⟩ := loop item.rest fewer more afterItem moreFound
    exact ⟨afterMore, itemGood, moreGood⟩
  | none =>
    simp only [commaFound] at h
    obtain ⟨close, closeFound, h₁⟩ := Except.exists_of_bind_eq_ok h
    cases h₁
    exact ⟨expect_admits closeFound admits, trivial⟩

theorem elements_keeps (ih : ExprsWellFormed L b) {close : Token.Kind} {problem : Problem}
    {tokens : List Token} {first : Parsed tokens Expr} {more : Parsed first.rest (List Expr)}
    (firstFound : expression b tokens = .ok first)
    (moreFound : listTail (b + 1) close problem first.rest = .ok more)
    (admits : L.Admits tokens) :
    L.Admits more.rest ∧ Expr.ListWellFormed L (first.value :: more.value) := by
  obtain ⟨afterFirst, firstGood⟩ := ih.expression tokens first admits firstFound
  obtain ⟨afterMore, moreGood⟩ :=
    listTail_keeps ih close problem first.rest more afterFirst moreFound
  exact ⟨afterMore, firstGood, moreGood⟩

theorem arguments_keeps (ih : ExprsWellFormed L b) :
    Keeps L (Expr.ListWellFormed L) (arguments (b + 1)) := by
  intro tokens p admits h
  rw [arguments] at h
  cases closeFound : next? .rparen tokens with
  | some next =>
    obtain ⟨rest, shorter⟩ := next
    simp only [closeFound] at h
    cases h
    exact ⟨next?_admits closeFound admits, trivial⟩
  | none =>
    simp only [closeFound] at h
    obtain ⟨first, firstFound, h₁⟩ := Except.exists_of_bind_eq_ok h
    obtain ⟨more, moreFound, h₂⟩ := Except.exists_of_bind_eq_ok h₁
    cases h₂
    exact elements_keeps ih firstFound moreFound admits

/-- Calls, index accesses and field accesses after an expression, by induction on the tokens
left. -/
theorem suffixes_keeps (ih : ExprsWellFormed L b) :
    KeepsFrom L (Expr.WellFormed L) (suffixes (b + 1)) := by
  refine KeepsFrom.of_shorter fun tokens loop start p admits good h => ?_
  rw [suffixes] at h
  cases callFound : next? .lparen tokens
  case some next =>
    obtain ⟨tail, shorter⟩ := next
    simp only [callFound] at h
    obtain ⟨args, argsFound, h₁⟩ := Except.exists_of_bind_eq_ok h
    obtain ⟨whole, wholeFound, h₂⟩ := Except.exists_of_bind_eq_ok h₁
    cases h₂
    obtain ⟨afterArgs, argsGood⟩ :=
      ih.arguments tail args (next?_admits callFound admits) argsFound
    have fewer : args.rest.length < tokens.length := by
      have := args.shorter
      omega
    exact loop args.rest fewer (.call start args.value) whole afterArgs ⟨good, argsGood⟩ wholeFound
  simp only [callFound] at h
  cases indexFound : next? .lbracket tokens
  case some next =>
    obtain ⟨tail, shorter⟩ := next
    simp only [indexFound] at h
    obtain ⟨key, keyFound, h₁⟩ := Except.exists_of_bind_eq_ok h
    obtain ⟨afterClose, closeFound, h₂⟩ := Except.exists_of_bind_eq_ok h₁
    obtain ⟨whole, wholeFound, h₃⟩ := Except.exists_of_bind_eq_ok h₂
    cases h₃
    obtain ⟨afterKey, keyGood⟩ := ih.expression tail key (next?_admits indexFound admits) keyFound
    have fewer : afterClose.val.length < tokens.length := by
      have := key.shorter
      have := afterClose.property
      omega
    exact loop afterClose.val fewer (.index start key.value) whole
      (expect_admits closeFound afterKey) ⟨good, keyGood⟩ wholeFound
  simp only [indexFound] at h
  cases dotFound : next? .dot tokens
  case some next =>
    obtain ⟨tail, shorter⟩ := next
    simp only [dotFound] at h
    -- a field name is read only with a unit of budget to spare
    by_cases zero : b = 0
    · simp only [zero, ↓reduceIte] at h
      cases h
    simp only [zero, ↓reduceIte] at h
    obtain ⟨field, fieldFound, h₁⟩ := Except.exists_of_bind_eq_ok h
    obtain ⟨whole, wholeFound, h₂⟩ := Except.exists_of_bind_eq_ok h₁
    cases h₂
    obtain ⟨afterField, fieldGood⟩ := name_admits fieldFound (next?_admits dotFound admits)
    have fewer : field.rest.length < tokens.length := by
      have := field.shorter
      omega
    exact loop field.rest fewer (.field start field.value) whole afterField ⟨good, fieldGood⟩
      wholeFound
  simp only [dotFound] at h
  cases h
  exact ⟨admits, good⟩

theorem suffixed_keeps (ih : ExprsWellFormed L b) :
    Keeps L (Expr.WellFormed L) (suffixed (b + 1)) := by
  intro tokens p admits h
  rw [suffixed] at h
  obtain ⟨head, headFound, h₁⟩ := Except.exists_of_bind_eq_ok h
  obtain ⟨whole, wholeFound, h₂⟩ := Except.exists_of_bind_eq_ok h₁
  cases h₂
  obtain ⟨afterHead, headGood⟩ := ih.primary tokens head admits headFound
  exact suffixes_keeps ih head.rest head.value whole afterHead headGood wholeFound

/-- A primary expression: a literal or a name is the leaf its token holds. -/
theorem primary_keeps (ih : ExprsWellFormed L b) :
    Keeps L (Expr.WellFormed L) (primary (b + 1)) := by
  intro tokens p admits h
  obtain _ | ⟨t, rest⟩ := tokens
  · rw [primary] at h
    cases h
  rw [primary] at h
  have leaf := admits.head
  have afterToken := admits.tail
  dsimp only at h
  unfold Leaves.admits at leaf
  generalize t.kind = kind at h leaf
  cases kind
  case number =>
    cases read : Binary64.ofText? t.lexeme with
    | none =>
      rw [read] at h
      cases h
    | some value =>
      rw [read] at h
      cases h
      exact ⟨afterToken, leaf value read⟩
  case string =>
    cases h
    exact ⟨afterToken, leaf⟩
  case ident =>
    cases h
    exact ⟨afterToken, leaf⟩
  case lbracket =>
    dsimp only at h
    cases closeFound : next? .rbracket rest with
    | some closed =>
      obtain ⟨afterClose, shorter⟩ := closed
      rw [closeFound] at h
      cases h
      exact ⟨next?_admits closeFound afterToken, trivial⟩
    | none =>
      rw [closeFound] at h
      obtain ⟨first, firstFound, h₁⟩ := Except.exists_of_bind_eq_ok h
      obtain ⟨more, moreFound, h₂⟩ := Except.exists_of_bind_eq_ok h₁
      cases h₂
      exact elements_keeps ih firstFound moreFound afterToken
  case lparen =>
    dsimp only at h
    obtain ⟨inner, innerFound, h₁⟩ := Except.exists_of_bind_eq_ok h
    obtain ⟨afterClose, closeFound, h₂⟩ := Except.exists_of_bind_eq_ok h₁
    cases h₂
    obtain ⟨afterInner, innerGood⟩ := ih.expression rest inner afterToken innerFound
    exact ⟨expect_admits closeFound afterInner, innerGood⟩
  case keyword word =>
    cases word
    case moi =>
      dsimp only at h
      by_cases zero : b = 0
      · simp only [zero, ↓reduceIte] at h
        cases h
      simp only [zero, ↓reduceIte] at h
      obtain ⟨className, classFound, h₁⟩ := Except.exists_of_bind_eq_ok h
      obtain ⟨afterOpen, openFound, h₂⟩ := Except.exists_of_bind_eq_ok h₁
      obtain ⟨args, argsFound, h₃⟩ := Except.exists_of_bind_eq_ok h₂
      cases h₃
      obtain ⟨afterName, nameGood⟩ := name_admits classFound afterToken
      obtain ⟨afterArgs, argsGood⟩ :=
        ih.arguments _ args (expect_admits openFound afterName) argsFound
      exact ⟨afterArgs, nameGood, argsGood⟩
    -- `sai`, `đúng`, `rỗng` and `this` are leaves with nothing to check; other keywords fail
    all_goals first
      | (cases h; exact ⟨afterToken, trivial⟩)
      | cases h
  all_goals cases h

/-- With no budget left, no expression production reads anything. -/
theorem exprsWellFormed_zero : ExprsWellFormed L 0 where
  expression _ _ _ h := by rw [expression] at h; cases h
  assignment _ _ _ h := by rw [assignment] at h; cases h
  binary _ _ _ _ h := by rw [binary] at h; cases h
  binaryTail _ _ _ _ _ _ h := by rw [binaryTail] at h; cases h
  unary _ _ _ h := by rw [unary] at h; cases h
  suffixed _ _ _ h := by rw [suffixed] at h; cases h
  suffixes _ _ _ _ _ h := by rw [suffixes] at h; cases h
  arguments _ _ _ h := by rw [arguments] at h; cases h
  listTail _ _ _ _ _ h := by rw [listTail] at h; cases h
  primary _ _ _ h := by rw [primary.eq_def] at h; cases h

theorem exprsWellFormed_succ (ih : ExprsWellFormed L b) : ExprsWellFormed L (b + 1) where
  expression := expression_keeps ih
  assignment := assignment_keeps ih
  binary := binary_keeps ih
  binaryTail := binaryTail_keeps ih
  unary := unary_keeps ih
  suffixed := suffixed_keeps ih
  suffixes := suffixes_keeps ih
  arguments := arguments_keeps ih
  listTail := listTail_keeps ih
  primary := primary_keeps ih

end Expressions

/-- Every expression production keeps the leaves among those of its tokens, whatever its
budget. -/
theorem exprsWellFormed (L : Leaves) : ∀ b, ExprsWellFormed L b
  | 0 => exprsWellFormed_zero
  | b + 1 => exprsWellFormed_succ (exprsWellFormed L b)

section Declarations

variable {L : Leaves}

theorem moreParameters_keeps : Keeps L (fun names => ∀ n ∈ names, L.name n) moreParameters := by
  refine Keeps.of_shorter fun tokens loop p admits h => ?_
  rw [moreParameters] at h
  cases commaFound : next? .comma tokens with
  | some next =>
    obtain ⟨tail, shorter⟩ := next
    simp only [commaFound] at h
    obtain ⟨first, firstFound, h₁⟩ := Except.exists_of_bind_eq_ok h
    obtain ⟨more, moreFound, h₂⟩ := Except.exists_of_bind_eq_ok h₁
    cases h₂
    obtain ⟨afterFirst, firstGood⟩ := name_admits firstFound (next?_admits commaFound admits)
    have fewer : first.rest.length < tokens.length := by
      have := first.shorter
      omega
    obtain ⟨afterMore, moreGood⟩ := loop first.rest fewer more afterFirst moreFound
    exact ⟨afterMore, List.forall_mem_cons.mpr ⟨firstGood, moreGood⟩⟩
  | none =>
    simp only [commaFound] at h
    obtain ⟨close, closeFound, h₁⟩ := Except.exists_of_bind_eq_ok h
    cases h₁
    exact ⟨expect_admits closeFound admits, List.forall_mem_nil _⟩

theorem parameters_keeps (budget : Nat) :
    Keeps L (fun names => ∀ n ∈ names, L.name n) (parameters budget) := by
  intro tokens p admits h
  unfold parameters at h
  cases closeFound : next? .rparen tokens with
  | some closed =>
    obtain ⟨rest, shorter⟩ := closed
    rw [closeFound] at h
    cases h
    exact ⟨next?_admits closeFound admits, List.forall_mem_nil _⟩
  | none =>
    rw [closeFound] at h
    by_cases zero : budget = 0
    · simp only [zero, ↓reduceIte] at h
      cases h
    simp only [zero, ↓reduceIte] at h
    obtain ⟨first, firstFound, h₁⟩ := Except.exists_of_bind_eq_ok h
    obtain ⟨more, moreFound, h₂⟩ := Except.exists_of_bind_eq_ok h₁
    cases h₂
    obtain ⟨afterFirst, firstGood⟩ := name_admits firstFound admits
    obtain ⟨afterMore, moreGood⟩ := moreParameters_keeps first.rest more afterFirst moreFound
    exact ⟨afterMore, List.forall_mem_cons.mpr ⟨firstGood, moreGood⟩⟩

theorem variableDecl_keeps (b : Nat) : Keeps L (Stmt.WellFormed L) (variableDecl b) := by
  intro tokens p admits h
  cases b with
  | zero =>
    rw [variableDecl] at h
    cases h
  | succ b =>
    rw [variableDecl] at h
    obtain ⟨n, nameFound, h₁⟩ := Except.exists_of_bind_eq_ok h
    obtain ⟨afterEquals, equalsFound, h₂⟩ := Except.exists_of_bind_eq_ok h₁
    obtain ⟨value, valueFound, h₃⟩ := Except.exists_of_bind_eq_ok h₂
    cases h₃
    obtain ⟨afterName, nameGood⟩ := name_admits nameFound admits
    obtain ⟨afterValue, valueGood⟩ := (exprsWellFormed L _).expression _ value
      (expect_admits equalsFound afterName) valueFound
    exact ⟨afterValue, nameGood, valueGood⟩

end Declarations

/-- The invariant of the statement productions with budget `b`. -/
structure StmtsWellFormed (L : Leaves) (b : Nat) : Prop where
  declaration : Keeps L (Stmt.WellFormed L) (declaration b)
  routine : ∀ kind, Keeps L (Stmt.RoutineWellFormed L) (routine b kind)
  classDecl : Keeps L (Stmt.WellFormed L) (classDecl b)
  classBody : Keeps L (Stmt.MethodsWellFormed L) (classBody b)
  statement : Keeps L (Stmt.WellFormed L) (statement b)
  blockRest : Keeps L (Stmt.ListWellFormed L) (blockRest b)
  ifRest : Keeps L (Stmt.WellFormed L) (ifRest b)
  whileRest : Keeps L (Stmt.WellFormed L) (whileRest b)
  forEachRest : Keeps L (Stmt.WellFormed L) (forEachRest b)

section Statements

variable {L : Leaves} {b : Nat}

theorem statement_keeps (ih : StmtsWellFormed L b) :
    Keeps L (Stmt.WellFormed L) (statement (b + 1)) := by
  intro tokens p admits h
  rw [statement] at h
  -- the first of `nếu`, `khi`, `với_mỗi`, `{` and `trả_về` that the tokens start with
  cases isIf : next? (.keyword .neu) tokens
  case some next =>
    obtain ⟨tail, shorter⟩ := next
    simp only [isIf] at h
    obtain ⟨q, qFound, h₁⟩ := Except.exists_of_bind_eq_ok h
    cases h₁
    exact ih.ifRest tail q (next?_admits isIf admits) qFound
  simp only [isIf] at h
  cases isWhile : next? (.keyword .khi) tokens
  case some next =>
    obtain ⟨tail, shorter⟩ := next
    simp only [isWhile] at h
    obtain ⟨q, qFound, h₁⟩ := Except.exists_of_bind_eq_ok h
    cases h₁
    exact ih.whileRest tail q (next?_admits isWhile admits) qFound
  simp only [isWhile] at h
  cases isForEach : next? (.keyword .voiMoi) tokens
  case some next =>
    obtain ⟨tail, shorter⟩ := next
    simp only [isForEach] at h
    obtain ⟨q, qFound, h₁⟩ := Except.exists_of_bind_eq_ok h
    cases h₁
    exact ih.forEachRest tail q (next?_admits isForEach admits) qFound
  simp only [isForEach] at h
  cases isBlock : next? .lbrace tokens
  case some next =>
    obtain ⟨tail, shorter⟩ := next
    simp only [isBlock] at h
    obtain ⟨q, qFound, h₁⟩ := Except.exists_of_bind_eq_ok h
    cases h₁
    exact ih.blockRest tail q (next?_admits isBlock admits) qFound
  simp only [isBlock] at h
  cases isReturn : next? (.keyword .traVe) tokens
  case some next =>
    -- a return, with or without its value
    obtain ⟨tail, shorter⟩ := next
    simp only [isReturn] at h
    have afterReturn := next?_admits isReturn admits
    cases closes : atCloseOrEnd .rbrace tail
    case true =>
      simp only [closes, ↓reduceIte] at h
      cases h
      exact ⟨afterReturn, trivial⟩
    simp only [closes, Bool.false_eq_true, ↓reduceIte] at h
    cases b with
    | zero => cases h
    | succ b =>
      obtain ⟨q, qFound, h₁⟩ := Except.exists_of_bind_eq_ok h
      cases h₁
      exact (exprsWellFormed L _).expression tail q afterReturn qFound
  simp only [isReturn] at h
  obtain ⟨q, qFound, h₁⟩ := Except.exists_of_bind_eq_ok h
  cases h₁
  exact (exprsWellFormed L b).expression tokens q admits qFound

theorem ifRest_keeps (ih : StmtsWellFormed L b) : Keeps L (Stmt.WellFormed L) (ifRest (b + 1)) := by
  intro tokens p admits h
  rw [ifRest] at h
  dsimp only at h
  obtain ⟨afterOpen, openFound, h₁⟩ := Except.exists_of_bind_eq_ok h
  obtain ⟨test, testFound, h₂⟩ := Except.exists_of_bind_eq_ok h₁
  obtain ⟨afterClose, closeFound, h₃⟩ := Except.exists_of_bind_eq_ok h₂
  obtain ⟨consequent, consequentFound, h₄⟩ := Except.exists_of_bind_eq_ok h₃
  obtain ⟨afterTest, testGood⟩ := (exprsWellFormed L b).expression _ test
    (expect_admits openFound admits) testFound
  obtain ⟨afterConsequent, consequentGood⟩ := ih.statement _ consequent
    (expect_admits closeFound afterTest) consequentFound
  -- an alternative after `ngược_lại`, `ngược_lại nếu` or `còn_nếu`, or none
  cases elseFound : next? (.keyword .nguocLai) consequent.rest with
  | some next =>
    obtain ⟨afterElse, shorter⟩ := next
    simp only [elseFound] at h₄
    have afterKeyword := next?_admits elseFound afterConsequent
    cases ifFound : next? (.keyword .neu) afterElse with
    | some next =>
      obtain ⟨afterIf, shorter'⟩ := next
      simp only [ifFound] at h₄
      obtain ⟨alternate, alternateFound, h₅⟩ := Except.exists_of_bind_eq_ok h₄
      cases h₅
      obtain ⟨afterAlternate, alternateGood⟩ := ih.ifRest _ alternate
        (next?_admits ifFound afterKeyword) alternateFound
      exact ⟨afterAlternate, testGood, consequentGood, alternateGood⟩
    | none =>
      simp only [ifFound] at h₄
      obtain ⟨alternate, alternateFound, h₅⟩ := Except.exists_of_bind_eq_ok h₄
      cases h₅
      obtain ⟨afterAlternate, alternateGood⟩ := ih.statement _ alternate afterKeyword
        alternateFound
      exact ⟨afterAlternate, testGood, consequentGood, alternateGood⟩
  | none =>
    simp only [elseFound] at h₄
    cases ifFound : next? (.keyword .conNeu) consequent.rest with
    | some next =>
      obtain ⟨afterIf, shorter⟩ := next
      simp only [ifFound] at h₄
      obtain ⟨alternate, alternateFound, h₅⟩ := Except.exists_of_bind_eq_ok h₄
      cases h₅
      obtain ⟨afterAlternate, alternateGood⟩ := ih.ifRest _ alternate
        (next?_admits ifFound afterConsequent) alternateFound
      exact ⟨afterAlternate, testGood, consequentGood, alternateGood⟩
    | none =>
      simp only [ifFound] at h₄
      cases h₄
      exact ⟨afterConsequent, testGood, consequentGood⟩

theorem whileRest_keeps (ih : StmtsWellFormed L b) :
    Keeps L (Stmt.WellFormed L) (whileRest (b + 1)) := by
  intro tokens p admits h
  rw [whileRest] at h
  dsimp only at h
  obtain ⟨afterOpen, openFound, h₁⟩ := Except.exists_of_bind_eq_ok h
  obtain ⟨test, testFound, h₂⟩ := Except.exists_of_bind_eq_ok h₁
  obtain ⟨afterClose, closeFound, h₃⟩ := Except.exists_of_bind_eq_ok h₂
  obtain ⟨body, bodyFound, h₄⟩ := Except.exists_of_bind_eq_ok h₃
  cases h₄
  obtain ⟨afterTest, testGood⟩ := (exprsWellFormed L b).expression _ test
    (expect_admits openFound admits) testFound
  obtain ⟨afterBody, bodyGood⟩ := ih.statement _ body (expect_admits closeFound afterTest)
    bodyFound
  exact ⟨afterBody, testGood, bodyGood⟩

theorem forEachRest_keeps (ih : StmtsWellFormed L b) :
    Keeps L (Stmt.WellFormed L) (forEachRest (b + 1)) := by
  intro tokens p admits h
  rw [forEachRest] at h
  dsimp only at h
  obtain ⟨afterOpen, openFound, h₁⟩ := Except.exists_of_bind_eq_ok h
  -- the loop's name is read only with a unit of budget to spare
  by_cases zero : b = 0
  · simp only [zero, ↓reduceIte] at h₁
    cases h₁
  simp only [zero, ↓reduceIte] at h₁
  obtain ⟨element, elementFound, h₂⟩ := Except.exists_of_bind_eq_ok h₁
  obtain ⟨afterIn, inFound, h₃⟩ := Except.exists_of_bind_eq_ok h₂
  obtain ⟨collection, collectionFound, h₄⟩ := Except.exists_of_bind_eq_ok h₃
  obtain ⟨afterClose, closeFound, h₅⟩ := Except.exists_of_bind_eq_ok h₄
  obtain ⟨body, bodyFound, h₆⟩ := Except.exists_of_bind_eq_ok h₅
  cases h₆
  obtain ⟨afterElement, elementGood⟩ := name_admits elementFound (expect_admits openFound admits)
  obtain ⟨afterCollection, collectionGood⟩ := (exprsWellFormed L b).expression _ collection
    (expect_admits inFound afterElement) collectionFound
  obtain ⟨afterBody, bodyGood⟩ := ih.statement _ body (expect_admits closeFound afterCollection)
    bodyFound
  exact ⟨afterBody, elementGood, collectionGood, bodyGood⟩

/-- The statements of a block, by induction on the tokens left. -/
theorem blockRest_keeps (ih : StmtsWellFormed L b) :
    Keeps L (Stmt.ListWellFormed L) (blockRest (b + 1)) := by
  refine Keeps.of_shorter fun tokens loop p admits h => ?_
  rw [blockRest] at h
  cases closes : atCloseOrEnd .rbrace tokens with
  | true =>
    simp only [closes, ↓reduceIte] at h
    obtain ⟨close, closeFound, h₁⟩ := Except.exists_of_bind_eq_ok h
    cases h₁
    exact ⟨expect_admits closeFound admits, trivial⟩
  | false =>
    simp only [closes, Bool.false_eq_true, ↓reduceIte] at h
    obtain ⟨first, firstFound, h₁⟩ := Except.exists_of_bind_eq_ok h
    obtain ⟨more, moreFound, h₂⟩ := Except.exists_of_bind_eq_ok h₁
    cases h₂
    obtain ⟨afterFirst, firstGood⟩ := ih.declaration tokens first admits firstFound
    have fewer : first.rest.length < tokens.length := by
      have := first.shorter
      omega
    obtain ⟨afterMore, moreGood⟩ := loop first.rest fewer more afterFirst moreFound
    exact ⟨afterMore, firstGood, moreGood⟩

theorem routine_keeps (ih : StmtsWellFormed L b) (kind : RoutineKind) :
    Keeps L (Stmt.RoutineWellFormed L) (routine (b + 1) kind) := by
  intro tokens p admits h
  rw [routine] at h
  dsimp only at h
  obtain ⟨n, nameFound, h₁⟩ := Except.exists_of_bind_eq_ok h
  obtain ⟨afterOpen, openFound, h₂⟩ := Except.exists_of_bind_eq_ok h₁
  obtain ⟨params, paramsFound, h₃⟩ := Except.exists_of_bind_eq_ok h₂
  obtain ⟨afterBrace, braceFound, h₄⟩ := Except.exists_of_bind_eq_ok h₃
  obtain ⟨body, bodyFound, h₅⟩ := Except.exists_of_bind_eq_ok h₄
  cases h₅
  obtain ⟨afterName, nameGood⟩ := name_admits nameFound admits
  obtain ⟨afterParams, paramsGood⟩ := parameters_keeps b _ params
    (expect_admits openFound afterName) paramsFound
  obtain ⟨afterBody, bodyGood⟩ := ih.blockRest _ body (expect_admits braceFound afterParams)
    bodyFound
  exact ⟨afterBody, nameGood, paramsGood, bodyGood⟩

/-- The methods of a class body, by induction on the tokens left. -/
theorem classBody_keeps (ih : StmtsWellFormed L b) :
    Keeps L (Stmt.MethodsWellFormed L) (classBody (b + 1)) := by
  refine Keeps.of_shorter fun tokens loop p admits h => ?_
  rw [classBody] at h
  dsimp only at h
  cases closes : atCloseOrEnd .rbrace tokens
  case true =>
    simp only [closes, ↓reduceIte] at h
    obtain ⟨close, closeFound, h₁⟩ := Except.exists_of_bind_eq_ok h
    cases h₁
    exact ⟨expect_admits closeFound admits, trivial⟩
  simp only [closes, Bool.false_eq_true, ↓reduceIte] at h
  cases methodFound : next? (.keyword .ham) tokens with
  | none =>
    simp only [methodFound] at h
    cases h
  | some next =>
    obtain ⟨tail, shorter⟩ := next
    simp only [methodFound] at h
    obtain ⟨method, found, h₁⟩ := Except.exists_of_bind_eq_ok h
    obtain ⟨others, othersFound, h₂⟩ := Except.exists_of_bind_eq_ok h₁
    cases h₂
    obtain ⟨afterMethod, methodGood⟩ := ih.routine .method tail method
      (next?_admits methodFound admits) found
    have fewer : method.rest.length < tokens.length := by
      have := method.shorter
      omega
    obtain ⟨afterOthers, othersGood⟩ := loop method.rest fewer others afterMethod othersFound
    exact ⟨afterOthers, methodGood, othersGood⟩

theorem classDecl_keeps (ih : StmtsWellFormed L b) :
    Keeps L (Stmt.WellFormed L) (classDecl (b + 1)) := by
  intro tokens p admits h
  rw [classDecl] at h
  dsimp only at h
  -- the class name is read only with a unit of budget to spare
  by_cases zero : b = 0
  · simp only [zero, ↓reduceIte] at h
    cases h
  simp only [zero, ↓reduceIte] at h
  obtain ⟨n, nameFound, h₁⟩ := Except.exists_of_bind_eq_ok h
  obtain ⟨afterBrace, braceFound, h₂⟩ := Except.exists_of_bind_eq_ok h₁
  obtain ⟨methods, methodsFound, h₃⟩ := Except.exists_of_bind_eq_ok h₂
  cases h₃
  obtain ⟨afterName, nameGood⟩ := name_admits nameFound admits
  obtain ⟨afterMethods, methodsGood⟩ := classBody_keeps ih _ methods
    (expect_admits braceFound afterName) methodsFound
  exact ⟨afterMethods, nameGood, methodsGood⟩

theorem declaration_keeps (ih : StmtsWellFormed L b) :
    Keeps L (Stmt.WellFormed L) (declaration (b + 1)) := by
  intro tokens p admits h
  rw [declaration] at h
  -- the first of `cho`, `hàm` and `lớp` that the tokens start with, or a statement
  cases isVariable : next? (.keyword .cho) tokens
  case some next =>
    obtain ⟨tail, shorter⟩ := next
    simp only [isVariable] at h
    obtain ⟨q, qFound, h₁⟩ := Except.exists_of_bind_eq_ok h
    cases h₁
    exact variableDecl_keeps b tail q (next?_admits isVariable admits) qFound
  simp only [isVariable] at h
  cases isFunction : next? (.keyword .ham) tokens
  case some next =>
    obtain ⟨tail, shorter⟩ := next
    simp only [isFunction] at h
    obtain ⟨q, qFound, h₁⟩ := Except.exists_of_bind_eq_ok h
    cases h₁
    exact ih.routine .function tail q (next?_admits isFunction admits) qFound
  simp only [isFunction] at h
  cases isClass : next? (.keyword .lop) tokens
  case some next =>
    obtain ⟨tail, shorter⟩ := next
    simp only [isClass] at h
    obtain ⟨q, qFound, h₁⟩ := Except.exists_of_bind_eq_ok h
    cases h₁
    exact ih.classDecl tail q (next?_admits isClass admits) qFound
  simp only [isClass] at h
  exact ih.statement tokens p admits h

/-- With no budget left, no statement production reads anything. -/
theorem stmtsWellFormed_zero : StmtsWellFormed L 0 where
  declaration _ _ _ h := by rw [declaration] at h; cases h
  routine _ _ _ _ h := by rw [routine] at h; cases h
  classDecl _ _ _ h := by rw [classDecl] at h; cases h
  classBody _ _ _ h := by rw [classBody] at h; cases h
  statement _ _ _ h := by rw [statement] at h; cases h
  blockRest _ _ _ h := by rw [blockRest] at h; cases h
  ifRest _ _ _ h := by rw [ifRest] at h; cases h
  whileRest _ _ _ h := by rw [whileRest] at h; cases h
  forEachRest _ _ _ h := by rw [forEachRest] at h; cases h

theorem stmtsWellFormed_succ (ih : StmtsWellFormed L b) : StmtsWellFormed L (b + 1) where
  declaration := declaration_keeps ih
  routine := routine_keeps ih
  classDecl := classDecl_keeps ih
  classBody := classBody_keeps ih
  statement := statement_keeps ih
  blockRest := blockRest_keeps ih
  ifRest := ifRest_keeps ih
  whileRest := whileRest_keeps ih
  forEachRest := forEachRest_keeps ih

end Statements

/-- Every statement production keeps the leaves among those of its tokens, whatever its
budget. -/
theorem stmtsWellFormed (L : Leaves) : ∀ b, StmtsWellFormed L b
  | 0 => stmtsWellFormed_zero
  | b + 1 => stmtsWellFormed_succ (stmtsWellFormed L b)

theorem topLevel_wellFormed {L : Leaves} {budget : Nat} {tokens : List Token} {body : List Stmt}
    (admits : L.Admits tokens) (h : topLevel budget tokens = .ok body) :
    Stmt.ListWellFormed L body := by
  rw [topLevel] at h
  cases ended : atEnd tokens with
  | true =>
    simp only [ended, ↓reduceIte] at h
    cases h
    trivial
  | false =>
    simp only [ended, Bool.false_eq_true, ↓reduceIte] at h
    obtain ⟨first, firstFound, h₁⟩ := Except.exists_of_bind_eq_ok h
    obtain ⟨others, othersFound, h₂⟩ := Except.exists_of_bind_eq_ok h₁
    cases h₂
    obtain ⟨afterFirst, firstGood⟩ :=
      (stmtsWellFormed L budget).declaration tokens first admits firstFound
    exact ⟨firstGood, topLevel_wellFormed afterFirst othersFound⟩
termination_by tokens.length
decreasing_by
  have := first.shorter
  omega

/-- Every program that the parser reads from tokens whose leaves `L` allows is well formed
for `L`. -/
theorem parse_wellFormed {L : Leaves} {budget : Nat} {tokens : List Token} {program : Program}
    (admits : L.Admits tokens) (h : parse budget tokens = .ok program) :
    Stmt.ListWellFormed L program.body := by
  rw [parse] at h
  cases parsed : topLevel budget tokens with
  | error e =>
    rw [parsed] at h
    cases h
  | ok body =>
    rw [parsed] at h
    cases h
    exact topLevel_wellFormed admits parsed

end Parser

theorem Except.eq_ok_of_mapError {ε ε' α : Type} {f : ε → ε'} {x : Except ε α} {a : α}
    (h : x.mapError f = .ok a) : x = .ok a := by
  cases x with
  | error e => cases h
  | ok b =>
    cases h
    rfl

/-- The leaves of every program read from a source text are the lexer's: the tokens it reads
have the shapes of `Leaves.lexical`, and the parser keeps them. -/
theorem Program.ofSourceAt_lexical {active : Nat} {source : String} {program : Program}
    (h : Program.ofSourceAt active source = .ok program) :
    Stmt.ListWellFormed Leaves.lexical program.body := by
  rw [Program.ofSourceAt] at h
  obtain ⟨tokens, lexed, parsed⟩ := Except.exists_of_bind_eq_ok h
  have admits : Leaves.lexical.Admits tokens := fun t mem =>
    Leaves.lexical_admits (tokenize_shaped (Except.eq_ok_of_mapError lexed) t mem)
  rw [Program.ofTokensAt] at parsed
  exact Parser.parse_wellFormed admits (Except.eq_ok_of_mapError parsed)

end VieCompiler
