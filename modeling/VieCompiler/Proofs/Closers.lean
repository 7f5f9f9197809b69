import VieCompiler.Proofs.Confinement
import VieCompiler.Proofs.Lookahead

/-!
# Reads end in front of a closing bracket

A production stops in front of the first token that does not continue what it read, and it
never looks past that token. The end of input and the closing brackets `)`, `]` and `}`
continue no expression, and the end of input and `}` continue no statement: a bare `trả_về`
takes any other token as the start of its value. So a read that stopped in front of some
tokens reads the same when they are replaced by tokens that start with such a closer
(`Parser.Closable`).

`Replaced rest k ts ts'` says that `ts'` is `ts` with its suffix `rest` replaced by `k`. A read
that stopped before `rest` reads alike by `Parser.Steady`, and one that stopped in front of
`rest` by `Parser.Closable`; `Parser.Confined.replace` puts the two together, so that a read is
replayed on any list that agrees with its input up to the replaced tokens. This is how
`VieCompiler.Proofs.ErrorDecision` replays the tokens read before a syntax error, followed by
tokens that finish them.

As in `VieCompiler.Proofs.Lookahead`, the invariant of the productions at budget `b`
(`Parser.ExprsClosable`, `Parser.StmtsClosable`) gives the one at `b + 1`, production by
production, and the loops of the grammar go by induction on the tokens left.
-/

namespace VieCompiler

namespace Token.Kind

/-- The kinds of tokens that continue no expression: the end of input and the closing
brackets. -/
def expressionClosers : List Token.Kind := [.eof, .rparen, .rbracket, .rbrace]

/-- The kinds of tokens that continue no statement: the end of input and the closing brace. -/
def statementClosers : List Token.Kind := [.eof, .rbrace]

end Token.Kind

/-- The tokens start with a token of one of the kinds `closers`. -/
def Closes (closers : List Token.Kind) (k : List Token) : Prop :=
  ∃ t rest, k = t :: rest ∧ t.kind ∈ closers

/-- What closes a statement closes an expression. -/
theorem Closes.expression {k : List Token} (closes : Closes Token.Kind.statementClosers k) :
    Closes Token.Kind.expressionClosers k := by
  obtain ⟨t, rest, rfl, closer⟩ := closes
  refine ⟨t, rest, rfl, ?_⟩
  simp only [Token.Kind.statementClosers, Token.Kind.expressionClosers, List.mem_cons,
    List.not_mem_nil, or_false] at closer ⊢
  rcases closer with isEnd | isBrace
  · exact .inl isEnd
  · exact .inr (.inr (.inr isBrace))

/-- `ts'` is `ts` with its suffix `rest` replaced by `k`. -/
def Replaced (rest k ts ts' : List Token) : Prop :=
  ∃ m, ts = m ++ rest ∧ ts' = m ++ k

namespace Replaced

variable {rest k ts ts' : List Token}

theorem self (rest k : List Token) : Replaced rest k rest k :=
  ⟨[], rfl, rfl⟩

/-- Where the replaced suffix starts fixes the other side. -/
theorem eq_of_split {m : List Token} (replaced : Replaced rest k (m ++ rest) ts') :
    ts' = m ++ k := by
  obtain ⟨m₂, split, rfl⟩ := replaced
  rw [List.append_cancel_right split]

/-- A list no longer than the replaced suffix is that suffix. -/
theorem eq_of_length_le (replaced : Replaced rest k ts ts') (short : ts.length ≤ rest.length) :
    ts = rest ∧ ts' = k := by
  obtain ⟨m, rfl, rfl⟩ := replaced
  have empty : m = [] := by
    simp only [List.length_append] at short
    exact List.eq_nil_of_length_eq_zero (by omega)
  subst empty
  exact ⟨rfl, rfl⟩

/-- Past its first token, a list no shorter than the replaced suffix is replaced alike. -/
theorem tail {u : Token} {tail : List Token} (replaced : Replaced rest k (u :: tail) ts')
    (long : rest.length ≤ tail.length) :
    ∃ tail', ts' = u :: tail' ∧ Replaced rest k tail tail' := by
  obtain ⟨m, split, rfl⟩ := replaced
  cases m with
  | nil =>
    have lengths := congrArg List.length split
    simp only [List.length_cons, List.nil_append] at lengths
    omega
  | cons v m =>
    obtain ⟨rfl, rfl⟩ := List.cons.inj split
    exact ⟨m ++ k, rfl, m, rfl, rfl⟩

/-- A list longer than the replaced suffix keeps its first token. -/
theorem head (replaced : Replaced rest k ts ts') (long : rest.length < ts.length) :
    ∃ u tail tail', ts = u :: tail ∧ ts' = u :: tail' := by
  obtain ⟨m, rfl, rfl⟩ := replaced
  cases m with
  | nil => simp at long
  | cons v m => exact ⟨v, _, _, rfl, rfl⟩

end Replaced

namespace Parser

section Tokens

variable {closers : List Token.Kind} {rest k ts ts' : List Token}

theorem next?_eq_cons {kind : Token.Kind} {tail : List Token} {shorter : tail.length < ts.length}
    (found : next? kind ts = some ⟨tail, shorter⟩) :
    ∃ u, ts = u :: tail ∧ u.kind = kind ∧ u.kind ≠ .eof := by
  obtain _ | ⟨u, rest⟩ := ts
  · cases found
  by_cases fits : u.kind = kind ∧ u.kind ≠ .eof
  · simp only [next?, if_pos fits, Option.some.injEq, Subtype.mk.injEq] at found
    exact ⟨u, by rw [found], fits⟩
  · simp only [next?, if_neg fits, reduceCtorEq] at found

theorem next?_rest {kind : Token.Kind} {tail : List Token} {shorter : tail.length < ts.length}
    (ends : EndsAtEof ts) (found : next? kind ts = some ⟨tail, shorter⟩) :
    tail <:+ ts ∧ EndsAtEof tail := by
  obtain ⟨u, rfl, -, notEnd⟩ := next?_eq_cons found
  exact ⟨List.suffix_cons u tail, ends.tail notEnd⟩

theorem operator?_eq_cons {level : Nat} {op : BinaryOp} {tail : List Token}
    {shorter : tail.length < ts.length} (found : operator? level ts = some (op, ⟨tail, shorter⟩)) :
    ∃ u, ts = u :: tail ∧ u.kind ≠ .eof ∧
      ∃ entry, (levelOperators level).find? (·.1 == u.kind) = some entry ∧ entry.2 = op := by
  obtain _ | ⟨u, rest⟩ := ts
  · cases found
  by_cases isEnd : u.kind = .eof
  · simp only [operator?, isEnd, ↓reduceIte, reduceCtorEq] at found
  simp only [operator?, isEnd, ↓reduceIte] at found
  obtain ⟨entry, entryFound, same⟩ := Option.map_eq_some_iff.mp found
  simp only [Prod.mk.injEq, Subtype.mk.injEq] at same
  exact ⟨u, by rw [same.2], isEnd, entry, entryFound, same.1⟩

theorem operator?_rest {level : Nat} {op : BinaryOp} {tail : List Token}
    {shorter : tail.length < ts.length} (ends : EndsAtEof ts)
    (found : operator? level ts = some (op, ⟨tail, shorter⟩)) : tail <:+ ts ∧ EndsAtEof tail := by
  obtain ⟨u, rfl, notEnd, -⟩ := operator?_eq_cons found
  exact ⟨List.suffix_cons u tail, ends.tail notEnd⟩

theorem expect_eq_ok {kind : Token.Kind} {problem : Problem} {tail : List Token}
    {shorter : tail.length < ts.length} (found : expect kind problem ts = .ok ⟨tail, shorter⟩) :
    next? kind ts = some ⟨tail, shorter⟩ := by
  unfold expect at found
  cases next : next? kind ts with
  | none => simp [next, fail] at found
  | some r =>
    simp only [next, Except.ok.injEq] at found
    rw [found]

theorem expect_rest {kind : Token.Kind} {problem : Problem} {tail : List Token}
    {shorter : tail.length < ts.length} (ends : EndsAtEof ts)
    (found : expect kind problem ts = .ok ⟨tail, shorter⟩) : tail <:+ ts ∧ EndsAtEof tail :=
  next?_rest ends (expect_eq_ok found)

theorem name_eq_ok {problem : Problem} {p : Parsed ts String} (ran : name problem ts = .ok p) :
    ∃ u, ts = u :: p.rest ∧ u.kind = .ident := by
  obtain _ | ⟨u, rest⟩ := ts
  · simp [name, fail] at ran
  by_cases isName : u.kind = .ident
  · simp only [name, isName, ↓reduceIte, Except.ok.injEq] at ran
    exact ⟨u, by rw [← ran], isName⟩
  · simp [name, isName, fail] at ran

theorem name_rest {problem : Problem} {p : Parsed ts String} (ends : EndsAtEof ts)
    (ran : name problem ts = .ok p) : p.rest <:+ ts ∧ EndsAtEof p.rest := by
  obtain ⟨u, split, isName⟩ := name_eq_ok ran
  have ends' : EndsAtEof (u :: p.rest) := split ▸ ends
  exact ⟨⟨[u], split.symm⟩, ends'.tail (by rw [isName]; decide)⟩

theorem next?_of_closes {kind : Token.Kind} (closes : Closes closers k) (open_ : kind ∉ closers) :
    next? kind k = none := by
  obtain ⟨t, rest, rfl, closer⟩ := closes
  have other : t.kind ≠ kind := fun same => open_ (same ▸ closer)
  simp [next?, other]

theorem operator?_of_closes (closes : Closes Token.Kind.expressionClosers k) (level : Nat) :
    operator? level k = none := by
  obtain ⟨t, rest, rfl, closer⟩ := closes
  simp only [Token.Kind.expressionClosers, List.mem_cons, List.not_mem_nil, or_false] at closer
  rcases closer with kind | kind | kind | kind <;>
    rcases level with _ | _ | _ | _ | _ | _ | level <;>
    simp [operator?, kind, levelOperators]

theorem atCloseOrEnd_of_closes (closes : Closes Token.Kind.statementClosers k) :
    atCloseOrEnd .rbrace k = true := by
  obtain ⟨t, rest, rfl, closer⟩ := closes
  simp only [Token.Kind.statementClosers, List.mem_cons, List.not_mem_nil, or_false] at closer
  rcases closer with kind | kind <;> simp [atCloseOrEnd, atEnd, peek, next?, kind]

theorem next?_replace {kind : Token.Kind} (replaced : Replaced rest k ts ts') {tail : List Token}
    {shorter : tail.length < ts.length} (found : next? kind ts = some ⟨tail, shorter⟩)
    (long : rest.length ≤ tail.length) :
    ∃ tail' shorter', next? kind ts' = some ⟨tail', shorter'⟩ ∧ Replaced rest k tail tail' := by
  obtain ⟨u, rfl, fits⟩ := next?_eq_cons found
  obtain ⟨tail', rfl, tailReplaced⟩ := replaced.tail long
  exact ⟨tail', by simp, by simp only [next?, if_pos fits], tailReplaced⟩

theorem expect_replace {kind : Token.Kind} {problem : Problem} (replaced : Replaced rest k ts ts')
    {tail : List Token} {shorter : tail.length < ts.length}
    (found : expect kind problem ts = .ok ⟨tail, shorter⟩) (long : rest.length ≤ tail.length) :
    ∃ tail' shorter', expect kind problem ts' = .ok ⟨tail', shorter'⟩ ∧
      Replaced rest k tail tail' := by
  obtain ⟨tail', shorter', found', tailReplaced⟩ := next?_replace replaced (expect_eq_ok found) long
  exact ⟨tail', shorter', by rw [expect, found'], tailReplaced⟩

theorem operator?_replace {level : Nat} (replaced : Replaced rest k ts ts') {op : BinaryOp}
    {tail : List Token} {shorter : tail.length < ts.length}
    (found : operator? level ts = some (op, ⟨tail, shorter⟩)) (long : rest.length ≤ tail.length) :
    ∃ tail' shorter', operator? level ts' = some (op, ⟨tail', shorter'⟩) ∧
      Replaced rest k tail tail' := by
  obtain ⟨u, rfl, notEnd, entry, entryFound, rfl⟩ := operator?_eq_cons found
  obtain ⟨tail', rfl, tailReplaced⟩ := replaced.tail long
  exact ⟨tail', by simp, by simp only [operator?, notEnd, ↓reduceIte, entryFound]; rfl,
    tailReplaced⟩

theorem name_replace {problem : Problem} (replaced : Replaced rest k ts ts') {p : Parsed ts String}
    (ran : name problem ts = .ok p) (long : rest.length ≤ p.rest.length) :
    ∃ q, name problem ts' = .ok q ∧ q.value = p.value ∧ Replaced rest k p.rest q.rest := by
  obtain ⟨u, split, isName⟩ := name_eq_ok ran
  obtain _ | ⟨v, tail⟩ := ts
  · cases split
  obtain ⟨rfl, restSplit⟩ := List.cons.inj split
  have long' : rest.length ≤ tail.length := by rw [restSplit]; exact long
  obtain ⟨tail', rfl, tailReplaced⟩ := replaced.tail long'
  simp only [name, isName, ↓reduceIte, Except.ok.injEq] at ran
  subst ran
  refine ⟨⟨v.lexeme, tail', by simp⟩, ?_, rfl, tailReplaced⟩
  simp only [name, isName, ↓reduceIte]

/-- A lookahead that finds no token of `kind` finds none either on the replaced list: its first
token is the same, or it is `k`'s first token. -/
theorem next?_none_replace {kind : Token.Kind} (replaced : Replaced rest k ts ts')
    (missing : next? kind ts = none) (atRest : ts.length ≤ rest.length → next? kind k = none) :
    next? kind ts' = none := by
  by_cases short : ts.length ≤ rest.length
  · obtain ⟨-, rfl⟩ := replaced.eq_of_length_le short
    exact atRest short
  · obtain ⟨u, tail, tail', rfl, rfl⟩ := replaced.head (by omega)
    simpa [next?] using missing

theorem atCloseOrEnd_replace {kind : Token.Kind} (replaced : Replaced rest k ts ts')
    (long : rest.length < ts.length) : atCloseOrEnd kind ts' = atCloseOrEnd kind ts := by
  obtain ⟨u, tail, tail', rfl, rfl⟩ := replaced.head long
  exact atCloseOrEnd_cut ⟨[], rfl, rfl⟩

end Tokens

section Loops

variable {α : Type} {closers : List Token.Kind}

/-- A read of `f` from `ts` reads the same from `ts` with the tokens after it replaced by tokens
`k` that start with one of `closers`, and stops in front of `k`. -/
def ClosableAt (closers : List Token.Kind)
    (f : (tokens : List Token) → Except ParseFailure (Parsed tokens α)) (ts : List Token) : Prop :=
  EndsAtEof ts → ∀ p : Parsed ts α, f ts = .ok p → ∀ {k ts'}, Replaced p.rest k ts ts' →
    Closes closers k → ∃ q, f ts' = .ok q ∧ q.value = p.value ∧ q.rest = k

/-- What `f` reads ends in front of any tokens that start with one of `closers`. -/
def Closable (closers : List Token.Kind)
    (f : (tokens : List Token) → Except ParseFailure (Parsed tokens α)) : Prop :=
  ∀ ts, ClosableAt closers f ts

/-- A run of the loop `f` from `ts` runs the same from `ts` with the tokens after it replaced by
tokens `k` that start with one of `closers`, and stops in front of `k`. -/
def ClosableFromAt (closers : List Token.Kind)
    (f : α → (tokens : List Token) → Except ParseFailure (Continued tokens α)) (ts : List Token) :
    Prop :=
  EndsAtEof ts → ∀ start (p : Continued ts α), f start ts = .ok p → ∀ {k ts'},
    Replaced p.rest k ts ts' → Closes closers k → ∃ q, f start ts' = .ok q ∧ q.value = p.value ∧
      q.rest = k

def ClosableFrom (closers : List Token.Kind)
    (f : α → (tokens : List Token) → Except ParseFailure (Continued tokens α)) : Prop :=
  ∀ ts, ClosableFromAt closers f ts

theorem Closable.of_shorter {f : (tokens : List Token) → Except ParseFailure (Parsed tokens α)}
    (step : ∀ ts, (∀ shorter : List Token, shorter.length < ts.length →
      ClosableAt closers f shorter) → ClosableAt closers f ts) : Closable closers f := by
  intro ts
  induction count : ts.length using Nat.strongRecOn generalizing ts with
  | ind n ih => exact step ts fun shorter fewer => ih _ (count ▸ fewer) shorter rfl

theorem ClosableFrom.of_shorter
    {f : α → (tokens : List Token) → Except ParseFailure (Continued tokens α)}
    (step : ∀ ts, (∀ shorter : List Token, shorter.length < ts.length →
      ClosableFromAt closers f shorter) → ClosableFromAt closers f ts) : ClosableFrom closers f := by
  intro ts
  induction count : ts.length using Nat.strongRecOn generalizing ts with
  | ind n ih => exact step ts fun shorter fewer => ih _ (count ▸ fewer) shorter rfl

/-- What a confined production reads from tokens that end at the end of input stops at a
suffix of them, which ends there too. -/
theorem Confined.rest {f : (tokens : List Token) → Except ParseFailure (Parsed tokens α)}
    (confined : Confined f) {ts : List Token} {p : Parsed ts α} (ends : EndsAtEof ts)
    (ran : f ts = .ok p) : p.rest <:+ ts ∧ EndsAtEof p.rest := by
  have alike := confined ts [] ts ⟨(List.append_nil ts).symm, ends⟩
  rw [ran] at alike
  have padded : Parsed.Padded [] p p := alike
  exact ⟨padded.suffix, padded.rest.ends⟩

theorem ConfinedFrom.rest
    {f : α → (tokens : List Token) → Except ParseFailure (Continued tokens α)}
    (confined : ConfinedFrom f) {start : α} {ts : List Token} {p : Continued ts α}
    (ends : EndsAtEof ts) (ran : f start ts = .ok p) : p.rest <:+ ts ∧ EndsAtEof p.rest := by
  have alike := confined ts start [] ts ⟨(List.append_nil ts).symm, ends⟩
  rw [ran] at alike
  have padded : Continued.Padded [] p p := alike
  exact ⟨padded.suffix, padded.rest.ends⟩

/-- Of two suffixes of one list, where the replaced one is no longer, the read stopped before the
replaced tokens or in front of them. -/
theorem stop_split {m rest consumed r : List Token} (split : consumed ++ r = m ++ rest)
    (long : rest.length ≤ r.length) : ∃ mid, r = mid ++ rest ∧ m = consumed ++ mid := by
  rcases List.append_eq_append_iff.mp split with ⟨mid, rfl, stop⟩ | ⟨mid, rfl, stop⟩
  · exact ⟨mid, stop, rfl⟩
  · have lengths := congrArg List.length stop
    simp only [List.length_append] at lengths
    have empty : mid = [] := List.eq_nil_of_length_eq_zero (by omega)
    subst empty
    simp only [List.nil_append] at stop
    exact ⟨[], by rw [stop]; rfl, by simp⟩

/-- A read replayed on a list whose tail is replaced: by `Steady` when it stopped before the
replaced tokens, by `Closable` when it stopped in front of them. -/
theorem Confined.replace {f : (tokens : List Token) → Except ParseFailure (Parsed tokens α)}
    (confined : Confined f) (steady : Steady f) (closable : Closable closers f)
    {rest k ts ts' : List Token} {p : Parsed ts α} (ends : EndsAtEof ts) (ran : f ts = .ok p)
    (replaced : Replaced rest k ts ts') (long : rest.length ≤ p.rest.length)
    (closes : p.rest.length = rest.length → Closes closers k) :
    ∃ q, f ts' = .ok q ∧ q.value = p.value ∧ Replaced rest k p.rest q.rest := by
  obtain ⟨m, rfl, rfl⟩ := replaced
  obtain ⟨consumed, split⟩ := (confined.rest ends ran).1
  obtain ⟨mid, stop, rfl⟩ := stop_split split long
  rcases List.eq_nil_or_concat mid with rfl | ⟨front, last, rfl⟩
  · -- stopped in front of the replaced tokens
    simp only [List.nil_append] at stop
    obtain ⟨q, qRan, sameValue, qRest⟩ :=
      closable _ ends p ran ⟨consumed ++ [], by rw [stop], rfl⟩ (closes (by rw [stop]))
    exact ⟨q, qRan, sameValue, [], stop, qRest⟩
  · -- stopped before them: the two lists are cut alike at the read's last token
    have restSplit : p.rest = front ++ last :: rest := by rw [stop]; simp
    have cut : Cut last rest k (consumed ++ front.concat last ++ rest)
        (consumed ++ front.concat last ++ k) := ⟨consumed ++ front, by simp, by simp⟩
    obtain ⟨q, qRan, same⟩ := steady _ p cut ran
      (by rw [restSplit]; simp only [List.length_append, List.length_cons]; omega)
    have restCut := same.rest
    rw [restSplit] at restCut
    exact ⟨q, qRan, same.value, front.concat last, by rw [restSplit]; simp,
      by rw [restCut.eq_of_split]; simp⟩

theorem ConfinedFrom.replace
    {f : α → (tokens : List Token) → Except ParseFailure (Continued tokens α)}
    (confined : ConfinedFrom f) (steady : SteadyFrom f) (closable : ClosableFrom closers f)
    {rest k ts ts' : List Token} {start : α} {p : Continued ts α} (ends : EndsAtEof ts)
    (ran : f start ts = .ok p) (replaced : Replaced rest k ts ts')
    (long : rest.length ≤ p.rest.length) (closes : p.rest.length = rest.length → Closes closers k) :
    ∃ q, f start ts' = .ok q ∧ q.value = p.value ∧ Replaced rest k p.rest q.rest := by
  obtain ⟨m, rfl, rfl⟩ := replaced
  obtain ⟨consumed, split⟩ := (confined.rest ends ran).1
  obtain ⟨mid, stop, rfl⟩ := stop_split split long
  rcases List.eq_nil_or_concat mid with rfl | ⟨front, last, rfl⟩
  · simp only [List.nil_append] at stop
    obtain ⟨q, qRan, sameValue, qRest⟩ :=
      closable _ ends start p ran ⟨consumed ++ [], by rw [stop], rfl⟩ (closes (by rw [stop]))
    exact ⟨q, qRan, sameValue, [], stop, qRest⟩
  · have restSplit : p.rest = front ++ last :: rest := by rw [stop]; simp
    have cut : Cut last rest k (consumed ++ front.concat last ++ rest)
        (consumed ++ front.concat last ++ k) := ⟨consumed ++ front, by simp, by simp⟩
    obtain ⟨q, qRan, same⟩ := steady _ start p cut ran
      (by rw [restSplit]; simp only [List.length_append, List.length_cons]; omega)
    have restCut := same.rest
    rw [restSplit] at restCut
    exact ⟨q, qRan, same.value, front.concat last, by rw [restSplit]; simp,
      by rw [restCut.eq_of_split]; simp⟩

end Loops

open Token.Kind (expressionClosers statementClosers)

/-- The invariant of the expression productions with budget `b`. -/
structure ExprsClosable (b : Nat) : Prop where
  expression : Closable expressionClosers (expression b)
  assignment : Closable expressionClosers (assignment b)
  binary : ∀ level, Closable expressionClosers (binary b level)
  binaryTail : ∀ level, ClosableFrom expressionClosers (binaryTail b level)
  unary : Closable expressionClosers (unary b)
  suffixed : Closable expressionClosers (suffixed b)
  suffixes : ClosableFrom expressionClosers (suffixes b)
  arguments : Closable expressionClosers (arguments b)
  listTail : ∀ close problem, Closable expressionClosers (listTail b close problem)
  primary : Closable expressionClosers (primary b)

section Expressions

variable {b : Nat}

theorem expression_closable (ih : ExprsClosable b) :
    Closable expressionClosers (expression (b + 1)) := by
  intro ts ends p ran k ts' replaced closes
  rw [expression] at ran ⊢
  exact ih.assignment ts ends p ran replaced closes

theorem assignment_closable (ih : ExprsClosable b) :
    Closable expressionClosers (assignment (b + 1)) := by
  intro ts ends p ran k ts' replaced closes
  rw [assignment] at ran
  obtain ⟨left, leftRan, ran⟩ := Except.exists_of_bind_eq_ok ran
  cases found : next? .equal left.rest with
  | none =>
    -- no `=` follows: the left side is all there is
    simp only [found] at ran
    have same := Except.ok.inj ran
    subst same
    obtain ⟨left', leftRan', sameLeft, leftRest⟩ := ih.binary 0 ts ends left leftRan replaced closes
    have equalsMissing : next? .equal left'.rest = none := by
      rw [leftRest]
      exact next?_of_closes closes (by decide)
    rw [assignment, leftRan']
    simp only [bind, Except.bind, equalsMissing]
    exact ⟨_, rfl, sameLeft, leftRest⟩
  | some next =>
    obtain ⟨afterEquals, shorter⟩ := next
    simp only [found] at ran
    obtain ⟨value, valueRan, ran⟩ := Except.exists_of_bind_eq_ok ran
    cases target : left.value.isTarget with
    | false => simp [target] at ran
    | true =>
      simp only [target, ↓reduceIte] at ran
      cases ran
      have := value.shorter
      obtain ⟨-, leftEnds⟩ := ((exprsConfined b).binary 0).rest ends leftRan
      obtain ⟨-, equalsEnds⟩ := next?_rest leftEnds found
      obtain ⟨left', leftRan', sameLeft, leftReplaced⟩ :=
        ((exprsConfined b).binary 0).replace ((exprsSteady b).binary 0) (ih.binary 0) ends leftRan
          replaced (by dsimp only; omega) fun _ => closes
      obtain ⟨afterEquals', shorter', found', equalsReplaced⟩ :=
        next?_replace leftReplaced found (by dsimp only; omega)
      obtain ⟨value', valueRan', sameValue, valueRest⟩ :=
        ih.assignment afterEquals equalsEnds value valueRan equalsReplaced closes
      rw [assignment, leftRan']
      simp only [bind, Except.bind, found', valueRan', sameLeft, target, ↓reduceIte]
      exact ⟨_, rfl, by simp [sameValue], valueRest⟩

/-- An operand of the binary level `level` reads only its own tokens. -/
theorem operand_confined' (b level : Nat) :
    Confined fun ts => if level < tightestLevel then binary b (level + 1) ts else unary b ts :=
  fun _ _ _ padded => operand_confined (exprsConfined b) level padded

theorem operand_closable (ih : ExprsClosable b) (level : Nat) :
    Closable expressionClosers fun ts =>
      if level < tightestLevel then binary b (level + 1) ts else unary b ts := by
  by_cases tighter : level < tightestLevel
  · simp only [tighter, ↓reduceIte]
    exact ih.binary (level + 1)
  · simp only [tighter, ↓reduceIte]
    exact ih.unary

/-- The operators and operands after the first operand of a binary level, by induction on the
tokens left. -/
theorem binaryTail_closable (ih : ExprsClosable b) (level : Nat) :
    ClosableFrom expressionClosers (binaryTail (b + 1) level) := by
  refine ClosableFrom.of_shorter fun ts loop ends start p ran k ts' replaced closes => ?_
  rw [binaryTail] at ran
  cases found : operator? level ts with
  | none =>
    -- no operator follows: nothing was read
    simp only [found] at ran
    cases ran
    obtain ⟨-, rfl⟩ := replaced.eq_of_length_le (Nat.le_refl _)
    rw [binaryTail, operator?_of_closes closes]
    exact ⟨_, rfl, rfl, rfl⟩
  | some next =>
    obtain ⟨op, tail, shorter⟩ := next
    simp only [found] at ran
    obtain ⟨-, tailEnds⟩ := operator?_rest ends found
    have confined := operand_confined' b level
    have steady := operand_steady (exprsSteady b) level
    have closable := operand_closable ih level
    by_cases tighter : level < tightestLevel <;>
      simp only [tighter, ↓reduceIte] at ran confined steady closable
    -- the operand is of the next level or unary, and read alike either way
    all_goals
      obtain ⟨right, rightRan, ran⟩ := Except.exists_of_bind_eq_ok ran
      obtain ⟨whole, wholeRan, ran⟩ := Except.exists_of_bind_eq_ok ran
      cases ran
      have := whole.noLonger
      have := right.shorter
      obtain ⟨-, rightEnds⟩ := confined.rest tailEnds rightRan
      obtain ⟨tail', shorter', found', tailReplaced⟩ :=
        operator?_replace replaced found (by dsimp only; omega)
      obtain ⟨right', rightRan', sameRight, rightReplaced⟩ :=
        confined.replace steady closable tailEnds rightRan tailReplaced (by dsimp only; omega)
          fun _ => closes
      obtain ⟨whole', wholeRan', sameWhole, wholeRest⟩ :=
        loop right.rest (by omega) rightEnds _ whole wholeRan rightReplaced closes
      rw [binaryTail, found']
      simp only [tighter, ↓reduceIte, bind, Except.bind, rightRan', sameRight, wholeRan']
      exact ⟨_, rfl, sameWhole, wholeRest⟩

theorem binary_closable (ih : ExprsClosable b) (level : Nat) :
    Closable expressionClosers (binary (b + 1) level) := by
  intro ts ends p ran k ts' replaced closes
  rw [binary] at ran
  have confined := operand_confined' b level
  have steady := operand_steady (exprsSteady b) level
  have closable := operand_closable ih level
  by_cases tighter : level < tightestLevel <;>
    simp only [tighter, ↓reduceIte] at ran confined steady closable
  all_goals
    obtain ⟨first, firstRan, ran⟩ := Except.exists_of_bind_eq_ok ran
    obtain ⟨whole, wholeRan, ran⟩ := Except.exists_of_bind_eq_ok ran
    cases ran
    have := whole.noLonger
    obtain ⟨-, firstEnds⟩ := confined.rest ends firstRan
    obtain ⟨first', firstRan', sameFirst, firstReplaced⟩ :=
      confined.replace steady closable ends firstRan replaced (by dsimp only; omega) fun _ => closes
    obtain ⟨whole', wholeRan', sameWhole, wholeRest⟩ :=
      binaryTail_closable ih level first.rest firstEnds first.value whole wholeRan firstReplaced
        closes
    rw [binary]
    simp only [tighter, ↓reduceIte, bind, Except.bind, firstRan', sameFirst, wholeRan']
    exact ⟨_, rfl, sameWhole, wholeRest⟩

theorem unary_closable (ih : ExprsClosable b) : Closable expressionClosers (unary (b + 1)) := by
  intro ts ends p ran k ts' replaced closes
  rw [unary] at ran
  cases found : next? .minus ts with
  | none =>
    simp only [found] at ran
    rw [unary, next?_none_replace replaced found fun _ => next?_of_closes closes (by decide)]
    exact ih.suffixed ts ends p ran replaced closes
  | some next =>
    obtain ⟨tail, shorter⟩ := next
    simp only [found] at ran
    obtain ⟨operand, operandRan, ran⟩ := Except.exists_of_bind_eq_ok ran
    cases ran
    have := operand.shorter
    obtain ⟨-, tailEnds⟩ := next?_rest ends found
    obtain ⟨tail', shorter', found', tailReplaced⟩ :=
      next?_replace replaced found (by dsimp only [Parsed.extend, Parsed.map]; omega)
    obtain ⟨operand', operandRan', sameOperand, operandRest⟩ :=
      ih.unary tail tailEnds operand operandRan tailReplaced closes
    rw [unary, found']
    simp only [bind, Except.bind, operandRan']
    exact ⟨_, rfl, by simp [Parsed.extend, Parsed.map, sameOperand], operandRest⟩

/-- Calls, index accesses and field accesses after an expression, by induction on the tokens
left. -/
theorem suffixes_closable (ih : ExprsClosable b) :
    ClosableFrom expressionClosers (suffixes (b + 1)) := by
  refine ClosableFrom.of_shorter fun ts loop ends target p ran k ts' replaced closes => ?_
  rw [suffixes] at ran
  cases call : next? .lparen ts with
  | some next =>
    obtain ⟨tail, shorter⟩ := next
    simp only [call] at ran
    obtain ⟨args, argsRan, ran⟩ := Except.exists_of_bind_eq_ok ran
    obtain ⟨whole, wholeRan, ran⟩ := Except.exists_of_bind_eq_ok ran
    cases ran
    have := whole.noLonger
    have := args.shorter
    obtain ⟨-, tailEnds⟩ := next?_rest ends call
    obtain ⟨-, argsEnds⟩ := (exprsConfined b).arguments.rest tailEnds argsRan
    obtain ⟨tail', shorter', call', tailReplaced⟩ :=
      next?_replace replaced call (by dsimp only; omega)
    obtain ⟨args', argsRan', sameArgs, argsReplaced⟩ :=
      (exprsConfined b).arguments.replace (exprsSteady b).arguments ih.arguments tailEnds argsRan
        tailReplaced (by dsimp only; omega) fun _ => closes
    obtain ⟨whole', wholeRan', sameWhole, wholeRest⟩ :=
      loop args.rest (by omega) argsEnds _ whole wholeRan argsReplaced closes
    rw [suffixes, call']
    simp only [bind, Except.bind, argsRan', sameArgs, wholeRan']
    exact ⟨_, rfl, sameWhole, wholeRest⟩
  | none =>
    simp only [call] at ran
    have call' := next?_none_replace replaced call fun _ => next?_of_closes closes (by decide)
    cases index : next? .lbracket ts with
    | some next =>
      obtain ⟨tail, shorter⟩ := next
      simp only [index] at ran
      obtain ⟨key, keyRan, ran⟩ := Except.exists_of_bind_eq_ok ran
      obtain ⟨⟨afterClose, closed⟩, closeRan, ran⟩ := Except.exists_of_bind_eq_ok ran
      obtain ⟨whole, wholeRan, ran⟩ := Except.exists_of_bind_eq_ok ran
      cases ran
      have : whole.rest.length ≤ afterClose.length := whole.noLonger
      have := key.shorter
      obtain ⟨-, tailEnds⟩ := next?_rest ends index
      obtain ⟨-, keyEnds⟩ := (exprsConfined b).expression.rest tailEnds keyRan
      obtain ⟨-, closeEnds⟩ := expect_rest keyEnds closeRan
      obtain ⟨tail', shorter', index', tailReplaced⟩ :=
        next?_replace replaced index (by dsimp only; omega)
      obtain ⟨key', keyRan', sameKey, keyReplaced⟩ :=
        (exprsConfined b).expression.replace (exprsSteady b).expression ih.expression tailEnds keyRan
          tailReplaced (by dsimp only; omega) fun _ => closes
      obtain ⟨afterClose', closed', closeRan', closeReplaced⟩ :=
        expect_replace keyReplaced closeRan (by dsimp only; omega)
      obtain ⟨whole', wholeRan', sameWhole, wholeRest⟩ :=
        loop afterClose (by omega) closeEnds _ whole wholeRan closeReplaced closes
      rw [suffixes, call', index']
      simp only [bind, Except.bind, keyRan', closeRan', sameKey, wholeRan']
      exact ⟨_, rfl, sameWhole, wholeRest⟩
    | none =>
      simp only [index] at ran
      have index' := next?_none_replace replaced index fun _ => next?_of_closes closes (by decide)
      cases field : next? .dot ts with
      | some next =>
        obtain ⟨tail, shorter⟩ := next
        simp only [field] at ran
        by_cases zero : b = 0
        · simp only [zero, ↓reduceIte] at ran
          cases ran
        simp only [zero, ↓reduceIte] at ran
        obtain ⟨name', nameRan, ran⟩ := Except.exists_of_bind_eq_ok ran
        obtain ⟨whole, wholeRan, ran⟩ := Except.exists_of_bind_eq_ok ran
        cases ran
        have := whole.noLonger
        have := name'.shorter
        obtain ⟨-, tailEnds⟩ := next?_rest ends field
        obtain ⟨-, nameEnds⟩ := name_rest tailEnds nameRan
        obtain ⟨tail', shorter', field', tailReplaced⟩ :=
          next?_replace replaced field (by dsimp only; omega)
        obtain ⟨name'', nameRan', sameName, nameReplaced⟩ :=
          name_replace tailReplaced nameRan (by dsimp only; omega)
        obtain ⟨whole', wholeRan', sameWhole, wholeRest⟩ :=
          loop name'.rest (by omega) nameEnds _ whole wholeRan nameReplaced closes
        rw [suffixes, call', index', field']
        simp only [zero, ↓reduceIte, bind, Except.bind, nameRan', sameName, wholeRan']
        exact ⟨_, rfl, sameWhole, wholeRest⟩
      | none =>
        -- no suffix follows: nothing was read
        simp only [field] at ran
        cases ran
        obtain ⟨-, rfl⟩ := replaced.eq_of_length_le (Nat.le_refl _)
        rw [suffixes, call', index', next?_of_closes closes (by decide)]
        exact ⟨_, rfl, rfl, rfl⟩

theorem suffixed_closable (ih : ExprsClosable b) : Closable expressionClosers (suffixed (b + 1)) := by
  intro ts ends p ran k ts' replaced closes
  rw [suffixed] at ran
  obtain ⟨head, headRan, ran⟩ := Except.exists_of_bind_eq_ok ran
  obtain ⟨whole, wholeRan, ran⟩ := Except.exists_of_bind_eq_ok ran
  cases ran
  have := whole.noLonger
  obtain ⟨-, headEnds⟩ := (exprsConfined b).primary.rest ends headRan
  obtain ⟨head', headRan', sameHead, headReplaced⟩ :=
    (exprsConfined b).primary.replace (exprsSteady b).primary ih.primary ends headRan replaced
      (by dsimp only; omega) fun _ => closes
  obtain ⟨whole', wholeRan', sameWhole, wholeRest⟩ :=
    suffixes_closable ih head.rest headEnds head.value whole wholeRan headReplaced closes
  rw [suffixed, headRan']
  simp only [bind, Except.bind, sameHead, wholeRan']
  exact ⟨_, rfl, sameWhole, wholeRest⟩

/-- The items of a list after a comma each, and its closing token, by induction on the tokens
left. -/
theorem listTail_closable (ih : ExprsClosable b) (close : Token.Kind) (problem : Problem) :
    Closable expressionClosers (listTail (b + 1) close problem) := by
  refine Closable.of_shorter fun ts loop ends p ran k ts' replaced closes => ?_
  rw [listTail] at ran
  cases comma : next? .comma ts with
  | some next =>
    obtain ⟨tail, shorter⟩ := next
    simp only [comma] at ran
    obtain ⟨item, itemRan, ran⟩ := Except.exists_of_bind_eq_ok ran
    obtain ⟨more, moreRan, ran⟩ := Except.exists_of_bind_eq_ok ran
    cases ran
    have := more.shorter
    have := item.shorter
    obtain ⟨-, tailEnds⟩ := next?_rest ends comma
    obtain ⟨-, itemEnds⟩ := (exprsConfined b).expression.rest tailEnds itemRan
    obtain ⟨tail', shorter', comma', tailReplaced⟩ :=
      next?_replace replaced comma (by dsimp only; omega)
    obtain ⟨item', itemRan', sameItem, itemReplaced⟩ :=
      (exprsConfined b).expression.replace (exprsSteady b).expression ih.expression tailEnds itemRan
        tailReplaced (by dsimp only; omega) fun _ => closes
    obtain ⟨more', moreRan', sameMore, moreRest⟩ :=
      loop item.rest (by omega) itemEnds more moreRan itemReplaced closes
    rw [listTail, comma']
    simp only [bind, Except.bind, itemRan', moreRan']
    exact ⟨_, rfl, by simp [sameItem, sameMore], moreRest⟩
  | none =>
    simp only [comma] at ran
    obtain ⟨⟨afterClose, closed⟩, closeRan, ran⟩ := Except.exists_of_bind_eq_ok ran
    cases ran
    obtain ⟨afterClose', closed', closeRan', closeReplaced⟩ :=
      expect_replace replaced closeRan (Nat.le_refl _)
    obtain ⟨-, rfl⟩ := closeReplaced.eq_of_length_le (Nat.le_refl _)
    rw [listTail, next?_none_replace replaced comma fun short => absurd short (by dsimp only; omega)]
    simp only [bind, Except.bind, closeRan']
    exact ⟨_, rfl, rfl, rfl⟩

theorem arguments_closable (ih : ExprsClosable b) : Closable expressionClosers (arguments (b + 1)) := by
  intro ts ends p ran k ts' replaced closes
  rw [arguments] at ran
  cases closed : next? .rparen ts with
  | some next =>
    obtain ⟨rest, shorter⟩ := next
    simp only [closed] at ran
    cases ran
    obtain ⟨rest', shorter', closed', restReplaced⟩ := next?_replace replaced closed (Nat.le_refl _)
    obtain ⟨-, rfl⟩ := restReplaced.eq_of_length_le (Nat.le_refl _)
    rw [arguments, closed']
    exact ⟨_, rfl, rfl, rfl⟩
  | none =>
    simp only [closed] at ran
    obtain ⟨first, firstRan, ran⟩ := Except.exists_of_bind_eq_ok ran
    obtain ⟨more, moreRan, ran⟩ := Except.exists_of_bind_eq_ok ran
    cases ran
    have := more.shorter
    have := first.shorter
    obtain ⟨-, firstEnds⟩ := (exprsConfined b).expression.rest ends firstRan
    obtain ⟨first', firstRan', sameFirst, firstReplaced⟩ :=
      (exprsConfined b).expression.replace (exprsSteady b).expression ih.expression ends firstRan
        replaced (by dsimp only; omega) fun _ => closes
    obtain ⟨more', moreRan', sameMore, moreRest⟩ :=
      listTail_closable ih _ _ first.rest firstEnds more moreRan firstReplaced closes
    rw [arguments,
      next?_none_replace replaced closed fun short => absurd short (by dsimp only at short; omega)]
    simp only [bind, Except.bind, firstRan', moreRan']
    exact ⟨_, rfl, by simp [sameFirst, sameMore], moreRest⟩

/-- A primary expression. Its first token decides the branch; a literal or a name is that token
alone. -/
theorem primary_closable (ih : ExprsClosable b) : Closable expressionClosers (primary (b + 1)) := by
  intro ts ends p ran k ts' replaced closes
  obtain _ | ⟨u, rest⟩ := ts
  · simp [primary, fail] at ran
  obtain ⟨rest', rfl, restReplaced⟩ :=
    replaced.tail (by have := p.shorter; simp only [List.length_cons] at this; omega)
  rw [primary] at ran ⊢
  dsimp only at ran ⊢
  generalize isKind : u.kind = kind at ran ⊢
  cases kind
  case number =>
    cases read : Binary64.ofText? u.lexeme with
    | none => simp [read] at ran
    | some value =>
      simp only [read, Except.ok.injEq] at ran ⊢
      subst ran
      exact ⟨_, rfl, rfl, (restReplaced.eq_of_length_le (Nat.le_refl _)).2⟩
  case lbracket =>
    have restEnds := ends.tail (by rw [isKind]; decide)
    cases close : next? .rbracket rest with
    | some next =>
      obtain ⟨afterClose, shorter⟩ := next
      simp only [close] at ran
      cases ran
      obtain ⟨afterClose', shorter', close', closeReplaced⟩ :=
        next?_replace restReplaced close (Nat.le_refl _)
      obtain ⟨-, rfl⟩ := closeReplaced.eq_of_length_le (Nat.le_refl _)
      simp only [close']
      exact ⟨_, rfl, rfl, rfl⟩
    | none =>
      simp only [close] at ran
      obtain ⟨first, firstRan, ran⟩ := Except.exists_of_bind_eq_ok ran
      obtain ⟨more, moreRan, ran⟩ := Except.exists_of_bind_eq_ok ran
      cases ran
      have := more.shorter
      have := first.shorter
      obtain ⟨-, firstEnds⟩ := (exprsConfined b).expression.rest restEnds firstRan
      obtain ⟨first', firstRan', sameFirst, firstReplaced⟩ :=
        (exprsConfined b).expression.replace (exprsSteady b).expression ih.expression restEnds
          firstRan restReplaced (by dsimp only; omega) fun _ => closes
      obtain ⟨more', moreRan', sameMore, moreRest⟩ :=
        listTail_closable ih _ _ first.rest firstEnds more moreRan firstReplaced closes
      simp only [next?_none_replace restReplaced close fun short => absurd short (by
        dsimp only at short; omega), bind, Except.bind, firstRan', moreRan']
      exact ⟨_, rfl, by simp [sameFirst, sameMore], moreRest⟩
  case lparen =>
    have restEnds := ends.tail (by rw [isKind]; decide)
    obtain ⟨inner, innerRan, ran⟩ := Except.exists_of_bind_eq_ok ran
    obtain ⟨⟨afterClose, closed⟩, closeRan, ran⟩ := Except.exists_of_bind_eq_ok ran
    cases ran
    obtain ⟨inner', innerRan', sameInner, innerReplaced⟩ :=
      (exprsConfined b).expression.replace (exprsSteady b).expression ih.expression restEnds
        innerRan restReplaced (by dsimp only; omega) fun _ => closes
    obtain ⟨afterClose', closed', closeRan', closeReplaced⟩ :=
      expect_replace innerReplaced closeRan (Nat.le_refl _)
    obtain ⟨-, rfl⟩ := closeReplaced.eq_of_length_le (Nat.le_refl _)
    simp only [bind, Except.bind, innerRan', closeRan']
    exact ⟨_, rfl, sameInner, rfl⟩
  case keyword word =>
    cases word
    case moi =>
      by_cases zero : b = 0
      · simp only [zero, ↓reduceIte] at ran
        cases ran
      simp only [zero, ↓reduceIte] at ran ⊢
      have restEnds := ends.tail (by rw [isKind]; decide)
      obtain ⟨className, nameRan, ran⟩ := Except.exists_of_bind_eq_ok ran
      obtain ⟨⟨afterOpen, opened⟩, openRan, ran⟩ := Except.exists_of_bind_eq_ok ran
      obtain ⟨args, argsRan, ran⟩ := Except.exists_of_bind_eq_ok ran
      cases ran
      have : args.rest.length < afterOpen.length := args.shorter
      obtain ⟨-, nameEnds⟩ := name_rest restEnds nameRan
      obtain ⟨-, openEnds⟩ := expect_rest nameEnds openRan
      obtain ⟨className', nameRan', sameName, nameReplaced⟩ :=
        name_replace restReplaced nameRan (by dsimp only; omega)
      obtain ⟨afterOpen', opened', openRan', openReplaced⟩ :=
        expect_replace nameReplaced openRan (by dsimp only; omega)
      obtain ⟨args', argsRan', sameArgs, argsRest⟩ :=
        ih.arguments afterOpen openEnds args argsRan openReplaced closes
      simp only [bind, Except.bind, nameRan', openRan', argsRan']
      exact ⟨_, rfl, by simp [sameName, sameArgs], argsRest⟩
    -- the other words are literals, or no expression at all
    all_goals
      cases ran <;> exact ⟨_, rfl, rfl, (restReplaced.eq_of_length_le (Nat.le_refl _)).2⟩
  -- the other tokens are a name or a string, or no expression at all
  all_goals
    cases ran <;> exact ⟨_, rfl, rfl, (restReplaced.eq_of_length_le (Nat.le_refl _)).2⟩

end Expressions

/-- With no budget left, no expression production reads anything. -/
theorem exprsClosable_zero : ExprsClosable 0 where
  expression _ _ _ ran := by rw [expression] at ran; cases ran
  assignment _ _ _ ran := by rw [assignment] at ran; cases ran
  binary _ _ _ _ ran := by rw [binary] at ran; cases ran
  binaryTail _ _ _ _ _ ran := by rw [binaryTail] at ran; cases ran
  unary _ _ _ ran := by rw [unary] at ran; cases ran
  suffixed _ _ _ ran := by rw [suffixed] at ran; cases ran
  suffixes _ _ _ _ ran := by rw [suffixes] at ran; cases ran
  arguments _ _ _ ran := by rw [arguments] at ran; cases ran
  listTail _ _ _ _ _ ran := by rw [listTail] at ran; cases ran
  primary _ _ _ ran := by rw [primary.eq_def] at ran; cases ran

theorem exprsClosable_succ {b : Nat} (ih : ExprsClosable b) : ExprsClosable (b + 1) where
  expression := expression_closable ih
  assignment := assignment_closable ih
  binary := binary_closable ih
  binaryTail := binaryTail_closable ih
  unary := unary_closable ih
  suffixed := suffixed_closable ih
  suffixes := suffixes_closable ih
  arguments := arguments_closable ih
  listTail := listTail_closable ih
  primary := primary_closable ih

/-- Every expression production reads the same with the tokens after what it read replaced by
closing tokens, whatever its budget. -/
theorem exprsClosable : ∀ b, ExprsClosable b
  | 0 => exprsClosable_zero
  | b + 1 => exprsClosable_succ (exprsClosable b)

/-- A production read after a token that `next?` consumes, and returned as the read from
before that token. -/
theorem keyword_closable {α β : Type}
    {f : (tokens : List Token) → Except ParseFailure (Parsed tokens α)} {kind : Token.Kind}
    {ts ts' tail : List Token} {shorter : tail.length < ts.length} {G : Parsed tail α → Parsed ts β}
    {p : Parsed ts β} (closable : ClosableAt closers f tail) (ends : EndsAtEof ts)
    (found : next? kind ts = some ⟨tail, shorter⟩) (ran : (f tail >>= fun q => pure (G q)) = .ok p)
    (rest : ∀ q, (G q).rest = q.rest) (replaced : Replaced p.rest k ts ts')
    (closes : Closes closers k) :
    ∃ tail' shorter', next? kind ts' = some ⟨tail', shorter'⟩ ∧ Replaced p.rest k tail tail' ∧
      p.rest.length < tail.length ∧
      ∀ {G' : Parsed tail' α → Parsed ts' β}, (∀ q, (G' q).rest = q.rest) →
        (∀ q q', q'.value = q.value → (G' q').value = (G q).value) →
        ∃ p', (f tail' >>= fun q => pure (G' q)) = .ok p' ∧ p'.value = p.value ∧ p'.rest = k := by
  obtain ⟨q, qRan, ran⟩ := Except.exists_of_bind_eq_ok ran
  have same := Except.ok.inj ran
  subst same
  have long : (G q).rest.length < tail.length := by
    rw [rest]
    exact q.shorter
  obtain ⟨-, tailEnds⟩ := next?_rest ends found
  obtain ⟨tail', shorter', found', tailReplaced⟩ := next?_replace replaced found long.le
  refine ⟨tail', shorter', found', tailReplaced, long, fun rest' value => ?_⟩
  rw [rest] at tailReplaced
  obtain ⟨q', qRan', sameQ, qRest⟩ := closable tailEnds q qRan tailReplaced closes
  rw [qRan']
  exact ⟨_, rfl, value q q' sameQ, by rw [rest', qRest]⟩

/-- Parameter names after a comma each, and the closing parenthesis, by induction on the tokens
left. -/
theorem moreParameters_closable : Closable closers moreParameters := by
  refine Closable.of_shorter fun ts loop ends p ran k ts' replaced closes => ?_
  rw [moreParameters] at ran
  cases comma : next? .comma ts with
  | some next =>
    obtain ⟨tail, shorter⟩ := next
    simp only [comma] at ran
    obtain ⟨first, firstRan, ran⟩ := Except.exists_of_bind_eq_ok ran
    obtain ⟨more, moreRan, ran⟩ := Except.exists_of_bind_eq_ok ran
    cases ran
    have := more.shorter
    have := first.shorter
    obtain ⟨-, tailEnds⟩ := next?_rest ends comma
    obtain ⟨-, firstEnds⟩ := name_rest tailEnds firstRan
    obtain ⟨tail', shorter', comma', tailReplaced⟩ :=
      next?_replace replaced comma (by dsimp only; omega)
    obtain ⟨first', firstRan', sameFirst, firstReplaced⟩ :=
      name_replace tailReplaced firstRan (by dsimp only; omega)
    obtain ⟨more', moreRan', sameMore, moreRest⟩ :=
      loop first.rest (by omega) firstEnds more moreRan firstReplaced closes
    rw [moreParameters, comma']
    simp only [bind, Except.bind, firstRan', moreRan']
    exact ⟨_, rfl, by simp [sameFirst, sameMore], moreRest⟩
  | none =>
    simp only [comma] at ran
    obtain ⟨⟨afterClose, closed⟩, closeRan, ran⟩ := Except.exists_of_bind_eq_ok ran
    cases ran
    obtain ⟨afterClose', closed', closeRan', closeReplaced⟩ :=
      expect_replace replaced closeRan (Nat.le_refl _)
    obtain ⟨-, rfl⟩ := closeReplaced.eq_of_length_le (Nat.le_refl _)
    rw [moreParameters, next?_none_replace replaced comma fun short => absurd short (by
      dsimp only; omega)]
    simp only [bind, Except.bind, closeRan']
    exact ⟨_, rfl, rfl, rfl⟩

theorem parameters_closable (budget : Nat) : Closable closers (parameters budget) := by
  intro ts ends p ran k ts' replaced closes
  unfold parameters at ran ⊢
  cases closed : next? .rparen ts with
  | some next =>
    obtain ⟨rest, shorter⟩ := next
    simp only [closed] at ran
    cases ran
    obtain ⟨rest', shorter', closed', restReplaced⟩ :=
      next?_replace replaced closed (Nat.le_refl _)
    obtain ⟨-, rfl⟩ := restReplaced.eq_of_length_le (Nat.le_refl _)
    simp only [closed']
    exact ⟨_, rfl, rfl, rfl⟩
  | none =>
    simp only [closed] at ran
    by_cases zero : budget = 0
    · simp only [zero, ↓reduceIte] at ran
      cases ran
    simp only [zero, ↓reduceIte] at ran
    obtain ⟨first, firstRan, ran⟩ := Except.exists_of_bind_eq_ok ran
    obtain ⟨more, moreRan, ran⟩ := Except.exists_of_bind_eq_ok ran
    cases ran
    have := more.shorter
    have := first.shorter
    obtain ⟨-, firstEnds⟩ := name_rest ends firstRan
    obtain ⟨first', firstRan', sameFirst, firstReplaced⟩ :=
      name_replace replaced firstRan (by dsimp only; omega)
    obtain ⟨more', moreRan', sameMore, moreRest⟩ :=
      moreParameters_closable first.rest firstEnds more moreRan firstReplaced closes
    simp only [next?_none_replace replaced closed fun short => absurd short (by dsimp only; omega),
      zero, ↓reduceIte, bind, Except.bind, firstRan', moreRan']
    exact ⟨_, rfl, by simp [sameFirst, sameMore], moreRest⟩

theorem variableDecl_closable : ∀ b, Closable statementClosers (variableDecl b)
  | 0 => fun _ _ _ ran => by rw [variableDecl] at ran; cases ran
  | b + 1 => by
    intro ts ends p ran k ts' replaced closes
    rw [variableDecl] at ran
    obtain ⟨n, nameRan, ran⟩ := Except.exists_of_bind_eq_ok ran
    obtain ⟨⟨afterEquals, equalsShorter⟩, equalsRan, ran⟩ := Except.exists_of_bind_eq_ok ran
    obtain ⟨value, valueRan, ran⟩ := Except.exists_of_bind_eq_ok ran
    cases ran
    have := value.shorter
    obtain ⟨-, nameEnds⟩ := name_rest ends nameRan
    obtain ⟨-, equalsEnds⟩ := expect_rest nameEnds equalsRan
    obtain ⟨n', nameRan', sameName, nameReplaced⟩ :=
      name_replace replaced nameRan (by dsimp only; omega)
    obtain ⟨afterEquals', equalsShorter', equalsRan', equalsReplaced⟩ :=
      expect_replace nameReplaced equalsRan (by dsimp only; omega)
    obtain ⟨value', valueRan', sameValue, valueRest⟩ :=
      (exprsClosable b).expression afterEquals equalsEnds value valueRan equalsReplaced
        closes.expression
    rw [variableDecl]
    simp only [bind, Except.bind, nameRan', equalsRan', valueRan']
    exact ⟨_, rfl, by simp [sameName, sameValue], valueRest⟩

/-- The invariant of the statement productions with budget `b`. -/
structure StmtsClosable (b : Nat) : Prop where
  declaration : Closable statementClosers (declaration b)
  routine : ∀ kind, Closable statementClosers (routine b kind)
  classDecl : Closable statementClosers (classDecl b)
  classBody : Closable statementClosers (classBody b)
  statement : Closable statementClosers (statement b)
  blockRest : Closable statementClosers (blockRest b)
  ifRest : Closable statementClosers (ifRest b)
  whileRest : Closable statementClosers (whileRest b)
  forEachRest : Closable statementClosers (forEachRest b)

section Statements

variable {b : Nat}

theorem statement_closable (ih : StmtsClosable b) : Closable statementClosers (statement (b + 1)) := by
  intro ts ends p ran k ts' replaced closes
  rw [statement] at ran ⊢
  -- the token that starts the statement decides its production
  cases isIf : next? (.keyword .neu) ts
  case some next =>
    obtain ⟨tail, shorter⟩ := next
    simp only [isIf] at ran
    obtain ⟨tail', shorter', isIf', -, -, follows⟩ :=
      keyword_closable (ih.ifRest tail) ends isIf ran (fun _ => rfl) replaced closes
    simp only [isIf']
    exact follows (fun _ => rfl) fun _ _ same => same
  simp only [isIf] at ran
  simp only [next?_none_replace replaced isIf fun _ => next?_of_closes closes (by decide)]
  cases isWhile : next? (.keyword .khi) ts
  case some next =>
    obtain ⟨tail, shorter⟩ := next
    simp only [isWhile] at ran
    obtain ⟨tail', shorter', isWhile', -, -, follows⟩ :=
      keyword_closable (ih.whileRest tail) ends isWhile ran (fun _ => rfl) replaced closes
    simp only [isWhile']
    exact follows (fun _ => rfl) fun _ _ same => same
  simp only [isWhile] at ran
  simp only [next?_none_replace replaced isWhile fun _ => next?_of_closes closes (by decide)]
  cases isForEach : next? (.keyword .voiMoi) ts
  case some next =>
    obtain ⟨tail, shorter⟩ := next
    simp only [isForEach] at ran
    obtain ⟨tail', shorter', isForEach', -, -, follows⟩ :=
      keyword_closable (ih.forEachRest tail) ends isForEach ran (fun _ => rfl) replaced closes
    simp only [isForEach']
    exact follows (fun _ => rfl) fun _ _ same => same
  simp only [isForEach] at ran
  simp only [next?_none_replace replaced isForEach fun _ => next?_of_closes closes (by decide)]
  cases isBlock : next? .lbrace ts
  case some next =>
    obtain ⟨tail, shorter⟩ := next
    simp only [isBlock] at ran
    obtain ⟨tail', shorter', isBlock', -, -, follows⟩ :=
      keyword_closable (ih.blockRest tail) ends isBlock ran (fun _ => rfl) replaced closes
    simp only [isBlock']
    exact follows (fun _ => rfl) fun _ _ same => by simp [Parsed.extend, Parsed.map, same]
  simp only [isBlock] at ran
  simp only [next?_none_replace replaced isBlock fun _ => next?_of_closes closes (by decide)]
  cases isReturn : next? (.keyword .traVe) ts
  case some next =>
    obtain ⟨tail, shorter⟩ := next
    simp only [isReturn] at ran
    cases closing : atCloseOrEnd .rbrace tail
    case true =>
      -- a bare return: only the keyword was read
      simp only [closing, ↓reduceIte, Except.ok.injEq] at ran
      subst ran
      obtain ⟨tail', shorter', isReturn', tailReplaced⟩ :=
        next?_replace replaced isReturn (Nat.le_refl _)
      obtain ⟨-, rfl⟩ := tailReplaced.eq_of_length_le (Nat.le_refl _)
      simp only [isReturn', atCloseOrEnd_of_closes closes, ↓reduceIte]
      exact ⟨_, rfl, rfl, rfl⟩
    simp only [closing, Bool.false_eq_true, ↓reduceIte] at ran
    cases b with
    | zero => cases ran
    | succ b =>
      obtain ⟨tail', shorter', isReturn', tailReplaced, long, follows⟩ :=
        keyword_closable ((exprsClosable b).expression tail) ends isReturn ran (fun _ => rfl)
          replaced closes.expression
      simp only [isReturn', atCloseOrEnd_replace tailReplaced long, closing, Bool.false_eq_true,
        ↓reduceIte]
      exact follows (fun _ => rfl) fun _ _ same => by simp [Parsed.extend, Parsed.map, same]
  -- an expression statement
  simp only [isReturn] at ran
  simp only [next?_none_replace replaced isReturn fun _ => next?_of_closes closes (by decide)]
  obtain ⟨value, valueRan, ran⟩ := Except.exists_of_bind_eq_ok ran
  cases ran
  obtain ⟨value', valueRan', sameValue, valueRest⟩ :=
    (exprsClosable b).expression ts ends value valueRan replaced closes.expression
  simp only [bind, Except.bind, valueRan']
  exact ⟨_, rfl, by simp [Parsed.map, sameValue], valueRest⟩

/-- The parenthesised test of a conditional or a loop reads alike in front of what follows it. -/
theorem condition_replace {problem : Problem} {ts ts' afterOpen afterClose rest : List Token}
    {opened : afterOpen.length < ts.length} {test : Parsed afterOpen Expr}
    {closed : afterClose.length < test.rest.length} (ends : EndsAtEof ts)
    (openRan : expect .lparen problem ts = .ok ⟨afterOpen, opened⟩)
    (testRan : expression b afterOpen = .ok test)
    (closeRan : expect .rparen .conditionClose test.rest = .ok ⟨afterClose, closed⟩)
    (replaced : Replaced rest k ts ts') (long : rest.length ≤ afterClose.length) :
    ∃ afterOpen' opened' test' afterClose' closed',
      expect .lparen problem ts' = .ok ⟨afterOpen', opened'⟩ ∧
      expression b afterOpen' = .ok test' ∧ test'.value = test.value ∧
      expect .rparen .conditionClose test'.rest = .ok ⟨afterClose', closed'⟩ ∧
      EndsAtEof afterClose ∧ Replaced rest k afterClose afterClose' := by
  have := test.shorter
  obtain ⟨-, openEnds⟩ := expect_rest ends openRan
  obtain ⟨-, testEnds⟩ := (exprsConfined b).expression.rest openEnds testRan
  obtain ⟨afterOpen', opened', openRan', openReplaced⟩ := expect_replace replaced openRan (by omega)
  obtain ⟨test', testRan', sameTest, testReplaced⟩ :=
    (exprsConfined b).expression.replace (exprsSteady b).expression (exprsClosable b).expression
      openEnds testRan openReplaced (by omega) fun _ => absurd long (by omega)
  obtain ⟨afterClose', closed', closeRan', closeReplaced⟩ :=
    expect_replace testReplaced closeRan long
  exact ⟨afterOpen', opened', test', afterClose', closed', openRan', testRan', sameTest, closeRan',
    (expect_rest testEnds closeRan).2, closeReplaced⟩

/-- The test and the consequent of a conditional read alike in front of what follows the
consequent. -/
theorem ifHead_replace (ih : StmtsClosable b) {ts ts' afterOpen afterClose rest : List Token}
    {opened : afterOpen.length < ts.length} {test : Parsed afterOpen Expr}
    {closed : afterClose.length < test.rest.length} {consequent : Parsed afterClose Stmt}
    (ends : EndsAtEof ts) (openRan : expect .lparen .ifOpen ts = .ok ⟨afterOpen, opened⟩)
    (testRan : expression b afterOpen = .ok test)
    (closeRan : expect .rparen .conditionClose test.rest = .ok ⟨afterClose, closed⟩)
    (consequentRan : statement b afterClose = .ok consequent) (replaced : Replaced rest k ts ts')
    (long : rest.length ≤ consequent.rest.length)
    (closes : consequent.rest.length = rest.length → Closes statementClosers k) :
    ∃ afterOpen' opened' test' afterClose' closed' consequent',
      expect .lparen .ifOpen ts' = .ok ⟨afterOpen', opened'⟩ ∧
      expression b afterOpen' = .ok test' ∧ test'.value = test.value ∧
      expect .rparen .conditionClose test'.rest = .ok ⟨afterClose', closed'⟩ ∧
      statement b afterClose' = .ok consequent' ∧ consequent'.value = consequent.value ∧
      EndsAtEof consequent.rest ∧ Replaced rest k consequent.rest consequent'.rest := by
  have := consequent.shorter
  obtain ⟨afterOpen', opened', test', afterClose', closed', openRan', testRan', sameTest, closeRan',
    closeEnds, closeReplaced⟩ := condition_replace ends openRan testRan closeRan replaced (by omega)
  obtain ⟨consequent', consequentRan', sameConsequent, consequentReplaced⟩ :=
    (stmtsConfined b).statement.replace (stmtsSteady b).statement ih.statement closeEnds
      consequentRan closeReplaced long closes
  exact ⟨afterOpen', opened', test', afterClose', closed', consequent', openRan', testRan', sameTest,
    closeRan', consequentRan', sameConsequent,
    ((stmtsConfined b).statement.rest closeEnds consequentRan).2, consequentReplaced⟩

/-- A conditional. What follows the consequent decides the branch; in each, the test and the
consequent read alike, and so does the alternative after them. -/
theorem ifRest_closable (ih : StmtsClosable b) : Closable statementClosers (ifRest (b + 1)) := by
  intro ts ends p ran k ts' replaced closes
  rw [ifRest] at ran
  obtain ⟨⟨afterOpen, opened⟩, openRan, ran⟩ := Except.exists_of_bind_eq_ok ran
  obtain ⟨test, testRan, ran⟩ := Except.exists_of_bind_eq_ok ran
  obtain ⟨⟨afterClose, closed⟩, closeRan, ran⟩ := Except.exists_of_bind_eq_ok ran
  obtain ⟨consequent, consequentRan, ran⟩ := Except.exists_of_bind_eq_ok ran
  have head := ifHead_replace ih ends openRan testRan closeRan consequentRan replaced
  rw [ifRest]
  cases isElse : next? (.keyword .nguocLai) consequent.rest with
  | some next =>
    obtain ⟨afterElse, elseShorter⟩ := next
    simp only [isElse] at ran
    cases isIf : next? (.keyword .neu) afterElse with
    | some next =>
      -- `ngược_lại nếu`: another conditional
      obtain ⟨afterIf, ifShorter⟩ := next
      simp only [isIf] at ran
      obtain ⟨alternate, alternateRan, ran⟩ := Except.exists_of_bind_eq_ok ran
      cases ran
      have := alternate.shorter
      obtain ⟨afterOpen', opened', test', afterClose', closed', consequent', openRan', testRan',
        sameTest, closeRan', consequentRan', sameConsequent, consequentEnds, consequentReplaced⟩ :=
        head (by dsimp only; omega) fun _ => closes
      obtain ⟨-, elseEnds⟩ := next?_rest consequentEnds isElse
      obtain ⟨-, ifEnds⟩ := next?_rest elseEnds isIf
      obtain ⟨afterElse', elseShorter', isElse', elseReplaced⟩ :=
        next?_replace consequentReplaced isElse (by dsimp only; omega)
      obtain ⟨afterIf', ifShorter', isIf', ifReplaced⟩ :=
        next?_replace elseReplaced isIf (by dsimp only; omega)
      obtain ⟨alternate', alternateRan', sameAlternate, alternateRest⟩ :=
        ih.ifRest afterIf ifEnds alternate alternateRan ifReplaced closes
      simp only [bind, Except.bind, openRan', testRan', closeRan', consequentRan', isElse', isIf',
        alternateRan']
      exact ⟨_, rfl, by simp [sameTest, sameConsequent, sameAlternate], alternateRest⟩
    | none =>
      -- `ngược_lại` and a statement
      simp only [isIf] at ran
      obtain ⟨alternate, alternateRan, ran⟩ := Except.exists_of_bind_eq_ok ran
      cases ran
      have := alternate.shorter
      obtain ⟨afterOpen', opened', test', afterClose', closed', consequent', openRan', testRan',
        sameTest, closeRan', consequentRan', sameConsequent, consequentEnds, consequentReplaced⟩ :=
        head (by dsimp only; omega) fun _ => closes
      obtain ⟨-, elseEnds⟩ := next?_rest consequentEnds isElse
      obtain ⟨afterElse', elseShorter', isElse', elseReplaced⟩ :=
        next?_replace consequentReplaced isElse (by dsimp only; omega)
      have isIf' := next?_none_replace elseReplaced isIf fun _ => next?_of_closes closes (by decide)
      obtain ⟨alternate', alternateRan', sameAlternate, alternateRest⟩ :=
        ih.statement afterElse elseEnds alternate alternateRan elseReplaced closes
      simp only [bind, Except.bind, openRan', testRan', closeRan', consequentRan', isElse', isIf',
        alternateRan']
      exact ⟨_, rfl, by simp [sameTest, sameConsequent, sameAlternate], alternateRest⟩
  | none =>
    simp only [isElse] at ran
    cases isElseIf : next? (.keyword .conNeu) consequent.rest with
    | some next =>
      -- `còn_nếu`: another conditional
      obtain ⟨afterIf, ifShorter⟩ := next
      simp only [isElseIf] at ran
      obtain ⟨alternate, alternateRan, ran⟩ := Except.exists_of_bind_eq_ok ran
      cases ran
      have := alternate.shorter
      obtain ⟨afterOpen', opened', test', afterClose', closed', consequent', openRan', testRan',
        sameTest, closeRan', consequentRan', sameConsequent, consequentEnds, consequentReplaced⟩ :=
        head (by dsimp only; omega) fun _ => closes
      obtain ⟨-, ifEnds⟩ := next?_rest consequentEnds isElseIf
      have isElse' := next?_none_replace consequentReplaced isElse fun short => absurd short (by
        dsimp only; omega)
      obtain ⟨afterIf', ifShorter', isElseIf', ifReplaced⟩ :=
        next?_replace consequentReplaced isElseIf (by dsimp only; omega)
      obtain ⟨alternate', alternateRan', sameAlternate, alternateRest⟩ :=
        ih.ifRest afterIf ifEnds alternate alternateRan ifReplaced closes
      simp only [bind, Except.bind, openRan', testRan', closeRan', consequentRan', isElse',
        isElseIf', alternateRan']
      exact ⟨_, rfl, by simp [sameTest, sameConsequent, sameAlternate], alternateRest⟩
    | none =>
      -- no alternative: the conditional ends with its consequent
      simp only [isElseIf] at ran
      cases ran
      obtain ⟨afterOpen', opened', test', afterClose', closed', consequent', openRan', testRan',
        sameTest, closeRan', consequentRan', sameConsequent, -, consequentReplaced⟩ :=
        head (Nat.le_refl _) fun _ => closes
      obtain ⟨-, rfl⟩ := consequentReplaced.eq_of_length_le (Nat.le_refl _)
      have isElse' := next?_none_replace consequentReplaced isElse fun _ =>
        next?_of_closes closes (by decide)
      have isElseIf' := next?_none_replace consequentReplaced isElseIf fun _ =>
        next?_of_closes closes (by decide)
      simp only [bind, Except.bind, openRan', testRan', closeRan', consequentRan', isElse',
        isElseIf']
      exact ⟨_, rfl, by simp [sameTest, sameConsequent], rfl⟩

theorem whileRest_closable (ih : StmtsClosable b) : Closable statementClosers (whileRest (b + 1)) := by
  intro ts ends p ran k ts' replaced closes
  rw [whileRest] at ran
  obtain ⟨⟨afterOpen, opened⟩, openRan, ran⟩ := Except.exists_of_bind_eq_ok ran
  obtain ⟨test, testRan, ran⟩ := Except.exists_of_bind_eq_ok ran
  obtain ⟨⟨afterClose, closed⟩, closeRan, ran⟩ := Except.exists_of_bind_eq_ok ran
  obtain ⟨body, bodyRan, ran⟩ := Except.exists_of_bind_eq_ok ran
  cases ran
  have := body.shorter
  obtain ⟨afterOpen', opened', test', afterClose', closed', openRan', testRan', sameTest, closeRan',
    closeEnds, closeReplaced⟩ :=
    condition_replace ends openRan testRan closeRan replaced (by dsimp only; omega)
  obtain ⟨body', bodyRan', sameBody, bodyRest⟩ :=
    ih.statement afterClose closeEnds body bodyRan closeReplaced closes
  rw [whileRest]
  simp only [bind, Except.bind, openRan', testRan', closeRan', bodyRan']
  exact ⟨_, rfl, by simp [sameTest, sameBody], bodyRest⟩

theorem forEachRest_closable (ih : StmtsClosable b) :
    Closable statementClosers (forEachRest (b + 1)) := by
  intro ts ends p ran k ts' replaced closes
  rw [forEachRest] at ran
  obtain ⟨⟨afterOpen, opened⟩, openRan, ran⟩ := Except.exists_of_bind_eq_ok ran
  by_cases zero : b = 0
  · simp only [zero, ↓reduceIte] at ran
    cases ran
  simp only [zero, ↓reduceIte] at ran
  obtain ⟨element, elementRan, ran⟩ := Except.exists_of_bind_eq_ok ran
  obtain ⟨⟨afterIn, inShorter⟩, inRan, ran⟩ := Except.exists_of_bind_eq_ok ran
  obtain ⟨collection, collectionRan, ran⟩ := Except.exists_of_bind_eq_ok ran
  obtain ⟨⟨afterClose, closed⟩, closeRan, ran⟩ := Except.exists_of_bind_eq_ok ran
  obtain ⟨body, bodyRan, ran⟩ := Except.exists_of_bind_eq_ok ran
  cases ran
  have : body.rest.length < afterClose.length := body.shorter
  have : collection.rest.length < afterIn.length := collection.shorter
  obtain ⟨-, openEnds⟩ := expect_rest ends openRan
  obtain ⟨-, elementEnds⟩ := name_rest openEnds elementRan
  obtain ⟨-, inEnds⟩ := expect_rest elementEnds inRan
  obtain ⟨-, collectionEnds⟩ := (exprsConfined b).expression.rest inEnds collectionRan
  obtain ⟨-, closeEnds⟩ := expect_rest collectionEnds closeRan
  obtain ⟨afterOpen', opened', openRan', openReplaced⟩ :=
    expect_replace replaced openRan (by dsimp only; have := element.shorter; omega)
  obtain ⟨element', elementRan', sameElement, elementReplaced⟩ :=
    name_replace openReplaced elementRan (by dsimp only; omega)
  obtain ⟨afterIn', inShorter', inRan', inReplaced⟩ :=
    expect_replace elementReplaced inRan (by dsimp only; omega)
  obtain ⟨collection', collectionRan', sameCollection, collectionReplaced⟩ :=
    (exprsConfined b).expression.replace (exprsSteady b).expression (exprsClosable b).expression
      inEnds collectionRan inReplaced (by dsimp only; omega) fun _ => closes.expression
  obtain ⟨afterClose', closed', closeRan', closeReplaced⟩ :=
    expect_replace collectionReplaced closeRan (by dsimp only; omega)
  obtain ⟨body', bodyRan', sameBody, bodyRest⟩ :=
    ih.statement afterClose closeEnds body bodyRan closeReplaced closes
  rw [forEachRest]
  simp only [openRan', zero, ↓reduceIte, bind, Except.bind, elementRan', inRan', collectionRan',
    closeRan', bodyRan']
  exact ⟨_, rfl, by simp [sameElement, sameCollection, sameBody], bodyRest⟩

/-- The declarations of a block and its closing brace, by induction on the tokens left. -/
theorem blockRest_closable (ih : StmtsClosable b) : Closable statementClosers (blockRest (b + 1)) := by
  refine Closable.of_shorter fun ts loop ends p ran k ts' replaced closes => ?_
  rw [blockRest] at ran
  cases closing : atCloseOrEnd .rbrace ts with
  | true =>
    simp only [closing, ↓reduceIte] at ran
    obtain ⟨⟨afterClose, closed⟩, closeRan, ran⟩ := Except.exists_of_bind_eq_ok ran
    cases ran
    obtain ⟨afterClose', closed', closeRan', closeReplaced⟩ :=
      expect_replace replaced closeRan (Nat.le_refl _)
    obtain ⟨-, rfl⟩ := closeReplaced.eq_of_length_le (Nat.le_refl _)
    rw [blockRest, atCloseOrEnd_replace replaced closed, closing]
    simp only [↓reduceIte, bind, Except.bind, closeRan']
    exact ⟨_, rfl, rfl, rfl⟩
  | false =>
    simp only [closing, Bool.false_eq_true, ↓reduceIte] at ran
    obtain ⟨first, firstRan, ran⟩ := Except.exists_of_bind_eq_ok ran
    obtain ⟨more, moreRan, ran⟩ := Except.exists_of_bind_eq_ok ran
    cases ran
    have := more.shorter
    have := first.shorter
    obtain ⟨-, firstEnds⟩ := (stmtsConfined b).declaration.rest ends firstRan
    obtain ⟨first', firstRan', sameFirst, firstReplaced⟩ :=
      (stmtsConfined b).declaration.replace (stmtsSteady b).declaration ih.declaration ends
        firstRan replaced (by dsimp only; omega) fun _ => closes
    obtain ⟨more', moreRan', sameMore, moreRest⟩ :=
      loop first.rest (by omega) firstEnds more moreRan firstReplaced closes
    rw [blockRest, atCloseOrEnd_replace replaced (by dsimp only; omega), closing]
    simp only [Bool.false_eq_true, ↓reduceIte, bind, Except.bind, firstRan', moreRan']
    exact ⟨_, rfl, by simp [sameFirst, sameMore], moreRest⟩

theorem routine_closable (ih : StmtsClosable b) (kind : RoutineKind) :
    Closable statementClosers (routine (b + 1) kind) := by
  intro ts ends p ran k ts' replaced closes
  rw [routine] at ran
  obtain ⟨n, nameRan, ran⟩ := Except.exists_of_bind_eq_ok ran
  obtain ⟨⟨afterOpen, opened⟩, openRan, ran⟩ := Except.exists_of_bind_eq_ok ran
  obtain ⟨params, paramsRan, ran⟩ := Except.exists_of_bind_eq_ok ran
  obtain ⟨⟨afterBrace, braced⟩, braceRan, ran⟩ := Except.exists_of_bind_eq_ok ran
  obtain ⟨body, bodyRan, ran⟩ := Except.exists_of_bind_eq_ok ran
  cases ran
  have := body.shorter
  have := params.shorter
  obtain ⟨-, nameEnds⟩ := name_rest ends nameRan
  obtain ⟨-, openEnds⟩ := expect_rest nameEnds openRan
  obtain ⟨-, paramsEnds⟩ := (parameters_confined b).rest openEnds paramsRan
  obtain ⟨-, braceEnds⟩ := expect_rest paramsEnds braceRan
  obtain ⟨n', nameRan', sameName, nameReplaced⟩ :=
    name_replace replaced nameRan (by dsimp only; omega)
  obtain ⟨afterOpen', opened', openRan', openReplaced⟩ :=
    expect_replace nameReplaced openRan (by dsimp only; omega)
  obtain ⟨params', paramsRan', sameParams, paramsReplaced⟩ :=
    (parameters_confined b).replace (parameters_steady b) (parameters_closable b) openEnds
      paramsRan openReplaced (by dsimp only; omega) fun _ => closes
  obtain ⟨afterBrace', braced', braceRan', braceReplaced⟩ :=
    expect_replace paramsReplaced braceRan (by dsimp only; omega)
  obtain ⟨body', bodyRan', sameBody, bodyRest⟩ :=
    ih.blockRest afterBrace braceEnds body bodyRan braceReplaced closes
  rw [routine]
  simp only [bind, Except.bind, nameRan', openRan', paramsRan', braceRan', bodyRan']
  exact ⟨_, rfl, by simp [sameName, sameParams, sameBody], bodyRest⟩

/-- The methods of a class body and its closing brace, by induction on the tokens left. -/
theorem classBody_closable (ih : StmtsClosable b) : Closable statementClosers (classBody (b + 1)) := by
  refine Closable.of_shorter fun ts loop ends p ran k ts' replaced closes => ?_
  rw [classBody] at ran
  cases closing : atCloseOrEnd .rbrace ts with
  | true =>
    simp only [closing, ↓reduceIte] at ran
    obtain ⟨⟨afterClose, closed⟩, closeRan, ran⟩ := Except.exists_of_bind_eq_ok ran
    cases ran
    obtain ⟨afterClose', closed', closeRan', closeReplaced⟩ :=
      expect_replace replaced closeRan (Nat.le_refl _)
    obtain ⟨-, rfl⟩ := closeReplaced.eq_of_length_le (Nat.le_refl _)
    rw [classBody, atCloseOrEnd_replace replaced closed, closing]
    simp only [↓reduceIte, bind, Except.bind, closeRan']
    exact ⟨_, rfl, rfl, rfl⟩
  | false =>
    simp only [closing, Bool.false_eq_true, ↓reduceIte] at ran
    cases isMethod : next? (.keyword .ham) ts with
    | none => simp [isMethod, fail] at ran
    | some next =>
      obtain ⟨tail, shorter⟩ := next
      simp only [isMethod] at ran
      obtain ⟨method, methodRan, ran⟩ := Except.exists_of_bind_eq_ok ran
      obtain ⟨more, moreRan, ran⟩ := Except.exists_of_bind_eq_ok ran
      cases ran
      have := more.shorter
      have := method.shorter
      obtain ⟨-, tailEnds⟩ := next?_rest ends isMethod
      obtain ⟨-, methodEnds⟩ := ((stmtsConfined b).routine .method).rest tailEnds methodRan
      obtain ⟨tail', shorter', isMethod', tailReplaced⟩ :=
        next?_replace replaced isMethod (by dsimp only; omega)
      obtain ⟨method', methodRan', sameMethod, methodReplaced⟩ :=
        ((stmtsConfined b).routine .method).replace ((stmtsSteady b).routine .method)
          (ih.routine .method) tailEnds methodRan tailReplaced (by dsimp only; omega) fun _ => closes
      obtain ⟨more', moreRan', sameMore, moreRest⟩ :=
        loop method.rest (by omega) methodEnds more moreRan methodReplaced closes
      rw [classBody, atCloseOrEnd_replace replaced (by dsimp only; omega), closing]
      simp only [Bool.false_eq_true, ↓reduceIte, isMethod', bind, Except.bind, methodRan',
        moreRan']
      exact ⟨_, rfl, by simp [sameMethod, sameMore], moreRest⟩

theorem classDecl_closable (ih : StmtsClosable b) : Closable statementClosers (classDecl (b + 1)) := by
  intro ts ends p ran k ts' replaced closes
  rw [classDecl] at ran
  by_cases zero : b = 0
  · simp only [zero, ↓reduceIte] at ran
    cases ran
  simp only [zero, ↓reduceIte] at ran
  obtain ⟨n, nameRan, ran⟩ := Except.exists_of_bind_eq_ok ran
  obtain ⟨⟨afterBrace, braced⟩, braceRan, ran⟩ := Except.exists_of_bind_eq_ok ran
  obtain ⟨methods, methodsRan, ran⟩ := Except.exists_of_bind_eq_ok ran
  cases ran
  have : methods.rest.length < afterBrace.length := methods.shorter
  obtain ⟨-, nameEnds⟩ := name_rest ends nameRan
  obtain ⟨-, braceEnds⟩ := expect_rest nameEnds braceRan
  obtain ⟨n', nameRan', sameName, nameReplaced⟩ :=
    name_replace replaced nameRan (by dsimp only; omega)
  obtain ⟨afterBrace', braced', braceRan', braceReplaced⟩ :=
    expect_replace nameReplaced braceRan (by dsimp only; omega)
  obtain ⟨methods', methodsRan', sameMethods, methodsRest⟩ :=
    classBody_closable ih afterBrace braceEnds methods methodsRan braceReplaced closes
  rw [classDecl]
  simp only [zero, ↓reduceIte, bind, Except.bind, nameRan', braceRan', methodsRan']
  exact ⟨_, rfl, by simp [sameName, sameMethods], methodsRest⟩

theorem declaration_closable (ih : StmtsClosable b) :
    Closable statementClosers (declaration (b + 1)) := by
  intro ts ends p ran k ts' replaced closes
  rw [declaration] at ran ⊢
  -- the keyword that starts the declaration decides its production
  cases isVariable : next? (.keyword .cho) ts
  case some next =>
    obtain ⟨tail, shorter⟩ := next
    simp only [isVariable] at ran
    obtain ⟨tail', shorter', isVariable', -, -, follows⟩ :=
      keyword_closable (variableDecl_closable b tail) ends isVariable ran (fun _ => rfl) replaced
        closes
    simp only [isVariable']
    exact follows (fun _ => rfl) fun _ _ same => same
  simp only [isVariable] at ran
  simp only [next?_none_replace replaced isVariable fun _ => next?_of_closes closes (by decide)]
  cases isFunction : next? (.keyword .ham) ts
  case some next =>
    obtain ⟨tail, shorter⟩ := next
    simp only [isFunction] at ran
    obtain ⟨tail', shorter', isFunction', -, -, follows⟩ :=
      keyword_closable (ih.routine .function tail) ends isFunction ran (fun _ => rfl) replaced
        closes
    simp only [isFunction']
    exact follows (fun _ => rfl) fun _ _ same => by simp [Parsed.extend, Parsed.map, same]
  simp only [isFunction] at ran
  simp only [next?_none_replace replaced isFunction fun _ => next?_of_closes closes (by decide)]
  cases isClass : next? (.keyword .lop) ts
  case some next =>
    obtain ⟨tail, shorter⟩ := next
    simp only [isClass] at ran
    obtain ⟨tail', shorter', isClass', -, -, follows⟩ :=
      keyword_closable (ih.classDecl tail) ends isClass ran (fun _ => rfl) replaced closes
    simp only [isClass']
    exact follows (fun _ => rfl) fun _ _ same => same
  simp only [isClass] at ran
  simp only [next?_none_replace replaced isClass fun _ => next?_of_closes closes (by decide)]
  exact ih.statement ts ends p ran replaced closes

end Statements

/-- With no budget left, no statement production reads anything. -/
theorem stmtsClosable_zero : StmtsClosable 0 where
  declaration _ _ _ ran := by rw [declaration] at ran; cases ran
  routine _ _ _ _ ran := by rw [routine] at ran; cases ran
  classDecl _ _ _ ran := by rw [classDecl] at ran; cases ran
  classBody _ _ _ ran := by rw [classBody] at ran; cases ran
  statement _ _ _ ran := by rw [statement] at ran; cases ran
  blockRest _ _ _ ran := by rw [blockRest] at ran; cases ran
  ifRest _ _ _ ran := by rw [ifRest] at ran; cases ran
  whileRest _ _ _ ran := by rw [whileRest] at ran; cases ran
  forEachRest _ _ _ ran := by rw [forEachRest] at ran; cases ran

theorem stmtsClosable_succ {b : Nat} (ih : StmtsClosable b) : StmtsClosable (b + 1) where
  declaration := declaration_closable ih
  routine := routine_closable ih
  classDecl := classDecl_closable ih
  classBody := classBody_closable ih
  statement := statement_closable ih
  blockRest := blockRest_closable ih
  ifRest := ifRest_closable ih
  whileRest := whileRest_closable ih
  forEachRest := forEachRest_closable ih

/-- Every statement production reads the same with the tokens after what it read replaced by a
closing brace or the end of input, whatever its budget. -/
theorem stmtsClosable : ∀ b, StmtsClosable b
  | 0 => stmtsClosable_zero
  | b + 1 => stmtsClosable_succ (stmtsClosable b)

end Parser

end VieCompiler
