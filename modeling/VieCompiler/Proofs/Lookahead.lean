import VieCompiler.Proofs.Nesting

/-!
# What the parser reads does not depend on what follows

Every production of the parser looks at one token at a time and never past the token it stops
at. A read that stops at or before a token `t` therefore reads the same from every list that
agrees with its input up to `t`. `Cut t post post' ts ts'` says that `ts` and `ts'` agree up to
and including `t`, after which `ts` goes on with `post` and `ts'` with `post'`;
`Parser.Steady f` says that a read of `f` from `ts` that leaves `t` in front of it is also what
`f` reads from `ts'`, with the same value and tokens after it that are cut alike.

As in `VieCompiler.Proofs.Confinement`, the invariant of the productions at budget `b`
(`Parser.ExprsSteady`, `Parser.StmtsSteady`) gives the one at `b + 1`, production by production,
and the loops of the grammar go by induction on the tokens left. The proofs of the loops read
each turn's value and tokens first and the cut after: only once the whole read is known is it
clear that every step before its end stopped short of `t`.
-/

namespace VieCompiler

/-- `ts` and `ts'` agree up to and including the token `t`, after which `ts` goes on with
`post` and `ts'` with `post'`. -/
def Cut (t : Token) (post post' ts ts' : List Token) : Prop :=
  ∃ pre, ts = pre ++ t :: post ∧ ts' = pre ++ t :: post'

namespace Cut

variable {t u : Token} {post post' ts ts' rest : List Token}

theorem append (front : List Token) (cut : Cut t post post' ts ts') :
    Cut t post post' (front ++ ts) (front ++ ts') := by
  obtain ⟨pre, rfl, rfl⟩ := cut
  exact ⟨front ++ pre, by simp, by simp⟩

/-- Where the cut is fixes the other side. -/
theorem eq_of_split {pre : List Token} (cut : Cut t post post' (pre ++ t :: post) ts') :
    ts' = pre ++ t :: post' := by
  obtain ⟨pre₂, split, rfl⟩ := cut
  rw [List.append_cancel_right split]

/-- Cut lists start with the same token. -/
theorem head (cut : Cut t post post' ts ts') :
    ∃ u rest rest', ts = u :: rest ∧ ts' = u :: rest' := by
  obtain ⟨pre, rfl, rfl⟩ := cut
  cases pre with
  | nil => exact ⟨t, post, post', rfl, rfl⟩
  | cons v pre => exact ⟨v, _, _, rfl, rfl⟩

/-- Past their first token, unless it is `t`, cut lists are cut alike. -/
theorem tail (cut : Cut t post post' (u :: rest) ts') (long : post.length < rest.length) :
    ∃ rest', ts' = u :: rest' ∧ Cut t post post' rest rest' := by
  obtain ⟨pre, split, rfl⟩ := cut
  cases pre with
  | nil =>
    obtain ⟨-, rfl⟩ := List.cons.inj split
    omega
  | cons v pre =>
    obtain ⟨rfl, rfl⟩ := List.cons.inj split
    exact ⟨pre ++ t :: post', rfl, pre, rfl, rfl⟩

theorem peek_eq (cut : Cut t post post' ts ts') : Parser.peek ts' = Parser.peek ts := by
  obtain ⟨u, rest, rest', rfl, rfl⟩ := cut.head
  rfl

end Cut

namespace Parser

section Tokens

variable {t : Token} {post post' ts ts' : List Token}

theorem next?_cut_none {kind : Token.Kind} (cut : Cut t post post' ts ts')
    (missing : next? kind ts = none) : next? kind ts' = none := by
  obtain ⟨u, rest, rest', rfl, rfl⟩ := cut.head
  simpa [next?] using missing

theorem next?_cut {kind : Token.Kind} (cut : Cut t post post' ts ts') {tail : List Token}
    {shorter : tail.length < ts.length} (found : next? kind ts = some ⟨tail, shorter⟩)
    (long : post.length < tail.length) :
    ∃ tail' shorter', next? kind ts' = some ⟨tail', shorter'⟩ ∧ Cut t post post' tail tail' := by
  obtain _ | ⟨u, rest⟩ := ts
  · cases found
  by_cases fits : u.kind = kind ∧ u.kind ≠ .eof
  · simp only [next?, if_pos fits] at found
    cases found
    obtain ⟨rest', rfl, restCut⟩ := cut.tail long
    exact ⟨rest', Nat.lt_succ_self _, by simp only [next?, if_pos fits], restCut⟩
  · simp [next?, if_neg fits] at found

theorem expect_cut {kind : Token.Kind} {problem : Problem} (cut : Cut t post post' ts ts')
    {tail : List Token} {shorter : tail.length < ts.length}
    (found : expect kind problem ts = .ok ⟨tail, shorter⟩) (long : post.length < tail.length) :
    ∃ tail' shorter', expect kind problem ts' = .ok ⟨tail', shorter'⟩ ∧
      Cut t post post' tail tail' := by
  unfold expect at found ⊢
  cases consumed : next? kind ts with
  | none =>
    rw [consumed] at found
    cases found
  | some next =>
    rw [consumed] at found
    cases found
    obtain ⟨tail', shorter', found', tailCut⟩ := next?_cut cut consumed long
    exact ⟨tail', shorter', by rw [found'], tailCut⟩

theorem next?_isSome_cut {kind : Token.Kind} (cut : Cut t post post' ts ts') :
    (next? kind ts').isSome = (next? kind ts).isSome := by
  obtain ⟨u, rest, rest', rfl, rfl⟩ := cut.head
  by_cases fits : u.kind = kind ∧ u.kind ≠ .eof
  · simp only [next?, if_pos fits, Option.isSome_some]
  · simp only [next?, if_neg fits, Option.isSome_none]

theorem atEnd_cut (cut : Cut t post post' ts ts') : atEnd ts' = atEnd ts := by
  simp only [atEnd, cut.peek_eq]

theorem atCloseOrEnd_cut {kind : Token.Kind} (cut : Cut t post post' ts ts') :
    atCloseOrEnd kind ts' = atCloseOrEnd kind ts := by
  simp only [atCloseOrEnd, next?_isSome_cut cut, atEnd_cut cut]

theorem operator?_cut_none {level : Nat} (cut : Cut t post post' ts ts')
    (missing : operator? level ts = none) : operator? level ts' = none := by
  obtain ⟨u, rest, rest', rfl, rfl⟩ := cut.head
  simp only [operator?] at missing ⊢
  by_cases isEnd : u.kind = .eof
  · simp only [isEnd, ↓reduceIte]
  · simpa only [isEnd, ↓reduceIte, Option.map_eq_none_iff] using missing

theorem operator?_cut {level : Nat} (cut : Cut t post post' ts ts') {op : BinaryOp}
    {tail : List Token} {shorter : tail.length < ts.length}
    (found : operator? level ts = some (op, ⟨tail, shorter⟩)) (long : post.length < tail.length) :
    ∃ tail' shorter', operator? level ts' = some (op, ⟨tail', shorter'⟩) ∧
      Cut t post post' tail tail' := by
  obtain _ | ⟨u, rest⟩ := ts
  · cases found
  by_cases isEnd : u.kind = .eof
  · simp [operator?, isEnd] at found
  simp only [operator?, if_neg isEnd] at found
  obtain ⟨entry, entryFound, same⟩ := Option.map_eq_some_iff.mp found
  cases same
  obtain ⟨rest', rfl, restCut⟩ := cut.tail long
  exact ⟨rest', Nat.lt_succ_self _, by simp only [operator?, if_neg isEnd, entryFound]; rfl,
    restCut⟩

end Tokens

/-- Two reads from the two sides of a cut agree: the same value, and tokens after it that are
cut alike. -/
structure Parsed.CutAlike {α : Type} {ts ts' : List Token} (t : Token) (post post' : List Token)
    (p : Parsed ts α) (q : Parsed ts' α) : Prop where
  value : q.value = p.value
  rest : Cut t post post' p.rest q.rest

/-- Two runs of a loop from the two sides of a cut agree. -/
structure Continued.CutAlike {α : Type} {ts ts' : List Token} (t : Token) (post post' : List Token)
    (p : Continued ts α) (q : Continued ts' α) : Prop where
  value : q.value = p.value
  rest : Cut t post post' p.rest q.rest

section Loops

variable {α : Type}

/-- A read of `f` from `ts` that stops at or before the token `t` of a cut is also what `f` reads
from the other side of the cut. -/
def SteadyAt (f : (tokens : List Token) → Except ParseFailure (Parsed tokens α))
    (ts : List Token) : Prop :=
  ∀ (p : Parsed ts α) {t post post' ts'}, Cut t post post' ts ts' → f ts = .ok p →
    post.length < p.rest.length → ∃ q, f ts' = .ok q ∧ Parsed.CutAlike t post post' p q

/-- What `f` reads does not depend on the tokens after the one it stops at. -/
def Steady (f : (tokens : List Token) → Except ParseFailure (Parsed tokens α)) : Prop :=
  ∀ ts, SteadyAt f ts

/-- A run of the loop `f` from `ts` that stops at or before the token `t` of a cut is also its
run from the other side of the cut. -/
def SteadyFromAt (f : α → (tokens : List Token) → Except ParseFailure (Continued tokens α))
    (ts : List Token) : Prop :=
  ∀ start (p : Continued ts α) {t post post' ts'}, Cut t post post' ts ts' → f start ts = .ok p →
    post.length < p.rest.length → ∃ q, f start ts' = .ok q ∧ Continued.CutAlike t post post' p q

def SteadyFrom (f : α → (tokens : List Token) → Except ParseFailure (Continued tokens α)) :
    Prop :=
  ∀ ts, SteadyFromAt f ts

/-- A loop of the grammar is steady when each of its turns is, given that the rest of the
loop, on fewer tokens, is. -/
theorem Steady.of_shorter {f : (tokens : List Token) → Except ParseFailure (Parsed tokens α)}
    (step : ∀ ts, (∀ shorter : List Token, shorter.length < ts.length → SteadyAt f shorter) →
      SteadyAt f ts) : Steady f := by
  intro ts
  induction count : ts.length using Nat.strongRecOn generalizing ts with
  | ind n ih => exact step ts fun shorter fewer => ih _ (count ▸ fewer) shorter rfl

theorem SteadyFrom.of_shorter
    {f : α → (tokens : List Token) → Except ParseFailure (Continued tokens α)}
    (step : ∀ ts, (∀ shorter : List Token, shorter.length < ts.length →
      SteadyFromAt f shorter) → SteadyFromAt f ts) : SteadyFrom f := by
  intro ts
  induction count : ts.length using Nat.strongRecOn generalizing ts with
  | ind n ih => exact step ts fun shorter fewer => ih _ (count ▸ fewer) shorter rfl

end Loops

/-- The invariant of the expression productions with budget `b`. -/
structure ExprsSteady (b : Nat) : Prop where
  expression : Steady (expression b)
  assignment : Steady (assignment b)
  binary : ∀ level, Steady (binary b level)
  binaryTail : ∀ level, SteadyFrom (binaryTail b level)
  unary : Steady (unary b)
  suffixed : Steady (suffixed b)
  suffixes : SteadyFrom (suffixes b)
  arguments : Steady (arguments b)
  listTail : ∀ close problem, Steady (listTail b close problem)
  primary : Steady (primary b)

theorem name_steady (problem : Problem) : Steady (name problem) := by
  intro ts p t post post' ts' cut ran long
  obtain _ | ⟨u, rest⟩ := ts
  · cases ran
  by_cases isName : u.kind = .ident
  · simp only [name, if_pos isName] at ran
    have same := Except.ok.inj ran
    subst same
    obtain ⟨rest', rfl, restCut⟩ := cut.tail long
    exact ⟨_, by simp only [name, if_pos isName]; rfl, rfl, by exact restCut⟩
  · simp only [name, if_neg isName] at ran
    cases ran

/-- A production read after a token that `next?` consumes, and returned as the read from
before that token. -/
theorem keyword_steady {α β : Type} {f : (tokens : List Token) → Except ParseFailure (Parsed tokens α)}
    {kind : Token.Kind} {t : Token} {post post' ts ts' tail : List Token}
    {shorter : tail.length < ts.length} {G : Parsed tail α → Parsed ts β} {p : Parsed ts β}
    (steady : SteadyAt f tail) (cut : Cut t post post' ts ts')
    (found : next? kind ts = some ⟨tail, shorter⟩) (ran : (f tail >>= fun q => pure (G q)) = .ok p)
    (long : post.length < p.rest.length) (rest : ∀ q, (G q).rest = q.rest) :
    ∃ tail' shorter', next? kind ts' = some ⟨tail', shorter'⟩ ∧ Cut t post post' tail tail' ∧
      ∀ {G' : Parsed tail' α → Parsed ts' β}, (∀ q, (G' q).rest = q.rest) →
        (∀ q q', q'.value = q.value → (G' q').value = (G q).value) →
        ∃ p', (f tail' >>= fun q => pure (G' q)) = .ok p' ∧ Parsed.CutAlike t post post' p p' := by
  obtain ⟨q, qRan, ran⟩ := Except.exists_of_bind_eq_ok ran
  have same := Except.ok.inj ran
  subst same
  rw [rest] at long
  obtain ⟨tail', shorter', found', tailCut⟩ := next?_cut cut found (by have := q.shorter; omega)
  obtain ⟨q', qRan', sameQ⟩ := steady q tailCut qRan long
  refine ⟨tail', shorter', found', tailCut, fun rest' value => ?_⟩
  rw [qRan']
  exact ⟨_, rfl, value q q' sameQ.value, by rw [rest, rest']; exact sameQ.rest⟩

section Expressions

variable {b : Nat}

theorem expression_steady (ih : ExprsSteady b) : Steady (expression (b + 1)) := by
  intro ts p t post post' ts' cut ran long
  rw [expression] at ran ⊢
  exact ih.assignment ts p cut ran long

theorem assignment_steady (ih : ExprsSteady b) : Steady (assignment (b + 1)) := by
  intro ts p t post post' ts' cut ran long
  rw [assignment] at ran
  obtain ⟨left, leftRan, ran⟩ := Except.exists_of_bind_eq_ok ran
  cases found : next? .equal left.rest with
  | some next =>
    obtain ⟨afterEquals, shorter⟩ := next
    simp only [found] at ran
    obtain ⟨value, valueRan, ran⟩ := Except.exists_of_bind_eq_ok ran
    -- an invalid target fails, so the assignment was read
    by_cases isTarget : left.value.isTarget = true
    · rw [if_pos isTarget] at ran
      have same := Except.ok.inj ran
      subst same
      dsimp only at long
      have := value.shorter
      obtain ⟨left', leftRan', sameLeft⟩ := ih.binary 0 ts left cut leftRan (by omega)
      obtain ⟨afterEquals', shorter', found', equalsCut⟩ := next?_cut sameLeft.rest found (by omega)
      obtain ⟨value', valueRan', sameValue⟩ :=
        ih.assignment afterEquals value equalsCut valueRan long
      rw [assignment, leftRan']
      simp only [bind, Except.bind, found', valueRan', sameLeft.value, isTarget, if_true]
      exact ⟨_, rfl, by rw [sameValue.value], sameValue.rest⟩
    · rw [if_neg isTarget] at ran
      cases ran
  | none =>
    simp only [found] at ran
    have same := Except.ok.inj ran
    subst same
    obtain ⟨left', leftRan', sameLeft⟩ := ih.binary 0 ts left cut leftRan long
    rw [assignment, leftRan']
    simp only [bind, Except.bind, next?_cut_none sameLeft.rest found]
    exact ⟨_, rfl, sameLeft⟩

/-- An operand of the binary level `level`: of the next level, or unary at the tightest. -/
theorem operand_steady (ih : ExprsSteady b) (level : Nat) :
    Steady fun ts => if level < tightestLevel then binary b (level + 1) ts else unary b ts := by
  by_cases tighter : level < tightestLevel
  · simp only [tighter, ↓reduceIte]
    exact ih.binary (level + 1)
  · simp only [tighter, ↓reduceIte]
    exact ih.unary

/-- The operators and operands after the first operand of a binary level, by induction on the
tokens left. -/
theorem binaryTail_steady (ih : ExprsSteady b) (level : Nat) :
    SteadyFrom (binaryTail (b + 1) level) := by
  refine SteadyFrom.of_shorter fun ts loop start p t post post' ts' cut ran long => ?_
  rw [binaryTail] at ran
  cases found : operator? level ts with
  | some next =>
    obtain ⟨op, tail, shorter⟩ := next
    simp only [found] at ran
    have operand := operand_steady ih level tail
    by_cases tighter : level < tightestLevel <;>
      simp only [tighter, ↓reduceIte] at ran operand ⊢
    all_goals
      obtain ⟨right, rightRan, ran⟩ := Except.exists_of_bind_eq_ok ran
      obtain ⟨whole, wholeRan, ran⟩ := Except.exists_of_bind_eq_ok ran
      have same := Except.ok.inj ran
      subst same
      have := whole.noLonger
      have := right.shorter
      dsimp only at long
      obtain ⟨tail', shorter', found', opCut⟩ := operator?_cut cut found (by omega)
      obtain ⟨right', rightRan', sameRight⟩ := operand right opCut rightRan (by omega)
      obtain ⟨whole', wholeRan', sameWhole⟩ :=
        loop right.rest (by omega) _ whole sameRight.rest wholeRan long
      rw [binaryTail, found']
      simp only [tighter, ↓reduceIte, bind, Except.bind, rightRan', sameRight.value, wholeRan']
      exact ⟨_, rfl, sameWhole.value, sameWhole.rest⟩
  | none =>
    simp only [found] at ran
    have same := Except.ok.inj ran
    subst same
    exact ⟨_, by rw [binaryTail, operator?_cut_none cut found], rfl, cut⟩

theorem binary_steady (ih : ExprsSteady b) (level : Nat) : Steady (binary (b + 1) level) := by
  intro ts p t post post' ts' cut ran long
  rw [binary] at ran
  have operand := operand_steady ih level ts
  by_cases tighter : level < tightestLevel <;> simp only [tighter, ↓reduceIte] at ran operand
  all_goals
    obtain ⟨first, firstRan, ran⟩ := Except.exists_of_bind_eq_ok ran
    obtain ⟨whole, wholeRan, ran⟩ := Except.exists_of_bind_eq_ok ran
    have same := Except.ok.inj ran
    subst same
    have := whole.noLonger
    dsimp only at long
    obtain ⟨first', firstRan', sameFirst⟩ := operand first cut firstRan (by omega)
    obtain ⟨whole', wholeRan', sameWhole⟩ :=
      binaryTail_steady ih level first.rest first.value whole sameFirst.rest wholeRan long
    rw [binary]
    simp only [tighter, ↓reduceIte, bind, Except.bind, firstRan', sameFirst.value, wholeRan']
    exact ⟨_, rfl, sameWhole.value, sameWhole.rest⟩

theorem unary_steady (ih : ExprsSteady b) : Steady (unary (b + 1)) := by
  intro ts p t post post' ts' cut ran long
  rw [unary] at ran
  cases found : next? .minus ts with
  | some next =>
    obtain ⟨tail, shorter⟩ := next
    simp only [found] at ran
    obtain ⟨operand, operandRan, ran⟩ := Except.exists_of_bind_eq_ok ran
    have same := Except.ok.inj ran
    subst same
    dsimp only [Parsed.extend, Parsed.map] at long
    obtain ⟨tail', shorter', found', minusCut⟩ :=
      next?_cut cut found (by have := operand.shorter; omega)
    obtain ⟨operand', operandRan', sameOperand⟩ :=
      ih.unary tail operand minusCut operandRan long
    rw [unary]
    simp only [found', bind, Except.bind, operandRan']
    exact ⟨_, rfl, by simp [Parsed.extend, Parsed.map, sameOperand.value], sameOperand.rest⟩
  | none =>
    simp only [found] at ran
    rw [unary]
    simp only [next?_cut_none cut found]
    exact ih.suffixed ts p cut ran long

/-- Calls, index accesses and field accesses after an expression, by induction on the tokens
left. -/
theorem suffixes_steady (ih : ExprsSteady b) : SteadyFrom (suffixes (b + 1)) := by
  refine SteadyFrom.of_shorter fun ts loop target p t post post' ts' cut ran long => ?_
  rw [suffixes] at ran
  cases call : next? .lparen ts
  case some next =>
    obtain ⟨tail, shorter⟩ := next
    simp only [call] at ran
    obtain ⟨args, argsRan, ran⟩ := Except.exists_of_bind_eq_ok ran
    obtain ⟨whole, wholeRan, ran⟩ := Except.exists_of_bind_eq_ok ran
    have same := Except.ok.inj ran
    subst same
    have := whole.noLonger
    have := args.shorter
    dsimp only at long
    obtain ⟨tail', shorter', found', openCut⟩ := next?_cut cut call (by omega)
    obtain ⟨args', argsRan', sameArgs⟩ := ih.arguments tail args openCut argsRan (by omega)
    obtain ⟨whole', wholeRan', sameWhole⟩ :=
      loop args.rest (by omega) _ whole sameArgs.rest wholeRan long
    rw [suffixes]
    simp only [found', bind, Except.bind, argsRan', sameArgs.value, wholeRan']
    exact ⟨_, rfl, sameWhole.value, sameWhole.rest⟩
  simp only [call] at ran
  cases index : next? .lbracket ts
  case some next =>
    obtain ⟨tail, shorter⟩ := next
    simp only [index] at ran
    obtain ⟨key, keyRan, ran⟩ := Except.exists_of_bind_eq_ok ran
    obtain ⟨⟨afterClose, closed⟩, closeRan, ran⟩ := Except.exists_of_bind_eq_ok ran
    obtain ⟨whole, wholeRan, ran⟩ := Except.exists_of_bind_eq_ok ran
    have same := Except.ok.inj ran
    subst same
    have : whole.rest.length ≤ afterClose.length := whole.noLonger
    have := key.shorter
    dsimp only at long
    obtain ⟨tail', shorter', found', openCut⟩ := next?_cut cut index (by omega)
    obtain ⟨key', keyRan', sameKey⟩ := ih.expression tail key openCut keyRan (by omega)
    obtain ⟨afterClose', closed', closeRan', closeCut⟩ :=
      expect_cut sameKey.rest closeRan (by omega)
    obtain ⟨whole', wholeRan', sameWhole⟩ :=
      loop afterClose (by omega) _ whole closeCut wholeRan long
    rw [suffixes]
    simp only [next?_cut_none cut call, found', bind, Except.bind, keyRan', closeRan',
      sameKey.value, wholeRan']
    exact ⟨_, rfl, sameWhole.value, sameWhole.rest⟩
  simp only [index] at ran
  cases field : next? .dot ts
  case some next =>
    obtain ⟨tail, shorter⟩ := next
    simp only [field] at ran
    -- a field name is read only with a unit of budget to spare
    by_cases zero : b = 0
    · simp only [zero, ↓reduceIte] at ran
      cases ran
    simp only [zero, ↓reduceIte] at ran
    obtain ⟨name, nameRan, ran⟩ := Except.exists_of_bind_eq_ok ran
    obtain ⟨whole, wholeRan, ran⟩ := Except.exists_of_bind_eq_ok ran
    have same := Except.ok.inj ran
    subst same
    have := whole.noLonger
    have := name.shorter
    dsimp only at long
    obtain ⟨tail', shorter', found', dotCut⟩ := next?_cut cut field (by omega)
    obtain ⟨name', nameRan', sameName⟩ :=
      name_steady .identifier tail name dotCut nameRan (by omega)
    obtain ⟨whole', wholeRan', sameWhole⟩ :=
      loop name.rest (by omega) _ whole sameName.rest wholeRan long
    rw [suffixes]
    simp only [next?_cut_none cut call, next?_cut_none cut index, found', zero,
      ↓reduceIte, bind, Except.bind, nameRan', sameName.value, wholeRan']
    exact ⟨_, rfl, sameWhole.value, sameWhole.rest⟩
  simp only [field] at ran
  have same := Except.ok.inj ran
  subst same
  rw [suffixes]
  simp only [next?_cut_none cut call, next?_cut_none cut index, next?_cut_none cut field]
  exact ⟨_, rfl, rfl, cut⟩

theorem suffixed_steady (ih : ExprsSteady b) : Steady (suffixed (b + 1)) := by
  intro ts p t post post' ts' cut ran long
  rw [suffixed] at ran
  obtain ⟨head, headRan, ran⟩ := Except.exists_of_bind_eq_ok ran
  obtain ⟨whole, wholeRan, ran⟩ := Except.exists_of_bind_eq_ok ran
  have same := Except.ok.inj ran
  subst same
  have := whole.noLonger
  dsimp only at long
  obtain ⟨head', headRan', sameHead⟩ := ih.primary ts head cut headRan (by omega)
  obtain ⟨whole', wholeRan', sameWhole⟩ :=
    suffixes_steady ih head.rest head.value whole sameHead.rest wholeRan long
  rw [suffixed, headRan']
  simp only [bind, Except.bind, sameHead.value, wholeRan']
  exact ⟨_, rfl, sameWhole.value, sameWhole.rest⟩

/-- The items of a list after a comma each, and its closing token, by induction on the tokens
left. -/
theorem listTail_steady (ih : ExprsSteady b) (close : Token.Kind) (problem : Problem) :
    Steady (listTail (b + 1) close problem) := by
  refine Steady.of_shorter fun ts loop p t post post' ts' cut ran long => ?_
  rw [listTail] at ran
  cases found : next? .comma ts with
  | some next =>
    obtain ⟨tail, shorter⟩ := next
    simp only [found] at ran
    obtain ⟨item, itemRan, ran⟩ := Except.exists_of_bind_eq_ok ran
    obtain ⟨more, moreRan, ran⟩ := Except.exists_of_bind_eq_ok ran
    have same := Except.ok.inj ran
    subst same
    have := more.shorter
    have := item.shorter
    dsimp only at long
    obtain ⟨tail', shorter', found', commaCut⟩ := next?_cut cut found (by omega)
    obtain ⟨item', itemRan', sameItem⟩ := ih.expression tail item commaCut itemRan (by omega)
    obtain ⟨more', moreRan', sameMore⟩ :=
      loop item.rest (by omega) more sameItem.rest moreRan long
    rw [listTail]
    simp only [found', bind, Except.bind, itemRan', moreRan']
    exact ⟨_, rfl, by simp [sameItem.value, sameMore.value], sameMore.rest⟩
  | none =>
    simp only [found] at ran
    obtain ⟨⟨afterClose, closed⟩, closeRan, ran⟩ := Except.exists_of_bind_eq_ok ran
    have same := Except.ok.inj ran
    subst same
    obtain ⟨afterClose', closed', closeRan', closeCut⟩ := expect_cut cut closeRan long
    rw [listTail]
    simp only [next?_cut_none cut found, bind, Except.bind, closeRan']
    exact ⟨_, rfl, rfl, closeCut⟩

theorem arguments_steady (ih : ExprsSteady b) : Steady (arguments (b + 1)) := by
  intro ts p t post post' ts' cut ran long
  rw [arguments] at ran
  cases found : next? .rparen ts with
  | some next =>
    obtain ⟨rest, shorter⟩ := next
    simp only [found] at ran
    have same := Except.ok.inj ran
    subst same
    obtain ⟨rest', shorter', found', closeCut⟩ := next?_cut cut found long
    rw [arguments]
    simp only [found']
    exact ⟨_, rfl, rfl, closeCut⟩
  | none =>
    simp only [found] at ran
    obtain ⟨first, firstRan, ran⟩ := Except.exists_of_bind_eq_ok ran
    obtain ⟨more, moreRan, ran⟩ := Except.exists_of_bind_eq_ok ran
    have same := Except.ok.inj ran
    subst same
    have := more.shorter
    dsimp only at long
    obtain ⟨first', firstRan', sameFirst⟩ := ih.expression ts first cut firstRan (by omega)
    obtain ⟨more', moreRan', sameMore⟩ :=
      listTail_steady ih _ _ first.rest more sameFirst.rest moreRan long
    rw [arguments]
    simp only [next?_cut_none cut found, bind, Except.bind, firstRan', moreRan']
    exact ⟨_, rfl, by simp [sameFirst.value, sameMore.value], sameMore.rest⟩

/-- A primary expression. Its first token decides the branch; a read that stops after it sees
the rest of the tokens cut alike. -/
theorem primary_steady (ih : ExprsSteady b) : Steady (primary (b + 1)) := by
  intro ts p t post post' ts' cut ran long
  obtain _ | ⟨u, rest⟩ := ts
  · simp [primary, fail] at ran
  obtain ⟨rest', rfl, restCut⟩ := cut.tail (by have := p.shorter; simp at this; omega)
  rw [primary] at ran ⊢
  dsimp only at ran ⊢
  generalize u.kind = kind at ran ⊢
  cases kind
  case number =>
    dsimp only at ran ⊢
    cases read : Binary64.ofText? u.lexeme with
    | none =>
      rw [read] at ran
      cases ran
    | some value =>
      rw [read] at ran
      have same := Except.ok.inj ran
      subst same
      exact ⟨_, rfl, rfl, restCut⟩
  case lbracket =>
    dsimp only at ran ⊢
    cases found : next? .rbracket rest with
    | some next =>
      obtain ⟨close, shorter⟩ := next
      simp only [found] at ran
      have same := Except.ok.inj ran
      subst same
      obtain ⟨close', shorter', found', closeCut⟩ := next?_cut restCut found long
      simp only [found']
      exact ⟨_, rfl, rfl, closeCut⟩
    | none =>
      simp only [found] at ran
      obtain ⟨first, firstRan, ran⟩ := Except.exists_of_bind_eq_ok ran
      obtain ⟨more, moreRan, ran⟩ := Except.exists_of_bind_eq_ok ran
      have same := Except.ok.inj ran
      subst same
      have := more.shorter
      dsimp only at long
      obtain ⟨first', firstRan', sameFirst⟩ := ih.expression rest first restCut firstRan (by omega)
      obtain ⟨more', moreRan', sameMore⟩ :=
        listTail_steady ih _ _ first.rest more sameFirst.rest moreRan long
      simp only [next?_cut_none restCut found, bind, Except.bind, firstRan', moreRan']
      exact ⟨_, rfl, by simp [sameFirst.value, sameMore.value], sameMore.rest⟩
  case lparen =>
    dsimp only at ran ⊢
    obtain ⟨inner, innerRan, ran⟩ := Except.exists_of_bind_eq_ok ran
    obtain ⟨⟨afterClose, closed⟩, closeRan, ran⟩ := Except.exists_of_bind_eq_ok ran
    have same := Except.ok.inj ran
    subst same
    dsimp only at long
    obtain ⟨inner', innerRan', sameInner⟩ := ih.expression rest inner restCut innerRan (by omega)
    obtain ⟨afterClose', closed', closeRan', closeCut⟩ := expect_cut sameInner.rest closeRan long
    simp only [bind, Except.bind, innerRan', closeRan']
    exact ⟨_, rfl, sameInner.value, closeCut⟩
  case keyword word =>
    cases word
    case moi =>
      dsimp only at ran ⊢
      -- the class name is read only with a unit of budget to spare
      by_cases zero : b = 0
      · simp only [zero, ↓reduceIte] at ran
        cases ran
      simp only [zero, ↓reduceIte] at ran
      obtain ⟨className, nameRan, ran⟩ := Except.exists_of_bind_eq_ok ran
      obtain ⟨⟨afterOpen, opened⟩, openRan, ran⟩ := Except.exists_of_bind_eq_ok ran
      obtain ⟨args, argsRan, ran⟩ := Except.exists_of_bind_eq_ok ran
      have same := Except.ok.inj ran
      subst same
      have : args.rest.length < afterOpen.length := args.shorter
      dsimp only at long
      obtain ⟨className', nameRan', sameName⟩ :=
        name_steady .identifier rest className restCut nameRan (by omega)
      obtain ⟨afterOpen', opened', openRan', openCut⟩ := expect_cut sameName.rest openRan (by omega)
      obtain ⟨args', argsRan', sameArgs⟩ := ih.arguments afterOpen args openCut argsRan long
      simp only [zero, ↓reduceIte, bind, Except.bind, nameRan', openRan', argsRan']
      exact ⟨_, rfl, by simp [sameName.value, sameArgs.value], sameArgs.rest⟩
    all_goals first
      | (have same := Except.ok.inj ran
         subst same
         exact ⟨_, rfl, rfl, restCut⟩)
      | cases ran
  all_goals first
    | (have same := Except.ok.inj ran
       subst same
       exact ⟨_, rfl, rfl, restCut⟩)
    | cases ran

end Expressions

/-- With no budget left, no expression production reads anything. -/
theorem exprsSteady_zero : ExprsSteady 0 where
  expression _ _ _ _ _ _ _ ran _ := by rw [expression] at ran; cases ran
  assignment _ _ _ _ _ _ _ ran _ := by rw [assignment] at ran; cases ran
  binary _ _ _ _ _ _ _ _ ran _ := by rw [binary] at ran; cases ran
  binaryTail _ _ _ _ _ _ _ _ _ ran _ := by rw [binaryTail] at ran; cases ran
  unary _ _ _ _ _ _ _ ran _ := by rw [unary] at ran; cases ran
  suffixed _ _ _ _ _ _ _ ran _ := by rw [suffixed] at ran; cases ran
  suffixes _ _ _ _ _ _ _ _ ran _ := by rw [suffixes] at ran; cases ran
  arguments _ _ _ _ _ _ _ ran _ := by rw [arguments] at ran; cases ran
  listTail _ _ _ _ _ _ _ _ _ ran _ := by rw [listTail] at ran; cases ran
  primary _ _ _ _ _ _ _ ran _ := by rw [primary.eq_def] at ran; cases ran

theorem exprsSteady_succ {b : Nat} (ih : ExprsSteady b) : ExprsSteady (b + 1) where
  expression := expression_steady ih
  assignment := assignment_steady ih
  binary := binary_steady ih
  binaryTail := binaryTail_steady ih
  unary := unary_steady ih
  suffixed := suffixed_steady ih
  suffixes := suffixes_steady ih
  arguments := arguments_steady ih
  listTail := listTail_steady ih
  primary := primary_steady ih

/-- Every expression production reads the same from both sides of a cut at or after the token
it stops at, whatever its budget. -/
theorem exprsSteady : ∀ b, ExprsSteady b
  | 0 => exprsSteady_zero
  | b + 1 => exprsSteady_succ (exprsSteady b)

section Declarations

theorem moreParameters_steady : Steady moreParameters := by
  refine Steady.of_shorter fun ts loop p t post post' ts' cut ran long => ?_
  rw [moreParameters] at ran
  cases found : next? .comma ts with
  | some next =>
    obtain ⟨tail, shorter⟩ := next
    simp only [found] at ran
    obtain ⟨first, firstRan, ran⟩ := Except.exists_of_bind_eq_ok ran
    obtain ⟨more, moreRan, ran⟩ := Except.exists_of_bind_eq_ok ran
    have same := Except.ok.inj ran
    subst same
    have := more.shorter
    have := first.shorter
    dsimp only at long
    obtain ⟨tail', shorter', found', commaCut⟩ := next?_cut cut found (by omega)
    obtain ⟨first', firstRan', sameFirst⟩ :=
      name_steady .identifier tail first commaCut firstRan (by omega)
    obtain ⟨more', moreRan', sameMore⟩ :=
      loop first.rest (by omega) more sameFirst.rest moreRan long
    rw [moreParameters]
    simp only [found', bind, Except.bind, firstRan', moreRan']
    exact ⟨_, rfl, by simp [sameFirst.value, sameMore.value], sameMore.rest⟩
  | none =>
    simp only [found] at ran
    obtain ⟨⟨afterClose, closed⟩, closeRan, ran⟩ := Except.exists_of_bind_eq_ok ran
    have same := Except.ok.inj ran
    subst same
    obtain ⟨afterClose', closed', closeRan', closeCut⟩ := expect_cut cut closeRan long
    rw [moreParameters]
    simp only [next?_cut_none cut found, bind, Except.bind, closeRan']
    exact ⟨_, rfl, rfl, closeCut⟩

theorem parameters_steady (budget : Nat) : Steady (parameters budget) := by
  intro ts p t post post' ts' cut ran long
  unfold parameters at ran ⊢
  cases found : next? .rparen ts with
  | some closed =>
    obtain ⟨rest, shorter⟩ := closed
    rw [found] at ran
    have same := Except.ok.inj ran
    subst same
    obtain ⟨rest', shorter', found', closeCut⟩ := next?_cut cut found long
    simp only [found']
    exact ⟨_, rfl, rfl, closeCut⟩
  | none =>
    rw [found] at ran
    -- the first parameter is read only with a unit of budget to spare
    by_cases zero : budget = 0
    · simp only [zero, ↓reduceIte] at ran
      cases ran
    simp only [zero, ↓reduceIte] at ran ⊢
    obtain ⟨first, firstRan, ran⟩ := Except.exists_of_bind_eq_ok ran
    obtain ⟨more, moreRan, ran⟩ := Except.exists_of_bind_eq_ok ran
    have same := Except.ok.inj ran
    subst same
    have := more.shorter
    dsimp only at long
    obtain ⟨first', firstRan', sameFirst⟩ :=
      name_steady .identifier ts first cut firstRan (by omega)
    obtain ⟨more', moreRan', sameMore⟩ :=
      moreParameters_steady first.rest more sameFirst.rest moreRan long
    simp only [next?_cut_none cut found, bind, Except.bind, firstRan', moreRan']
    exact ⟨_, rfl, by simp [sameFirst.value, sameMore.value], sameMore.rest⟩

theorem variableDecl_steady : ∀ b, Steady (variableDecl b)
  | 0 => fun _ _ _ _ _ _ _ ran _ => by rw [variableDecl] at ran; cases ran
  | b + 1 => by
    intro ts p t post post' ts' cut ran long
    rw [variableDecl] at ran
    obtain ⟨n, nameRan, ran⟩ := Except.exists_of_bind_eq_ok ran
    obtain ⟨⟨afterEquals, equalsShorter⟩, equalsRan, ran⟩ := Except.exists_of_bind_eq_ok ran
    obtain ⟨value, valueRan, ran⟩ := Except.exists_of_bind_eq_ok ran
    have same := Except.ok.inj ran
    subst same
    have : value.rest.length < afterEquals.length := value.shorter
    dsimp only at long
    obtain ⟨n', nameRan', sameName⟩ := name_steady .variableName ts n cut nameRan (by omega)
    obtain ⟨afterEquals', equalsShorter', equalsRan', equalsCut⟩ :=
      expect_cut sameName.rest equalsRan (by omega)
    obtain ⟨value', valueRan', sameValue⟩ :=
      (exprsSteady b).expression afterEquals value equalsCut valueRan long
    rw [variableDecl]
    simp only [bind, Except.bind, nameRan', equalsRan', valueRan']
    exact ⟨_, rfl, by simp [sameName.value, sameValue.value], sameValue.rest⟩

end Declarations

/-- The invariant of the statement productions with budget `b`. -/
structure StmtsSteady (b : Nat) : Prop where
  declaration : Steady (declaration b)
  routine : ∀ kind, Steady (routine b kind)
  classDecl : Steady (classDecl b)
  classBody : Steady (classBody b)
  statement : Steady (statement b)
  blockRest : Steady (blockRest b)
  ifRest : Steady (ifRest b)
  whileRest : Steady (whileRest b)
  forEachRest : Steady (forEachRest b)

section Statements

variable {b : Nat}

theorem statement_steady (ih : StmtsSteady b) : Steady (statement (b + 1)) := by
  intro ts p t post post' ts' cut ran long
  rw [statement] at ran ⊢
  -- the first of `nếu`, `khi`, `với_mỗi`, `{` and `trả_về` that the tokens start with
  cases isIf : next? (.keyword .neu) ts
  case some next =>
    obtain ⟨tail, shorter⟩ := next
    simp only [isIf] at ran
    obtain ⟨tail', shorter', found', -, follows⟩ :=
      keyword_steady (ih.ifRest tail) cut isIf ran long fun _ => rfl
    simp only [found']
    exact follows (fun _ => rfl) fun _ _ same => same
  simp only [isIf] at ran
  simp only [next?_cut_none cut isIf]
  cases isWhile : next? (.keyword .khi) ts
  case some next =>
    obtain ⟨tail, shorter⟩ := next
    simp only [isWhile] at ran
    obtain ⟨tail', shorter', found', -, follows⟩ :=
      keyword_steady (ih.whileRest tail) cut isWhile ran long fun _ => rfl
    simp only [found']
    exact follows (fun _ => rfl) fun _ _ same => same
  simp only [isWhile] at ran
  simp only [next?_cut_none cut isWhile]
  cases isForEach : next? (.keyword .voiMoi) ts
  case some next =>
    obtain ⟨tail, shorter⟩ := next
    simp only [isForEach] at ran
    obtain ⟨tail', shorter', found', -, follows⟩ :=
      keyword_steady (ih.forEachRest tail) cut isForEach ran long fun _ => rfl
    simp only [found']
    exact follows (fun _ => rfl) fun _ _ same => same
  simp only [isForEach] at ran
  simp only [next?_cut_none cut isForEach]
  cases isBlock : next? .lbrace ts
  case some next =>
    obtain ⟨tail, shorter⟩ := next
    simp only [isBlock] at ran
    obtain ⟨tail', shorter', found', -, follows⟩ :=
      keyword_steady (ih.blockRest tail) cut isBlock ran long fun _ => rfl
    simp only [found']
    exact follows (fun _ => rfl) fun _ _ same => by simp [Parsed.extend, Parsed.map, same]
  simp only [isBlock] at ran
  simp only [next?_cut_none cut isBlock]
  cases isReturn : next? (.keyword .traVe) ts
  case some next =>
    -- a return, with a value unless a closing brace or the end follows
    obtain ⟨tail, shorter⟩ := next
    simp only [isReturn] at ran
    cases closes : atCloseOrEnd .rbrace tail
    case true =>
      simp only [closes, ↓reduceIte] at ran
      have same := Except.ok.inj ran
      subst same
      obtain ⟨tail', shorter', found', returnCut⟩ := next?_cut cut isReturn long
      simp only [found', atCloseOrEnd_cut returnCut, closes, ↓reduceIte]
      exact ⟨_, rfl, rfl, returnCut⟩
    case false =>
      simp only [closes, Bool.false_eq_true, ↓reduceIte] at ran
      cases b with
      | zero => cases ran
      | succ b =>
        obtain ⟨tail', shorter', found', valueCut, follows⟩ :=
          keyword_steady ((exprsSteady b).expression tail) cut isReturn ran long fun _ => rfl
        simp only [found', atCloseOrEnd_cut valueCut, closes, Bool.false_eq_true, ↓reduceIte]
        exact follows (fun _ => rfl) fun _ _ same => by simp [Parsed.extend, Parsed.map, same]
  simp only [isReturn] at ran
  simp only [next?_cut_none cut isReturn]
  obtain ⟨q, qRan, ran⟩ := Except.exists_of_bind_eq_ok ran
  have same := Except.ok.inj ran
  subst same
  obtain ⟨q', qRan', sameQ⟩ := (exprsSteady b).expression ts q cut qRan long
  simp only [bind, Except.bind, qRan']
  exact ⟨_, rfl, by simp [Parsed.map, sameQ.value], sameQ.rest⟩

/-- The header and the consequent of a conditional read alike from both sides of a cut past the
consequent. -/
theorem ifHead_steady (ih : StmtsSteady b) {t : Token}
    {post post' ts ts' afterOpen afterClose : List Token}
    {opened : afterOpen.length < ts.length} {test : Parsed afterOpen Expr}
    {closed : afterClose.length < test.rest.length} {consequent : Parsed afterClose Stmt}
    (cut : Cut t post post' ts ts')
    (openRan : expect .lparen .ifOpen ts = .ok ⟨afterOpen, opened⟩)
    (testRan : expression b afterOpen = .ok test)
    (closeRan : expect .rparen .conditionClose test.rest = .ok ⟨afterClose, closed⟩)
    (consequentRan : statement b afterClose = .ok consequent)
    (long : post.length < consequent.rest.length) :
    ∃ afterOpen' opened' test' afterClose' closed' consequent',
      expect .lparen .ifOpen ts' = .ok ⟨afterOpen', opened'⟩ ∧
      expression b afterOpen' = .ok test' ∧ test'.value = test.value ∧
      expect .rparen .conditionClose test'.rest = .ok ⟨afterClose', closed'⟩ ∧
      statement b afterClose' = .ok consequent' ∧
      Parsed.CutAlike t post post' consequent consequent' := by
  have : consequent.rest.length < afterClose.length := consequent.shorter
  have : test.rest.length < afterOpen.length := test.shorter
  obtain ⟨afterOpen', opened', openRan', openCut⟩ := expect_cut cut openRan (by omega)
  obtain ⟨test', testRan', sameTest⟩ :=
    (exprsSteady b).expression afterOpen test openCut testRan (by omega)
  obtain ⟨afterClose', closed', closeRan', closeCut⟩ := expect_cut sameTest.rest closeRan (by omega)
  obtain ⟨consequent', consequentRan', sameConsequent⟩ :=
    ih.statement afterClose consequent closeCut consequentRan long
  exact ⟨afterOpen', opened', test', afterClose', closed', consequent', openRan', testRan',
    sameTest.value, closeRan', consequentRan', sameConsequent⟩

/-- A conditional: after its consequent, an alternative after `ngược_lại`, `ngược_lại nếu` or
`còn_nếu`, or none. Every branch ends no earlier than the consequent, so the cut is past it and
the header and the consequent read alike (`ifHead_steady`). -/
theorem ifRest_steady (ih : StmtsSteady b) : Steady (ifRest (b + 1)) := by
  intro ts p t post post' ts' cut ran long
  rw [ifRest] at ran
  obtain ⟨⟨afterOpen, opened⟩, openRan, ran⟩ := Except.exists_of_bind_eq_ok ran
  obtain ⟨test, testRan, ran⟩ := Except.exists_of_bind_eq_ok ran
  obtain ⟨⟨afterClose, closed⟩, closeRan, ran⟩ := Except.exists_of_bind_eq_ok ran
  obtain ⟨consequent, consequentRan, ran⟩ := Except.exists_of_bind_eq_ok ran
  have head := ifHead_steady ih cut openRan testRan closeRan consequentRan
  rw [ifRest]
  cases isElse : next? (.keyword .nguocLai) consequent.rest with
  | some next =>
    obtain ⟨afterElse, shorter⟩ := next
    simp only [isElse] at ran
    cases isIf : next? (.keyword .neu) afterElse with
    | some next =>
      -- `ngược_lại nếu`
      obtain ⟨afterIf, shorter₂⟩ := next
      simp only [isIf] at ran
      obtain ⟨alternate, alternateRan, ran⟩ := Except.exists_of_bind_eq_ok ran
      have same := Except.ok.inj ran
      subst same
      have := alternate.shorter
      dsimp only at long
      obtain ⟨afterOpen', opened', test', afterClose', closed', consequent', openRan', testRan',
        sameTest, closeRan', consequentRan', sameConsequent⟩ := head (by omega)
      obtain ⟨afterElse', shorter', found', elseCut⟩ :=
        next?_cut sameConsequent.rest isElse (by omega)
      obtain ⟨afterIf', shorter₂', found₂', ifCut⟩ := next?_cut elseCut isIf (by omega)
      obtain ⟨alternate', alternateRan', sameAlternate⟩ :=
        ih.ifRest afterIf alternate ifCut alternateRan long
      simp only [bind, Except.bind, openRan', testRan', closeRan', consequentRan', sameTest,
        sameConsequent.value, found', found₂', alternateRan']
      exact ⟨_, rfl, by rw [sameAlternate.value], sameAlternate.rest⟩
    | none =>
      -- `ngược_lại`
      simp only [isIf] at ran
      obtain ⟨alternate, alternateRan, ran⟩ := Except.exists_of_bind_eq_ok ran
      have same := Except.ok.inj ran
      subst same
      have := alternate.shorter
      dsimp only at long
      obtain ⟨afterOpen', opened', test', afterClose', closed', consequent', openRan', testRan',
        sameTest, closeRan', consequentRan', sameConsequent⟩ := head (by omega)
      obtain ⟨afterElse', shorter', found', elseCut⟩ :=
        next?_cut sameConsequent.rest isElse (by omega)
      obtain ⟨alternate', alternateRan', sameAlternate⟩ :=
        ih.statement afterElse alternate elseCut alternateRan long
      simp only [bind, Except.bind, openRan', testRan', closeRan', consequentRan', sameTest,
        sameConsequent.value, found', next?_cut_none elseCut isIf, alternateRan']
      exact ⟨_, rfl, by rw [sameAlternate.value], sameAlternate.rest⟩
  | none =>
    simp only [isElse] at ran
    cases isElseIf : next? (.keyword .conNeu) consequent.rest with
    | some next =>
      -- `còn_nếu`
      obtain ⟨afterIf, shorter⟩ := next
      simp only [isElseIf] at ran
      obtain ⟨alternate, alternateRan, ran⟩ := Except.exists_of_bind_eq_ok ran
      have same := Except.ok.inj ran
      subst same
      have := alternate.shorter
      dsimp only at long
      obtain ⟨afterOpen', opened', test', afterClose', closed', consequent', openRan', testRan',
        sameTest, closeRan', consequentRan', sameConsequent⟩ := head (by omega)
      obtain ⟨afterIf', shorter', found', ifCut⟩ :=
        next?_cut sameConsequent.rest isElseIf (by omega)
      obtain ⟨alternate', alternateRan', sameAlternate⟩ :=
        ih.ifRest afterIf alternate ifCut alternateRan long
      simp only [bind, Except.bind, openRan', testRan', closeRan', consequentRan', sameTest,
        sameConsequent.value, next?_cut_none sameConsequent.rest isElse, found', alternateRan']
      exact ⟨_, rfl, by rw [sameAlternate.value], sameAlternate.rest⟩
    | none =>
      -- no alternative
      simp only [isElseIf] at ran
      have same := Except.ok.inj ran
      subst same
      obtain ⟨afterOpen', opened', test', afterClose', closed', consequent', openRan', testRan',
        sameTest, closeRan', consequentRan', sameConsequent⟩ := head long
      simp only [bind, Except.bind, openRan', testRan', closeRan', consequentRan', sameTest,
        sameConsequent.value, next?_cut_none sameConsequent.rest isElse,
        next?_cut_none sameConsequent.rest isElseIf]
      exact ⟨_, rfl, rfl, sameConsequent.rest⟩

theorem whileRest_steady (ih : StmtsSteady b) : Steady (whileRest (b + 1)) := by
  intro ts p t post post' ts' cut ran long
  rw [whileRest] at ran
  obtain ⟨⟨afterOpen, opened⟩, openRan, ran⟩ := Except.exists_of_bind_eq_ok ran
  obtain ⟨test, testRan, ran⟩ := Except.exists_of_bind_eq_ok ran
  obtain ⟨⟨afterClose, closed⟩, closeRan, ran⟩ := Except.exists_of_bind_eq_ok ran
  obtain ⟨body, bodyRan, ran⟩ := Except.exists_of_bind_eq_ok ran
  have same := Except.ok.inj ran
  subst same
  have : body.rest.length < afterClose.length := body.shorter
  have : test.rest.length < afterOpen.length := test.shorter
  dsimp only at long
  obtain ⟨afterOpen', opened', openRan', openCut⟩ := expect_cut cut openRan (by omega)
  obtain ⟨test', testRan', sameTest⟩ := (exprsSteady b).expression afterOpen test openCut testRan
    (by omega)
  obtain ⟨afterClose', closed', closeRan', closeCut⟩ := expect_cut sameTest.rest closeRan (by omega)
  obtain ⟨body', bodyRan', sameBody⟩ := ih.statement afterClose body closeCut bodyRan long
  rw [whileRest]
  simp only [bind, Except.bind, openRan', testRan', closeRan', bodyRan']
  exact ⟨_, rfl, by simp [sameTest.value, sameBody.value], sameBody.rest⟩

theorem forEachRest_steady (ih : StmtsSteady b) : Steady (forEachRest (b + 1)) := by
  intro ts p t post post' ts' cut ran long
  rw [forEachRest] at ran
  obtain ⟨⟨afterOpen, opened⟩, openRan, ran⟩ := Except.exists_of_bind_eq_ok ran
  dsimp only at ran
  -- the loop's name is read only with a unit of budget to spare
  by_cases zero : b = 0
  · simp only [zero, ↓reduceIte] at ran
    cases ran
  simp only [zero, ↓reduceIte] at ran
  obtain ⟨element, elementRan, ran⟩ := Except.exists_of_bind_eq_ok ran
  obtain ⟨⟨afterIn, inShorter⟩, inRan, ran⟩ := Except.exists_of_bind_eq_ok ran
  obtain ⟨collection, collectionRan, ran⟩ := Except.exists_of_bind_eq_ok ran
  obtain ⟨⟨afterClose, closed⟩, closeRan, ran⟩ := Except.exists_of_bind_eq_ok ran
  obtain ⟨body, bodyRan, ran⟩ := Except.exists_of_bind_eq_ok ran
  have same := Except.ok.inj ran
  subst same
  have : body.rest.length < afterClose.length := body.shorter
  have : collection.rest.length < afterIn.length := collection.shorter
  have : element.rest.length < afterOpen.length := element.shorter
  dsimp only at long
  obtain ⟨afterOpen', opened', openRan', openCut⟩ := expect_cut cut openRan (by omega)
  obtain ⟨element', elementRan', sameElement⟩ :=
    name_steady .identifier afterOpen element openCut elementRan (by omega)
  obtain ⟨afterIn', inShorter', inRan', inCut⟩ := expect_cut sameElement.rest inRan (by omega)
  obtain ⟨collection', collectionRan', sameCollection⟩ :=
    (exprsSteady b).expression afterIn collection inCut collectionRan (by omega)
  obtain ⟨afterClose', closed', closeRan', closeCut⟩ :=
    expect_cut sameCollection.rest closeRan (by omega)
  obtain ⟨body', bodyRan', sameBody⟩ := ih.statement afterClose body closeCut bodyRan long
  rw [forEachRest]
  simp only [bind, Except.bind, openRan', zero, ↓reduceIte, elementRan', inRan',
    collectionRan', closeRan', bodyRan']
  exact ⟨_, rfl, by simp [sameElement.value, sameCollection.value, sameBody.value], sameBody.rest⟩

/-- The statements of a block, by induction on the tokens left. -/
theorem blockRest_steady (ih : StmtsSteady b) : Steady (blockRest (b + 1)) := by
  refine Steady.of_shorter fun ts loop p t post post' ts' cut ran long => ?_
  rw [blockRest] at ran
  rw [blockRest, atCloseOrEnd_cut cut]
  cases closes : atCloseOrEnd .rbrace ts with
  | true =>
    simp only [closes, ↓reduceIte] at ran ⊢
    obtain ⟨⟨afterClose, closed⟩, closeRan, ran⟩ := Except.exists_of_bind_eq_ok ran
    have same := Except.ok.inj ran
    subst same
    obtain ⟨afterClose', closed', closeRan', closeCut⟩ := expect_cut cut closeRan long
    simp only [bind, Except.bind, closeRan']
    exact ⟨_, rfl, rfl, closeCut⟩
  | false =>
    simp only [closes, Bool.false_eq_true, ↓reduceIte] at ran ⊢
    obtain ⟨first, firstRan, ran⟩ := Except.exists_of_bind_eq_ok ran
    obtain ⟨more, moreRan, ran⟩ := Except.exists_of_bind_eq_ok ran
    have same := Except.ok.inj ran
    subst same
    have := more.shorter
    have := first.shorter
    dsimp only at long
    obtain ⟨first', firstRan', sameFirst⟩ := ih.declaration ts first cut firstRan (by omega)
    obtain ⟨more', moreRan', sameMore⟩ :=
      loop first.rest (by omega) more sameFirst.rest moreRan long
    simp only [bind, Except.bind, firstRan', moreRan']
    exact ⟨_, rfl, by simp [sameFirst.value, sameMore.value], sameMore.rest⟩

theorem routine_steady (ih : StmtsSteady b) (kind : RoutineKind) :
    Steady (routine (b + 1) kind) := by
  intro ts p t post post' ts' cut ran long
  rw [routine] at ran
  obtain ⟨n, nameRan, ran⟩ := Except.exists_of_bind_eq_ok ran
  obtain ⟨⟨afterOpen, opened⟩, openRan, ran⟩ := Except.exists_of_bind_eq_ok ran
  obtain ⟨params, paramsRan, ran⟩ := Except.exists_of_bind_eq_ok ran
  obtain ⟨⟨afterBrace, braced⟩, braceRan, ran⟩ := Except.exists_of_bind_eq_ok ran
  obtain ⟨body, bodyRan, ran⟩ := Except.exists_of_bind_eq_ok ran
  have same := Except.ok.inj ran
  subst same
  have : body.rest.length < afterBrace.length := body.shorter
  have : params.rest.length < afterOpen.length := params.shorter
  dsimp only at long
  obtain ⟨n', nameRan', sameName⟩ := name_steady (.routineName kind) ts n cut nameRan (by omega)
  obtain ⟨afterOpen', opened', openRan', openCut⟩ := expect_cut sameName.rest openRan (by omega)
  obtain ⟨params', paramsRan', sameParams⟩ :=
    parameters_steady b afterOpen params openCut paramsRan (by omega)
  obtain ⟨afterBrace', braced', braceRan', braceCut⟩ :=
    expect_cut sameParams.rest braceRan (by omega)
  obtain ⟨body', bodyRan', sameBody⟩ := ih.blockRest afterBrace body braceCut bodyRan long
  rw [routine]
  simp only [bind, Except.bind, nameRan', openRan', paramsRan', braceRan', bodyRan']
  exact ⟨_, rfl, by simp [sameName.value, sameParams.value, sameBody.value], sameBody.rest⟩

/-- The methods of a class body, by induction on the tokens left. -/
theorem classBody_steady (ih : StmtsSteady b) : Steady (classBody (b + 1)) := by
  refine Steady.of_shorter fun ts loop p t post post' ts' cut ran long => ?_
  rw [classBody] at ran
  rw [classBody, atCloseOrEnd_cut cut]
  cases closes : atCloseOrEnd .rbrace ts
  case true =>
    simp only [closes, ↓reduceIte] at ran ⊢
    obtain ⟨⟨afterClose, closed⟩, closeRan, ran⟩ := Except.exists_of_bind_eq_ok ran
    have same := Except.ok.inj ran
    subst same
    obtain ⟨afterClose', closed', closeRan', closeCut⟩ := expect_cut cut closeRan long
    simp only [bind, Except.bind, closeRan']
    exact ⟨_, rfl, rfl, closeCut⟩
  simp only [closes, Bool.false_eq_true, ↓reduceIte] at ran ⊢
  cases isMethod : next? (.keyword .ham) ts with
  | none =>
    simp only [isMethod] at ran
    cases ran
  | some next =>
    obtain ⟨tail, shorter⟩ := next
    simp only [isMethod] at ran
    obtain ⟨method, methodRan, ran⟩ := Except.exists_of_bind_eq_ok ran
    obtain ⟨more, moreRan, ran⟩ := Except.exists_of_bind_eq_ok ran
    have same := Except.ok.inj ran
    subst same
    have := more.shorter
    have := method.shorter
    dsimp only at long
    obtain ⟨tail', shorter', found', wordCut⟩ := next?_cut cut isMethod (by omega)
    obtain ⟨method', methodRan', sameMethod⟩ :=
      ih.routine .method tail method wordCut methodRan (by omega)
    obtain ⟨more', moreRan', sameMore⟩ :=
      loop method.rest (by omega) more sameMethod.rest moreRan long
    simp only [found', bind, Except.bind, methodRan', moreRan']
    exact ⟨_, rfl, by simp [sameMethod.value, sameMore.value], sameMore.rest⟩

theorem classDecl_steady (ih : StmtsSteady b) : Steady (classDecl (b + 1)) := by
  intro ts p t post post' ts' cut ran long
  rw [classDecl] at ran
  -- the class name is read only with a unit of budget to spare
  by_cases zero : b = 0
  · simp only [zero, ↓reduceIte] at ran
    cases ran
  simp only [zero, ↓reduceIte] at ran
  obtain ⟨n, nameRan, ran⟩ := Except.exists_of_bind_eq_ok ran
  obtain ⟨⟨afterBrace, braced⟩, braceRan, ran⟩ := Except.exists_of_bind_eq_ok ran
  obtain ⟨methods, methodsRan, ran⟩ := Except.exists_of_bind_eq_ok ran
  have same := Except.ok.inj ran
  subst same
  have : methods.rest.length < afterBrace.length := methods.shorter
  dsimp only at long
  obtain ⟨n', nameRan', sameName⟩ := name_steady .identifier ts n cut nameRan (by omega)
  obtain ⟨afterBrace', braced', braceRan', braceCut⟩ := expect_cut sameName.rest braceRan (by omega)
  obtain ⟨methods', methodsRan', sameMethods⟩ :=
    classBody_steady ih afterBrace methods braceCut methodsRan long
  rw [classDecl]
  simp only [zero, ↓reduceIte, bind, Except.bind, nameRan', braceRan', methodsRan']
  exact ⟨_, rfl, by simp [sameName.value, sameMethods.value], sameMethods.rest⟩

theorem declaration_steady (ih : StmtsSteady b) : Steady (declaration (b + 1)) := by
  intro ts p t post post' ts' cut ran long
  rw [declaration] at ran ⊢
  -- the first of `cho`, `hàm` and `lớp` that the tokens start with, or a statement
  cases isVariable : next? (.keyword .cho) ts
  case some next =>
    obtain ⟨tail, shorter⟩ := next
    simp only [isVariable] at ran
    obtain ⟨tail', shorter', found', -, follows⟩ :=
      keyword_steady (variableDecl_steady b tail) cut isVariable ran long fun _ => rfl
    simp only [found']
    exact follows (fun _ => rfl) fun _ _ same => same
  simp only [isVariable] at ran
  simp only [next?_cut_none cut isVariable]
  cases isFunction : next? (.keyword .ham) ts
  case some next =>
    obtain ⟨tail, shorter⟩ := next
    simp only [isFunction] at ran
    obtain ⟨tail', shorter', found', -, follows⟩ :=
      keyword_steady (ih.routine .function tail) cut isFunction ran long fun _ => rfl
    simp only [found']
    exact follows (fun _ => rfl) fun _ _ same => by simp [Parsed.extend, Parsed.map, same]
  simp only [isFunction] at ran
  simp only [next?_cut_none cut isFunction]
  cases isClass : next? (.keyword .lop) ts
  case some next =>
    obtain ⟨tail, shorter⟩ := next
    simp only [isClass] at ran
    obtain ⟨tail', shorter', found', -, follows⟩ :=
      keyword_steady (ih.classDecl tail) cut isClass ran long fun _ => rfl
    simp only [found']
    exact follows (fun _ => rfl) fun _ _ same => same
  simp only [isClass] at ran
  simp only [next?_cut_none cut isClass]
  exact ih.statement ts p cut ran long

end Statements

/-- With no budget left, no statement production reads anything. -/
theorem stmtsSteady_zero : StmtsSteady 0 where
  declaration _ _ _ _ _ _ _ ran _ := by rw [declaration] at ran; cases ran
  routine _ _ _ _ _ _ _ _ ran _ := by rw [routine] at ran; cases ran
  classDecl _ _ _ _ _ _ _ ran _ := by rw [classDecl] at ran; cases ran
  classBody _ _ _ _ _ _ _ ran _ := by rw [classBody] at ran; cases ran
  statement _ _ _ _ _ _ _ ran _ := by rw [statement] at ran; cases ran
  blockRest _ _ _ _ _ _ _ ran _ := by rw [blockRest] at ran; cases ran
  ifRest _ _ _ _ _ _ _ ran _ := by rw [ifRest] at ran; cases ran
  whileRest _ _ _ _ _ _ _ ran _ := by rw [whileRest] at ran; cases ran
  forEachRest _ _ _ _ _ _ _ ran _ := by rw [forEachRest] at ran; cases ran

theorem stmtsSteady_succ {b : Nat} (ih : StmtsSteady b) : StmtsSteady (b + 1) where
  declaration := declaration_steady ih
  routine := routine_steady ih
  classDecl := classDecl_steady ih
  classBody := classBody_steady ih
  statement := statement_steady ih
  blockRest := blockRest_steady ih
  ifRest := ifRest_steady ih
  whileRest := whileRest_steady ih
  forEachRest := forEachRest_steady ih

/-- Every statement production reads the same from both sides of a cut at or after the token
it stops at, whatever its budget. -/
theorem stmtsSteady : ∀ b, StmtsSteady b
  | 0 => stmtsSteady_zero
  | b + 1 => stmtsSteady_succ (stmtsSteady b)

end Parser

end VieCompiler
