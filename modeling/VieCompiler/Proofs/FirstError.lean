import VieCompiler.Proofs.ErrorDecision

/-!
# The first syntax error

The parser stops at its first failure. This module carries the invariant of
`VieCompiler.Proofs.ErrorDecision` through the statement productions (`Parser.stmtsFinal`) and
the top level (`Parser.topLevel_decided`), and reads it off for the whole parse. Tokens are
viable when some tokens after them, ending at the end of input, make them a program
(`Parser.Viable`). Given room in the budget, a syntax error is reported at the first token that
leaves the input no longer viable. The one exception is an `=` after a left side that is no
target: the target is checked only once the assigned value has been read, so the error names
the left side's last token, or is an error found first inside the value, past the `=`.
-/

namespace VieCompiler

namespace Parser

open Token (filler truth)
open Token.Kind (expressionClosers statementClosers)

section Helpers

variable {rest k ts ts' : List Token}

/-- A lookahead that found no token of `kind` finds none on a list replaced past its first
token. -/
theorem next?_none_past {kind : Token.Kind} (missing : next? kind ts = none)
    (replaced : Replaced rest k ts ts') (long : rest.length < ts.length) :
    next? kind ts' = none :=
  next?_none_replace replaced missing fun short => absurd short (by omega)

/-- Whether a list is at a closing token is the same on the replaced list, when the tokens in
place of the whole list agree on it. -/
theorem atCloseOrEnd_replace_le {kind : Token.Kind} (replaced : Replaced rest k ts ts')
    (long : rest.length ≤ ts.length)
    (atStart : rest.length = ts.length → atCloseOrEnd kind k = atCloseOrEnd kind ts) :
    atCloseOrEnd kind ts' = atCloseOrEnd kind ts := by
  by_cases inside : rest.length < ts.length
  · exact atCloseOrEnd_replace replaced inside
  · have same : rest.length = ts.length := by omega
    obtain ⟨-, rfl⟩ := replaced.eq_of_length_le same.ge
    exact atStart same

/-- A failure of `g`, read after a token that `next?` consumes, is decided in the run of `f`
that reads that token and then `g`, given how `f` goes on through `g` on lists replaced past
the token. -/
theorem keyword_decided {α β : Type}
    {g : (tokens : List Token) → Except ParseFailure (Parsed tokens α)}
    {f : (tokens : List Token) → Except ParseFailure (Parsed tokens β)}
    {kind : Token.Kind} {tail : List Token} {shorter : tail.length < ts.length}
    {closers closers' : List Token.Kind} {b b' height height' : Nat} {failure : ParseFailure}
    (after c : List Token) (boundary : List Token → Prop)
    (final : FinalAt closers b height g tail) (ends : EndsAtEof ts)
    (found : next? kind ts = some ⟨tail, shorter⟩) (failed : g tail = .error failure)
    (passes : ∀ {rest k ts' tail' shorter'}, Replaced rest k ts ts' → Replaced rest k tail tail' →
      rest.length ≤ tail.length → (rest.length = tail.length → boundary k) →
      next? kind ts' = some ⟨tail', shorter'⟩ →
      (∀ φ, g tail' = .error φ → f ts' = .error φ) ∧
      (16 + height' ≤ b' → ∀ k', Closes closers' k' → Reads g tail' (after ++ k') →
        Reads f ts' k'))
    (closesAfter : ∀ k, Closes closers' k → Closes closers (after ++ k))
    (fits : ∀ n, 16 * (1 + n) + height' ≤ b' → 16 * n + height ≤ b)
    (scratch : height ≤ b → ∀ k, Closes closers k → Reads g (c ++ k) k)
    (opens : ∀ k, Closes closers' k → boundary (c ++ after ++ k)) :
    Decided failure (fun ts' φ => f ts' = .error φ) (Completes closers' b' height' (Reads f)) ts := by
  obtain ⟨u, split, -⟩ := next?_eq_cons found
  refine (final (next?_rest ends found).2 failure failed).lift after c boundary
    (show ts = [u] ++ tail from split) ?_ closesAfter
    (fun n room => fits n (by simpa only [List.length_singleton] using room)) scratch opens
  intro rest k ts' replaced long atStart
  obtain ⟨tail', shorter', found', tailReplaced⟩ := next?_replace replaced found long
  obtain ⟨fails, reads⟩ := passes replaced tailReplaced long atStart found'
  exact ⟨tail', tailReplaced, fails, fun ready => reads (by simpa using ready)⟩

end Helpers

section Declarations

variable {closers : List Token.Kind} {b height : Nat}

/-- The parameters after the first, each after a comma, and the closing parenthesis, by
induction on the tokens left. -/
theorem moreParameters_final : Final closers b height moreParameters := by
  refine Final.of_shorter fun ts loop ends failure failed => ?_
  rw [moreParameters] at failed
  cases comma : next? .comma ts with
  | some next =>
    obtain ⟨tail, shorter⟩ := next
    simp only [comma] at failed
    rcases Except.bind_eq_error failed with firstFailed | ⟨first, firstRan, failed⟩
    · -- the name after the comma fails
      have final : FinalAt [.rparen] b height (name .identifier) tail :=
        name_final .identifier (by decide) tail
      refine keyword_decided [filler .rparen] [filler .ident] (fun _ => True) final ends comma
        firstFailed (fun _ _ _ _ comma' => ⟨fun φ failed' => ?_, fun _ k' _ reads => ?_⟩)
        (fun k _ => Closes.filler .rparen (by simp) k) (fun n room => by omega)
        (fun _ k _ => name_reads_filler .identifier k) fun _ _ => trivial
      · rw [moreParameters, comma']
        simp only [bind, Except.bind, failed']
      · obtain ⟨first', firstRan', firstRest⟩ := reads
        obtain ⟨more, moreRan, moreRest⟩ : Reads moreParameters first'.rest k' := by
          rw [firstRest]
          exact moreParameters_close k'
        unfold Reads
        rw [moreParameters, comma']
        simp only [bind, Except.bind, firstRan', moreRan]
        exact ⟨_, rfl, moreRest⟩
    · -- the parameters after the name fail
      obtain ⟨u, split, -⟩ := next?_eq_cons comma
      have tailEnds := (next?_rest ends comma).2
      obtain ⟨⟨front, firstSplit⟩, firstEnds⟩ := name_rest tailEnds firstRan
      have := first.shorter
      rcases Except.bind_eq_error failed with moreFailed | ⟨more, -, failed⟩
      · refine (loop first.rest (by omega) firstEnds failure moreFailed).lift [] [filler .rparen]
          (fun _ => True)
          (show ts = (u :: front) ++ first.rest from
            split.trans (congrArg (List.cons u) firstSplit.symm))
          ?_ (fun _ closes => closes) (fun n room => by omega)
          (fun _ k _ => moreParameters_close k) fun _ _ => trivial
        intro rest k ts' replaced long _
        obtain ⟨tail', _, comma', tailReplaced⟩ := next?_replace replaced comma (by omega)
        obtain ⟨first', firstRan', -, firstReplaced⟩ := name_replace tailReplaced firstRan long
        refine ⟨first'.rest, firstReplaced, fun φ failed' => ?_, fun _ k' _ reads => ?_⟩
        · dsimp only at failed' ⊢
          rw [moreParameters, comma']
          simp only [bind, Except.bind, firstRan', failed']
        · obtain ⟨more', moreRan', moreRest⟩ := reads
          unfold Reads
          rw [moreParameters, comma']
          simp only [bind, Except.bind, firstRan', moreRan']
          exact ⟨_, rfl, moreRest⟩
      · cases failed
  | none =>
    -- no comma: the closing parenthesis is missing
    simp only [comma] at failed
    rcases Except.bind_eq_error failed with closeFailed | ⟨_, -, failed⟩
    · have decided : Decided failure _
          (Completes closers b height (Expects .rparen .parametersClose)) ts :=
        expect_decided (by decide) (by decide) ends closeFailed
      refine decided.lift [] [filler .rparen] (fun k => next? .comma k = none)
        (List.nil_append ts).symm ?_ (fun _ closes => closes) (fun n room => by omega)
        (fun _ k _ => expects_filler .rparen .parametersClose (by decide) k)
        fun k _ => by simp [next?, filler]
      intro rest k ts' replaced long atStart
      have comma' : next? .comma ts' = none :=
        next?_none_replace replaced comma fun short => atStart (by omega)
      refine ⟨ts', replaced, fun φ failed' => ?_, fun _ k' _ reads => ?_⟩
      · dsimp only at failed' ⊢
        rw [moreParameters, comma']
        simp only [bind, Except.bind, failed']
      · obtain ⟨_, closeRan⟩ := reads
        unfold Reads
        rw [moreParameters, comma']
        simp only [bind, Except.bind, closeRan]
        exact ⟨_, rfl, rfl⟩
    · cases failed

/-- The parameters of a routine after its `(`. A first parameter needs a unit of budget. -/
theorem parameters_final (budget : Nat) : Final closers b height (parameters budget) := by
  intro ts ends failure failed
  unfold parameters at failed
  cases empty : next? .rparen ts with
  | some closed =>
    simp only [empty] at failed
    cases failed
  | none =>
    simp only [empty] at failed
    by_cases zero : budget = 0
    · -- a first parameter is one unit too deep, whatever follows the token it starts at
      obtain rfl : failure = .tooDeep := by
        simp only [zero, ↓reduceIte] at failed
        cases failed
        rfl
      obtain _ | ⟨u, rest⟩ := ts
      · exact absurd rfl ends.ne_nil
      refine .first trivial (fun ts' => ?_) fun _ isError => by cases isError
      have cut : Cut u rest ts' (u :: rest) (u :: ts') := ⟨[], rfl, rfl⟩
      unfold parameters
      simp only [next?_cut_none cut empty, zero, ↓reduceIte]
      rfl
    simp only [zero, ↓reduceIte] at failed
    rcases Except.bind_eq_error failed with firstFailed | ⟨first, firstRan, failed⟩
    · -- the first name fails
      have decided : Decided failure _
          (Completes [.rparen] b height (Reads (name .identifier))) ts :=
        name_final .identifier (by decide) ts ends failure firstFailed
      refine decided.lift [filler .rparen] [filler .ident] (fun k => next? .rparen k = none)
        (List.nil_append ts).symm ?_ (fun k _ => Closes.filler .rparen (by simp) k)
        (fun n room => by simp only [List.length_nil] at room; omega)
        (fun _ k _ => name_reads_filler .identifier k) fun k _ => by simp [next?, filler]
      intro rest k ts' replaced long atStart
      have empty' : next? .rparen ts' = none :=
        next?_none_replace replaced empty fun short => atStart (by omega)
      refine ⟨ts', replaced, fun φ failed' => ?_, fun _ k' _ reads => ?_⟩
      · dsimp only at failed' ⊢
        unfold parameters
        simp only [empty', zero, ↓reduceIte, bind, Except.bind, failed']
      · obtain ⟨first', firstRan', firstRest⟩ := reads
        obtain ⟨more, moreRan, moreRest⟩ : Reads moreParameters first'.rest k' := by
          rw [firstRest]
          exact moreParameters_close k'
        unfold Reads parameters
        simp only [empty', zero, ↓reduceIte, bind, Except.bind, firstRan', moreRan]
        exact ⟨_, rfl, moreRest⟩
    · -- the parameters after the first fail
      obtain ⟨⟨front, firstSplit⟩, firstEnds⟩ := name_rest ends firstRan
      have := first.shorter
      rcases Except.bind_eq_error failed with moreFailed | ⟨more, -, failed⟩
      · have decided : Decided failure _ (Completes closers b height (Reads moreParameters))
            first.rest :=
          moreParameters_final first.rest firstEnds failure moreFailed
        refine decided.lift [] [filler .rparen] (fun _ => True) firstSplit.symm ?_
          (fun _ closes => closes) (fun n room => by omega)
          (fun _ k _ => moreParameters_close k) fun _ _ => trivial
        intro rest k ts' replaced long _
        have empty' : next? .rparen ts' = none := next?_none_past empty replaced (by omega)
        obtain ⟨first', firstRan', -, firstReplaced⟩ := name_replace replaced firstRan long
        refine ⟨first'.rest, firstReplaced, fun φ failed' => ?_, fun _ k' _ reads => ?_⟩
        · dsimp only at failed' ⊢
          unfold parameters
          simp only [empty', zero, ↓reduceIte, bind, Except.bind, firstRan', failed']
        · obtain ⟨more', moreRan', moreRest⟩ := reads
          unfold Reads parameters
          simp only [empty', zero, ↓reduceIte, bind, Except.bind, firstRan', moreRan']
          exact ⟨_, rfl, moreRest⟩
      · cases failed

/-- A variable declaration after `cho`: a name, `=` and the value. -/
theorem variableDecl_final : ∀ b, Final statementClosers b 14 (variableDecl b)
  | 0 => fun ts ends failure failed => by
    rw [variableDecl] at failed
    cases failed
    exact tooDeep_decided ends fun _ => by rw [variableDecl]
  | b + 1 => by
    intro ts ends failure failed
    rw [variableDecl] at failed
    rcases Except.bind_eq_error failed with nameFailed | ⟨n, nameRan, failed⟩
    · -- the name fails
      have decided : Decided failure _
          (Completes [.equal] (b + 1) 14 (Reads (name .variableName))) ts :=
        name_final .variableName (by decide) ts ends failure nameFailed
      refine decided.lift [filler .equal, truth] [filler .ident] (fun _ => True)
        (List.nil_append ts).symm ?_ (fun k _ => Closes.filler .equal (by simp) _)
        (fun n room => by simp only [List.length_nil] at room; omega)
        (fun _ k _ => name_reads_filler .variableName k) fun _ _ => trivial
      intro rest k ts' replaced _ _
      refine ⟨ts', replaced, fun φ failed' => ?_, fun ready k' closes reads => ?_⟩
      · dsimp only at failed' ⊢
        rw [variableDecl]
        simp only [bind, Except.bind, failed']
      · obtain ⟨n', nameRan', nameRest⟩ := reads
        obtain ⟨_, equalsRan⟩ : Expects .equal .declarationEquals n'.rest (truth :: k') := by
          rw [nameRest]
          exact expects_filler .equal .declarationEquals (by decide) _
        obtain ⟨value, valueRan, valueRest⟩ :=
          expression_truth (b := b) (by simp at ready; omega) closes.expression
        unfold Reads
        rw [variableDecl]
        simp only [bind, Except.bind, nameRan', equalsRan, valueRan]
        exact ⟨_, rfl, valueRest⟩
    obtain ⟨⟨front, nameSplit⟩, nameEnds⟩ := name_rest ends nameRan
    have := n.shorter
    rcases Except.bind_eq_error failed with equalsFailed |
      ⟨⟨afterEquals, equalsShorter⟩, equalsRan, failed⟩
    · -- the `=` is missing
      have decided : Decided failure _
          (Completes [.keyword .dung] (b + 1) 14 (Expects .equal .declarationEquals)) n.rest :=
        expect_decided (by decide) (by decide) nameEnds equalsFailed
      refine decided.lift [truth] [filler .equal] (fun _ => True) nameSplit.symm ?_
        (fun k _ => Closes.filler (.keyword .dung) (by simp) k) (fun n room => by omega)
        (fun _ k _ => expects_filler .equal .declarationEquals (by decide) k) fun _ _ => trivial
      intro rest k ts' replaced long _
      obtain ⟨n', nameRan', -, nameReplaced⟩ := name_replace replaced nameRan long
      refine ⟨n'.rest, nameReplaced, fun φ failed' => ?_, fun ready k' closes reads => ?_⟩
      · dsimp only at failed' ⊢
        rw [variableDecl]
        simp only [bind, Except.bind, nameRan', failed']
      · obtain ⟨_, equalsRan'⟩ := reads
        obtain ⟨value, valueRan, valueRest⟩ : Reads (expression b) ([truth] ++ k') k' :=
          expression_truth (by omega) closes.expression
        unfold Reads
        rw [variableDecl]
        simp only [bind, Except.bind, nameRan', equalsRan', valueRan]
        exact ⟨_, rfl, valueRest⟩
    · -- the value fails
      obtain ⟨⟨front', equalsSplit⟩, equalsEnds⟩ := expect_rest nameEnds equalsRan
      dsimp only at failed
      rcases Except.bind_eq_error failed with valueFailed | ⟨value, -, failed⟩
      · refine ((exprsFinal b).expression afterEquals equalsEnds failure valueFailed).lift [] [truth]
          (fun _ => True)
          (show ts = (front ++ front') ++ afterEquals by
            rw [← nameSplit, ← equalsSplit, List.append_assoc])
          ?_ (fun _ closes => closes.expression)
          (fun n room => by simp only [List.length_append] at room; omega)
          (fun enough _ closes => expression_truth enough closes) fun _ _ => trivial
        intro rest k ts' replaced long _
        obtain ⟨n', nameRan', -, nameReplaced⟩ := name_replace replaced nameRan (by omega)
        obtain ⟨afterEquals', _, equalsRan', equalsReplaced⟩ :=
          expect_replace nameReplaced equalsRan long
        refine ⟨afterEquals', equalsReplaced, fun φ failed' => ?_, fun _ k' _ reads => ?_⟩
        · dsimp only at failed' ⊢
          rw [variableDecl]
          simp only [bind, Except.bind, nameRan', equalsRan', failed']
        · obtain ⟨value', valueRan', valueRest⟩ := reads
          unfold Reads
          rw [variableDecl]
          simp only [bind, Except.bind, nameRan', equalsRan', valueRan']
          exact ⟨_, rfl, valueRest⟩
      · cases failed

end Declarations

/-- The invariant of the statement productions with budget `b`. -/
structure StmtsFinal (b : Nat) : Prop where
  declaration : Final statementClosers b 13 (declaration b)
  routine : ∀ kind, Final statementClosers b 14 (routine b kind)
  classDecl : Final statementClosers b 14 (classDecl b)
  classBody : Final statementClosers b 1 (classBody b)
  statement : Final statementClosers b 12 (statement b)
  blockRest : Final statementClosers b 14 (blockRest b)
  ifRest : Final statementClosers b 14 (ifRest b)
  whileRest : Final statementClosers b 14 (whileRest b)
  forEachRest : Final statementClosers b 14 (forEachRest b)

theorem atCloseOrEnd_truth (k : List Token) : atCloseOrEnd .rbrace (truth :: k) = false := by
  simp [atCloseOrEnd, atEnd, peek, next?, truth, filler]

theorem atCloseOrEnd_filler (k : List Token) :
    atCloseOrEnd .rbrace (filler .rbrace :: k) = true := by
  simp [atCloseOrEnd, next?, filler]

section Statements

variable {b : Nat}

/-- A return with a value: the value fails, or no budget is left for it. -/
theorem return_decided {ts tail : List Token} {shorter : tail.length < ts.length}
    {failure : ParseFailure} (ends : EndsAtEof ts) (noIf : next? (.keyword .neu) ts = none)
    (noWhile : next? (.keyword .khi) ts = none) (noForEach : next? (.keyword .voiMoi) ts = none)
    (noBlock : next? .lbrace ts = none)
    (found : next? (.keyword .traVe) ts = some ⟨tail, shorter⟩)
    (valued : atCloseOrEnd .rbrace tail = false) (failed : statement (b + 1) ts = .error failure) :
    Decided failure (fun ts' φ => statement (b + 1) ts' = .error φ)
      (Completes statementClosers (b + 1) 12 (Reads (statement (b + 1)))) ts := by
  rw [statement, noIf, noWhile, noForEach, noBlock, found] at failed
  simp only [valued, Bool.false_eq_true, ↓reduceIte] at failed
  -- past the keyword the tokens in place of the value start no closing token
  have valued' : ∀ {rest k tail'}, Replaced rest k tail tail' → rest.length ≤ tail.length →
      (rest.length = tail.length → atCloseOrEnd .rbrace k = false) →
      atCloseOrEnd .rbrace tail' = false := fun tailReplaced long atStart =>
    (atCloseOrEnd_replace_le tailReplaced long fun same => (atStart same).trans valued.symm).trans
      valued
  cases b with
  | zero =>
    -- no budget is left for the value
    cases failed
    obtain ⟨u, split, -⟩ := next?_eq_cons found
    have decided : Decided .tooDeep (fun _ φ => φ = .tooDeep)
        (Completes statementClosers 0 0 fun _ _ => True) tail :=
      tooDeep_decided (next?_rest ends found).2 fun _ => rfl
    refine decided.lift [] [truth] (fun k => atCloseOrEnd .rbrace k = false)
      (show ts = [u] ++ tail from split) ?_ (fun _ closes => closes)
      (fun n room => by simp only [List.length_singleton] at room; omega)
      (fun _ _ _ => trivial) fun k _ => atCloseOrEnd_truth _
    intro rest k ts' replaced long atStart
    obtain ⟨tail', _, found', tailReplaced⟩ := next?_replace replaced found long
    refine ⟨tail', tailReplaced, fun φ isDeep => ?_, fun room => absurd room (by simp)⟩
    dsimp only at isDeep ⊢
    subst isDeep
    rw [statement, next?_none_past noIf replaced (by omega), next?_none_past noWhile replaced
      (by omega), next?_none_past noForEach replaced (by omega),
      next?_none_past noBlock replaced (by omega), found']
    simp only [valued' tailReplaced long atStart, Bool.false_eq_true, ↓reduceIte]
  | succ b =>
    -- the value fails
    rcases Except.bind_eq_error failed with valueFailed | ⟨_, -, failed⟩
    · refine keyword_decided [] [truth] (fun k => atCloseOrEnd .rbrace k = false)
        ((exprsFinal b).expression tail) ends found valueFailed
        (fun replaced tailReplaced long atStart found' =>
          ⟨fun φ failed' => ?_, fun _ k' _ reads => ?_⟩)
        (fun _ closes => closes.expression) (fun n room => by omega)
        (fun enough _ closes => expression_truth enough closes) fun k _ => atCloseOrEnd_truth _
      · rw [statement, next?_none_past noIf replaced (by omega), next?_none_past noWhile replaced
          (by omega), next?_none_past noForEach replaced (by omega),
          next?_none_past noBlock replaced (by omega), found']
        simp only [valued' tailReplaced long atStart, Bool.false_eq_true, ↓reduceIte, bind,
          Except.bind, failed']
      · obtain ⟨value, valueRan, valueRest⟩ := reads
        unfold Reads
        rw [statement, next?_none_past noIf replaced (by omega), next?_none_past noWhile replaced
          (by omega), next?_none_past noForEach replaced (by omega),
          next?_none_past noBlock replaced (by omega), found']
        simp only [valued' tailReplaced long atStart, Bool.false_eq_true, ↓reduceIte, bind,
          Except.bind, valueRan]
        exact ⟨_, rfl, valueRest⟩
    · cases failed

/-- A statement: its first token decides the production, and every list that agrees with the
input past that token takes the same one. -/
theorem statement_final (ih : StmtsFinal b) :
    Final statementClosers (b + 1) 12 (statement (b + 1)) := by
  intro ts ends failure failed
  have whole := failed
  rw [statement] at failed
  cases isIf : next? (.keyword .neu) ts
  case some next =>
    obtain ⟨tail, shorter⟩ := next
    simp only [isIf] at failed
    rcases Except.bind_eq_error failed with ifFailed | ⟨_, -, failed⟩
    · refine keyword_decided [] [filler .lparen, truth, filler .rparen, truth] (fun _ => True)
        (ih.ifRest tail) ends isIf ifFailed
        (fun _ _ _ _ found' => ⟨fun φ failed' => ?_, fun _ k' _ reads => ?_⟩)
        (fun _ closes => closes) (fun n room => by omega)
        (fun enough _ closes => (conditional_finishes enough closes).1) fun _ _ => trivial
      · rw [statement, found']
        simp only [bind, Except.bind, failed']
      · obtain ⟨p, ran, pRest⟩ := reads
        unfold Reads
        rw [statement, found']
        simp only [bind, Except.bind, ran]
        exact ⟨_, rfl, pRest⟩
    · cases failed
  simp only [isIf] at failed
  cases isWhile : next? (.keyword .khi) ts
  case some next =>
    obtain ⟨tail, shorter⟩ := next
    simp only [isWhile] at failed
    rcases Except.bind_eq_error failed with whileFailed | ⟨_, -, failed⟩
    · refine keyword_decided [] [filler .lparen, truth, filler .rparen, truth] (fun _ => True)
        (ih.whileRest tail) ends isWhile whileFailed
        (fun replaced _ long _ found' => ⟨fun φ failed' => ?_, fun _ k' _ reads => ?_⟩)
        (fun _ closes => closes) (fun n room => by omega)
        (fun enough _ closes => (conditional_finishes enough closes).2) fun _ _ => trivial
      · rw [statement, next?_none_past isIf replaced (by omega), found']
        simp only [bind, Except.bind, failed']
      · obtain ⟨p, ran, pRest⟩ := reads
        unfold Reads
        rw [statement, next?_none_past isIf replaced (by omega), found']
        simp only [bind, Except.bind, ran]
        exact ⟨_, rfl, pRest⟩
    · cases failed
  simp only [isWhile] at failed
  cases isForEach : next? (.keyword .voiMoi) ts
  case some next =>
    obtain ⟨tail, shorter⟩ := next
    simp only [isForEach] at failed
    rcases Except.bind_eq_error failed with loopFailed | ⟨_, -, failed⟩
    · refine keyword_decided []
        [filler .lparen, filler .ident, filler (.keyword .trong), truth, filler .rparen, truth]
        (fun _ => True) (ih.forEachRest tail) ends isForEach loopFailed
        (fun replaced _ long _ found' => ⟨fun φ failed' => ?_, fun _ k' _ reads => ?_⟩)
        (fun _ closes => closes) (fun n room => by omega)
        (fun enough _ closes => forEachRest_finishes enough closes) fun _ _ => trivial
      · rw [statement, next?_none_past isIf replaced (by omega),
          next?_none_past isWhile replaced (by omega), found']
        simp only [bind, Except.bind, failed']
      · obtain ⟨p, ran, pRest⟩ := reads
        unfold Reads
        rw [statement, next?_none_past isIf replaced (by omega),
          next?_none_past isWhile replaced (by omega), found']
        simp only [bind, Except.bind, ran]
        exact ⟨_, rfl, pRest⟩
    · cases failed
  simp only [isForEach] at failed
  cases isBlock : next? .lbrace ts
  case some next =>
    obtain ⟨tail, shorter⟩ := next
    simp only [isBlock] at failed
    rcases Except.bind_eq_error failed with blockFailed | ⟨_, -, failed⟩
    · refine keyword_decided [] [filler .rbrace] (fun _ => True) (ih.blockRest tail) ends isBlock
        blockFailed
        (fun replaced _ long _ found' => ⟨fun φ failed' => ?_, fun _ k' _ reads => ?_⟩)
        (fun _ closes => closes) (fun n room => by omega)
        (fun _ k _ => blockRest_close (by omega) k) fun _ _ => trivial
      · rw [statement, next?_none_past isIf replaced (by omega),
          next?_none_past isWhile replaced (by omega),
          next?_none_past isForEach replaced (by omega), found']
        simp only [bind, Except.bind, failed']
      · obtain ⟨p, ran, pRest⟩ := reads
        unfold Reads
        rw [statement, next?_none_past isIf replaced (by omega),
          next?_none_past isWhile replaced (by omega),
          next?_none_past isForEach replaced (by omega), found']
        simp only [bind, Except.bind, ran]
        exact ⟨_, rfl, pRest⟩
    · cases failed
  simp only [isBlock] at failed
  cases isReturn : next? (.keyword .traVe) ts
  case some next =>
    obtain ⟨tail, shorter⟩ := next
    cases valued : atCloseOrEnd .rbrace tail
    case true =>
      simp only [isReturn, valued, ↓reduceIte] at failed
      cases failed
    exact return_decided ends isIf isWhile isForEach isBlock isReturn valued whole
  -- an expression statement, which starts with no keyword of a statement
  simp only [isReturn] at failed
  rcases Except.bind_eq_error failed with valueFailed | ⟨_, -, failed⟩
  · refine ((exprsFinal b).expression ts ends failure valueFailed).lift [] [truth]
      (fun k => ∀ kind, kind ≠ .keyword .dung → next? kind k = none) (List.nil_append ts).symm
      ?_ (fun _ closes => closes.expression)
      (fun n room => by simp only [List.length_nil] at room; omega)
      (fun enough _ closes => expression_truth enough closes) fun _ _ _ other => next?_truth other _
    intro rest k ts' replaced long atStart
    have plain : ∀ {kind}, next? kind ts = none → kind ≠ .keyword .dung →
        next? kind ts' = none :=
      fun missing other => next?_none_replace replaced missing fun short => atStart (by omega) _ other
    refine ⟨ts', replaced, fun φ failed' => ?_, fun _ k' _ reads => ?_⟩
    · dsimp only at failed' ⊢
      rw [statement, plain isIf (by decide), plain isWhile (by decide), plain isForEach (by decide),
        plain isBlock (by decide), plain isReturn (by decide)]
      simp only [bind, Except.bind, failed']
    · obtain ⟨value, valueRan, valueRest⟩ := reads
      unfold Reads
      rw [statement, plain isIf (by decide), plain isWhile (by decide), plain isForEach (by decide),
        plain isBlock (by decide), plain isReturn (by decide)]
      simp only [bind, Except.bind, valueRan]
      exact ⟨_, rfl, valueRest⟩
  · cases failed

/-- A declaration: `cho`, `hàm` or `lớp` decide it, and otherwise it is a statement. -/
theorem declaration_final (ih : StmtsFinal b) :
    Final statementClosers (b + 1) 13 (declaration (b + 1)) := by
  intro ts ends failure failed
  rw [declaration] at failed
  cases isVariable : next? (.keyword .cho) ts
  case some next =>
    obtain ⟨tail, shorter⟩ := next
    simp only [isVariable] at failed
    rcases Except.bind_eq_error failed with declFailed | ⟨_, -, failed⟩
    · refine keyword_decided [] [filler .ident, filler .equal, truth] (fun _ => True)
        (variableDecl_final b tail) ends isVariable declFailed
        (fun _ _ _ _ found' => ⟨fun φ failed' => ?_, fun _ k' _ reads => ?_⟩)
        (fun _ closes => closes) (fun n room => by omega)
        (fun enough _ closes => variableDecl_finishes enough closes) fun _ _ => trivial
      · rw [declaration, found']
        simp only [bind, Except.bind, failed']
      · obtain ⟨p, ran, pRest⟩ := reads
        unfold Reads
        rw [declaration, found']
        simp only [bind, Except.bind, ran]
        exact ⟨_, rfl, pRest⟩
    · cases failed
  simp only [isVariable] at failed
  cases isFunction : next? (.keyword .ham) ts
  case some next =>
    obtain ⟨tail, shorter⟩ := next
    simp only [isFunction] at failed
    rcases Except.bind_eq_error failed with routineFailed | ⟨_, -, failed⟩
    · refine keyword_decided []
        [filler .ident, filler .lparen, filler .rparen, filler .lbrace, filler .rbrace]
        (fun _ => True) (ih.routine .function tail) ends isFunction routineFailed
        (fun replaced _ long _ found' => ⟨fun φ failed' => ?_, fun _ k' _ reads => ?_⟩)
        (fun _ closes => closes) (fun n room => by omega)
        (fun enough k _ => routine_finishes enough .function k) fun _ _ => trivial
      · rw [declaration, next?_none_past isVariable replaced (by omega), found']
        simp only [bind, Except.bind, failed']
      · obtain ⟨p, ran, pRest⟩ := reads
        unfold Reads
        rw [declaration, next?_none_past isVariable replaced (by omega), found']
        simp only [bind, Except.bind, ran]
        exact ⟨_, rfl, pRest⟩
    · cases failed
  simp only [isFunction] at failed
  cases isClass : next? (.keyword .lop) ts
  case some next =>
    obtain ⟨tail, shorter⟩ := next
    simp only [isClass] at failed
    rcases Except.bind_eq_error failed with classFailed | ⟨_, -, failed⟩
    · refine keyword_decided [] [filler .ident, filler .lbrace, filler .rbrace] (fun _ => True)
        (ih.classDecl tail) ends isClass classFailed
        (fun replaced _ long _ found' => ⟨fun φ failed' => ?_, fun _ k' _ reads => ?_⟩)
        (fun _ closes => closes) (fun n room => by omega)
        (fun enough k _ => classDecl_finishes enough k) fun _ _ => trivial
      · rw [declaration, next?_none_past isVariable replaced (by omega),
          next?_none_past isFunction replaced (by omega), found']
        simp only [bind, Except.bind, failed']
      · obtain ⟨p, ran, pRest⟩ := reads
        unfold Reads
        rw [declaration, next?_none_past isVariable replaced (by omega),
          next?_none_past isFunction replaced (by omega), found']
        simp only [bind, Except.bind, ran]
        exact ⟨_, rfl, pRest⟩
    · cases failed
  -- a statement, which starts with no keyword of a declaration
  simp only [isClass] at failed
  refine (ih.statement ts ends failure failed).lift [] [truth]
    (fun k => ∀ kind, kind ≠ .keyword .dung → next? kind k = none) (List.nil_append ts).symm ?_
    (fun _ closes => closes) (fun n room => by simp only [List.length_nil] at room; omega)
    (fun enough _ closes => statement_truth enough closes) fun _ _ _ other => next?_truth other _
  intro rest k ts' replaced long atStart
  have plain : ∀ {kind}, next? kind ts = none → kind ≠ .keyword .dung → next? kind ts' = none :=
    fun missing other => next?_none_replace replaced missing fun short => atStart (by omega) _ other
  refine ⟨ts', replaced, fun φ failed' => ?_, fun _ k' _ reads => ?_⟩
  · dsimp only at failed' ⊢
    rw [declaration, plain isVariable (by decide), plain isFunction (by decide),
      plain isClass (by decide)]
    exact failed'
  · obtain ⟨p, ran, pRest⟩ := reads
    unfold Reads
    rw [declaration, plain isVariable (by decide), plain isFunction (by decide),
      plain isClass (by decide)]
    exact ⟨p, ran, pRest⟩

/-- The brace that closes a block, or a class body, is missing at the end of the input. -/
theorem close_decided {α : Type} {f : (tokens : List Token) → Except ParseFailure (Parsed tokens α)}
    {problem : Problem} {ts : List Token} {failure : ParseFailure} {b' height : Nat}
    (local_ : problem ≠ .invalidTarget) (ends : EndsAtEof ts)
    (closing : atCloseOrEnd .rbrace ts = true)
    (failed : expect .rbrace problem ts = .error failure)
    (route : ∀ {ts'}, atCloseOrEnd .rbrace ts' = true →
      (∀ φ, expect .rbrace problem ts' = .error φ → f ts' = .error φ) ∧
      ∀ k', Expects .rbrace problem ts' k' → Reads f ts' k') :
    Decided failure (fun ts' φ => f ts' = .error φ) (Completes statementClosers b' height (Reads f))
      ts := by
  have decided : Decided failure _
      (Completes statementClosers b' height (Expects .rbrace problem)) ts :=
    expect_decided local_ (by decide) ends failed
  refine decided.lift [] [filler .rbrace] (fun k => atCloseOrEnd .rbrace k = true)
    (List.nil_append ts).symm ?_ (fun _ closes => closes) (fun n room => by omega)
    (fun _ k _ => expects_filler .rbrace problem (by decide) k) fun k _ => atCloseOrEnd_filler _
  intro rest k ts' replaced long atStart
  have closing' : atCloseOrEnd .rbrace ts' = true :=
    (atCloseOrEnd_replace_le replaced long fun same => (atStart same).trans closing.symm).trans
      closing
  obtain ⟨fails, reads⟩ := route closing'
  exact ⟨ts', replaced, fails, fun _ k' _ read => reads k' read⟩

/-- The declarations of a block and its closing brace, by induction on the tokens left. -/
theorem blockRest_final (ih : StmtsFinal b) :
    Final statementClosers (b + 1) 14 (blockRest (b + 1)) := by
  refine Final.of_shorter fun ts loop ends failure failed => ?_
  rw [blockRest] at failed
  cases closing : atCloseOrEnd .rbrace ts
  case true =>
    simp only [closing, ↓reduceIte] at failed
    rcases Except.bind_eq_error failed with closeFailed | ⟨_, -, failed⟩
    · refine close_decided (by decide) ends closing closeFailed fun closing' =>
        ⟨fun φ failed' => ?_, fun k' reads => ?_⟩
      · rw [blockRest, closing']
        simp only [↓reduceIte, bind, Except.bind, failed']
      · obtain ⟨_, closeRan⟩ := reads
        unfold Reads
        rw [blockRest, closing']
        simp only [↓reduceIte, bind, Except.bind, closeRan]
        exact ⟨_, rfl, rfl⟩
    · cases failed
  simp only [closing, Bool.false_eq_true, ↓reduceIte] at failed
  rcases Except.bind_eq_error failed with firstFailed | ⟨first, firstRan, failed⟩
  · -- the first declaration fails
    refine (ih.declaration ts ends failure firstFailed).lift [filler .rbrace] [truth]
      (fun k => atCloseOrEnd .rbrace k = false) (List.nil_append ts).symm ?_
      (fun k _ => Closes.filler .rbrace (by decide) k)
      (fun n room => by simp only [List.length_nil] at room; omega)
      (fun enough _ closes => declaration_truth enough closes) fun k _ => atCloseOrEnd_truth _
    intro rest k ts' replaced long atStart
    have closing' : atCloseOrEnd .rbrace ts' = false :=
      (atCloseOrEnd_replace_le replaced long fun same => (atStart same).trans closing.symm).trans
        closing
    refine ⟨ts', replaced, fun φ failed' => ?_, fun _ k' _ reads => ?_⟩
    · dsimp only at failed' ⊢
      rw [blockRest, closing']
      simp only [Bool.false_eq_true, ↓reduceIte, bind, Except.bind, failed']
    · obtain ⟨first', firstRan', firstRest⟩ := reads
      obtain ⟨more, moreRan, moreRest⟩ : Reads (blockRest (b + 1)) first'.rest k' := by
        rw [firstRest]
        exact blockRest_close (by omega) k'
      unfold Reads
      rw [blockRest, closing']
      simp only [Bool.false_eq_true, ↓reduceIte, bind, Except.bind, firstRan', moreRan]
      exact ⟨_, rfl, moreRest⟩
  · -- the declarations after the first fail
    obtain ⟨⟨front, firstSplit⟩, firstEnds⟩ := (stmtsConfined b).declaration.rest ends firstRan
    have := first.shorter
    rcases Except.bind_eq_error failed with moreFailed | ⟨more, -, failed⟩
    · refine (loop first.rest (by omega) firstEnds failure moreFailed).lift [] [filler .rbrace]
        (Closes statementClosers) firstSplit.symm ?_ (fun _ closes => closes)
        (fun n room => by omega) (fun _ k _ => blockRest_close (by omega) k)
        fun k _ => Closes.filler .rbrace (by decide) _
      intro rest k ts' replaced long atStart
      have closing' : atCloseOrEnd .rbrace ts' = false :=
        (atCloseOrEnd_replace replaced (by omega)).trans closing
      obtain ⟨first', firstRan', -, firstReplaced⟩ :=
        (stmtsConfined b).declaration.replace (stmtsSteady b).declaration
          (stmtsClosable b).declaration ends firstRan replaced long fun same => atStart same.symm
      refine ⟨first'.rest, firstReplaced, fun φ failed' => ?_, fun _ k' _ reads => ?_⟩
      · dsimp only at failed' ⊢
        rw [blockRest, closing']
        simp only [Bool.false_eq_true, ↓reduceIte, bind, Except.bind, firstRan', failed']
      · obtain ⟨more', moreRan', moreRest⟩ := reads
        unfold Reads
        rw [blockRest, closing']
        simp only [Bool.false_eq_true, ↓reduceIte, bind, Except.bind, firstRan', moreRan']
        exact ⟨_, rfl, moreRest⟩
    · cases failed

/-- The methods of a class body and its closing brace, by induction on the tokens left. -/
theorem classBody_final (ih : StmtsFinal b) :
    Final statementClosers (b + 1) 1 (classBody (b + 1)) := by
  refine Final.of_shorter fun ts loop ends failure failed => ?_
  rw [classBody] at failed
  cases closing : atCloseOrEnd .rbrace ts
  case true =>
    simp only [closing, ↓reduceIte] at failed
    rcases Except.bind_eq_error failed with closeFailed | ⟨_, -, failed⟩
    · refine close_decided (by decide) ends closing closeFailed fun closing' =>
        ⟨fun φ failed' => ?_, fun k' reads => ?_⟩
      · rw [classBody, closing']
        simp only [↓reduceIte, bind, Except.bind, failed']
      · obtain ⟨_, closeRan⟩ := reads
        unfold Reads
        rw [classBody, closing']
        simp only [↓reduceIte, bind, Except.bind, closeRan]
        exact ⟨_, rfl, rfl⟩
    · cases failed
  simp only [closing, Bool.false_eq_true, ↓reduceIte] at failed
  cases isMethod : next? (.keyword .ham) ts
  case none =>
    -- a token that starts no method, where the body does not close
    simp only [isMethod] at failed
    obtain _ | ⟨u, rest⟩ := ts
    · exact absurd rfl ends.ne_nil
    have named : failure = .error ⟨.methodsOnly, u⟩ := by
      simp only [fail, peek, Except.error.injEq] at failed
      exact failed.symm
    subst named
    refine .first ⟨fun _ => rfl, fun invalid => by cases invalid⟩ (fun ts' => ?_)
      fun e isError => ?_
    · have cut : Cut u rest ts' (u :: rest) (u :: ts') := ⟨[], rfl, rfl⟩
      rw [classBody, atCloseOrEnd_cut cut, closing, next?_cut_none cut isMethod]
      rfl
    · cases isError
      exact ⟨(fun invalid => by cases invalid), [filler .rbrace],
        fun _ k _ => classBody_close (by omega) k⟩
  case some next =>
    obtain ⟨tail, shorter⟩ := next
    simp only [isMethod] at failed
    rcases Except.bind_eq_error failed with methodFailed | ⟨method, methodRan, failed⟩
    · -- the method after `hàm` fails
      refine keyword_decided [filler .rbrace]
        [filler .ident, filler .lparen, filler .rparen, filler .lbrace, filler .rbrace]
        (fun _ => True) (ih.routine .method tail) ends isMethod methodFailed
        (fun replaced _ long _ found' => ⟨fun φ failed' => ?_, fun _ k' _ reads => ?_⟩)
        (fun k _ => Closes.filler .rbrace (by decide) k) (fun n room => by omega)
        (fun enough k _ => routine_finishes enough .method k) fun _ _ => trivial
      · have closing' := Eq.trans (atCloseOrEnd_replace replaced (by omega)) closing
        rw [classBody, closing']
        simp only [Bool.false_eq_true, ↓reduceIte, found', bind, Except.bind, failed']
      · obtain ⟨method', methodRan', methodRest⟩ := reads
        obtain ⟨more, moreRan, moreRest⟩ : Reads (classBody (b + 1)) method'.rest k' := by
          rw [methodRest]
          exact classBody_close (by omega) k'
        have closing' := Eq.trans (atCloseOrEnd_replace replaced (by omega)) closing
        unfold Reads
        rw [classBody, closing']
        simp only [Bool.false_eq_true, ↓reduceIte, found', bind, Except.bind, methodRan',
          moreRan]
        exact ⟨_, rfl, moreRest⟩
    · -- the methods after the first fail
      obtain ⟨u, split, -⟩ := next?_eq_cons isMethod
      have tailEnds := (next?_rest ends isMethod).2
      obtain ⟨⟨front, methodSplit⟩, methodEnds⟩ :=
        ((stmtsConfined b).routine .method).rest tailEnds methodRan
      have := method.shorter
      rcases Except.bind_eq_error failed with moreFailed | ⟨more, -, failed⟩
      · refine (loop method.rest (by omega) methodEnds failure moreFailed).lift [] [filler .rbrace]
          (Closes statementClosers)
          (show ts = (u :: front) ++ method.rest from
            split.trans (congrArg (List.cons u) methodSplit.symm))
          ?_ (fun _ closes => closes) (fun n room => by omega)
          (fun _ k _ => classBody_close (by omega) k)
          fun k _ => Closes.filler .rbrace (by decide) _
        intro rest k ts' replaced long atStart
        have closing' : atCloseOrEnd .rbrace ts' = false :=
          (atCloseOrEnd_replace replaced (by omega)).trans closing
        obtain ⟨tail', _, found', tailReplaced⟩ := next?_replace replaced isMethod (by omega)
        obtain ⟨method', methodRan', -, methodReplaced⟩ :=
          ((stmtsConfined b).routine .method).replace ((stmtsSteady b).routine .method)
            ((stmtsClosable b).routine .method) tailEnds methodRan tailReplaced long
            fun same => atStart same.symm
        refine ⟨method'.rest, methodReplaced, fun φ failed' => ?_, fun _ k' _ reads => ?_⟩
        · dsimp only at failed' ⊢
          rw [classBody, closing']
          simp only [Bool.false_eq_true, ↓reduceIte, found', bind, Except.bind, methodRan',
            failed']
        · obtain ⟨more', moreRan', moreRest⟩ := reads
          unfold Reads
          rw [classBody, closing']
          simp only [Bool.false_eq_true, ↓reduceIte, found', bind, Except.bind, methodRan',
            moreRan']
          exact ⟨_, rfl, moreRest⟩
      · cases failed

section Routine

variable {kind : RoutineKind} {ts afterOpen afterBrace : List Token} {n : Parsed ts String}
  {opened : afterOpen.length < n.rest.length} {params : Parsed afterOpen (List String)}
  {braced : afterBrace.length < params.rest.length} {failure : ParseFailure}

/-- A routine reads its name, `(`, its parameters, `{` and its body. -/
theorem routine_reads {k' : List Token} {body : Parsed afterBrace (List Stmt)}
    (nameRan : name (.routineName kind) ts = .ok n)
    (openRan : expect .lparen (.routineOpen kind) n.rest = .ok ⟨afterOpen, opened⟩)
    (paramsRan : parameters b afterOpen = .ok params)
    (braceRan : expect .lbrace (.bodyOpen kind) params.rest = .ok ⟨afterBrace, braced⟩)
    (bodyRan : blockRest b afterBrace = .ok body) (bodyRest : body.rest = k') :
    Reads (routine (b + 1) kind) ts k' := by
  unfold Reads
  rw [routine]
  simp only [bind, Except.bind, nameRan, openRan, paramsRan, braceRan, bodyRan]
  exact ⟨_, rfl, bodyRest⟩

/-- An empty body finishes a routine after its `{`. -/
theorem routine_reads_brace {k' : List Token} (enough : 1 ≤ b)
    (nameRan : name (.routineName kind) ts = .ok n)
    (openRan : expect .lparen (.routineOpen kind) n.rest = .ok ⟨afterOpen, opened⟩)
    (paramsRan : parameters b afterOpen = .ok params)
    (braceRan : Expects .lbrace (.bodyOpen kind) params.rest (filler .rbrace :: k')) :
    Reads (routine (b + 1) kind) ts k' := by
  obtain ⟨_, braceRan⟩ := braceRan
  obtain ⟨body, bodyRan, bodyRest⟩ := blockRest_close enough k'
  exact routine_reads nameRan openRan paramsRan braceRan bodyRan bodyRest

/-- No parameters and an empty body finish a routine after its `(`. -/
theorem routine_reads_open {k' : List Token} (enough : 1 ≤ b)
    (nameRan : name (.routineName kind) ts = .ok n)
    (openRan : Expects .lparen (.routineOpen kind) n.rest
      (filler .rparen :: filler .lbrace :: filler .rbrace :: k')) :
    Reads (routine (b + 1) kind) ts k' := by
  obtain ⟨_, openRan⟩ := openRan
  obtain ⟨params, paramsRan, paramsRest⟩ :=
    parameters_close b (filler .lbrace :: filler .rbrace :: k')
  refine routine_reads_brace enough nameRan openRan paramsRan ?_
  rw [paramsRest]
  exact expects_filler .lbrace (.bodyOpen kind) (by decide) _

theorem routine_name_decided (ends : EndsAtEof ts)
    (failed : name (.routineName kind) ts = .error failure) :
    Decided failure (fun ts' φ => routine (b + 1) kind ts' = .error φ)
      (Completes statementClosers (b + 1) 14 (Reads (routine (b + 1) kind))) ts := by
  have decided : Decided failure _
      (Completes [.lparen] (b + 1) 14 (Reads (name (.routineName kind)))) ts :=
    name_final _ (fun invalid => by cases invalid) ts ends failure failed
  refine decided.lift [filler .lparen, filler .rparen, filler .lbrace, filler .rbrace]
    [filler .ident] (fun _ => True) (List.nil_append ts).symm ?_
    (fun k _ => Closes.filler .lparen (by simp) _)
    (fun n room => by simp only [List.length_nil] at room; omega)
    (fun _ k _ => name_reads_filler _ k) fun _ _ => trivial
  intro rest k ts' replaced _ _
  refine ⟨ts', replaced, fun φ failed' => ?_, fun ready k' _ reads => ?_⟩
  · dsimp only at failed' ⊢
    rw [routine]
    simp only [bind, Except.bind, failed']
  · obtain ⟨n', nameRan', nameRest⟩ := reads
    refine routine_reads_open (by simp at ready; omega) nameRan' ?_
    rw [nameRest]
    exact expects_filler .lparen (.routineOpen kind) (by decide) _

theorem routine_open_decided (ends : EndsAtEof ts)
    (nameRan : name (.routineName kind) ts = .ok n)
    (failed : expect .lparen (.routineOpen kind) n.rest = .error failure) :
    Decided failure (fun ts' φ => routine (b + 1) kind ts' = .error φ)
      (Completes statementClosers (b + 1) 14 (Reads (routine (b + 1) kind))) ts := by
  obtain ⟨⟨front, nameSplit⟩, nameEnds⟩ := name_rest ends nameRan
  have decided : Decided failure _
      (Completes [.rparen] (b + 1) 14 (Expects .lparen (.routineOpen kind))) n.rest :=
    expect_decided (fun invalid => by cases invalid) (by decide) nameEnds failed
  refine decided.lift [filler .rparen, filler .lbrace, filler .rbrace] [filler .lparen]
    (fun _ => True) nameSplit.symm ?_ (fun k _ => Closes.filler .rparen (by simp) _)
    (fun n room => by omega)
    (fun _ k _ => expects_filler .lparen (.routineOpen kind) (by decide) k) fun _ _ => trivial
  intro rest k ts' replaced long _
  obtain ⟨n', nameRan', -, nameReplaced⟩ := name_replace replaced nameRan long
  refine ⟨n'.rest, nameReplaced, fun φ failed' => ?_, fun ready k' _ reads => ?_⟩
  · dsimp only at failed' ⊢
    rw [routine]
    simp only [bind, Except.bind, nameRan', failed']
  · exact routine_reads_open (by omega) nameRan' reads

theorem routine_parameters_decided (ends : EndsAtEof ts)
    (nameRan : name (.routineName kind) ts = .ok n)
    (openRan : expect .lparen (.routineOpen kind) n.rest = .ok ⟨afterOpen, opened⟩)
    (failed : parameters b afterOpen = .error failure) :
    Decided failure (fun ts' φ => routine (b + 1) kind ts' = .error φ)
      (Completes statementClosers (b + 1) 14 (Reads (routine (b + 1) kind))) ts := by
  obtain ⟨⟨nameFront, nameSplit⟩, nameEnds⟩ := name_rest ends nameRan
  obtain ⟨⟨openFront, openSplit⟩, openEnds⟩ := expect_rest nameEnds openRan
  have decided : Decided failure _ (Completes [.lbrace] (b + 1) 14 (Reads (parameters b)))
      afterOpen :=
    parameters_final b afterOpen openEnds failure failed
  refine decided.lift [filler .lbrace, filler .rbrace] [filler .rparen] (fun _ => True)
    (show ts = (nameFront ++ openFront) ++ afterOpen by
      rw [← nameSplit, ← openSplit, List.append_assoc])
    ?_ (fun k _ => Closes.filler .lbrace (by simp) _) (fun n room => by omega)
    (fun _ k _ => parameters_close b k) fun _ _ => trivial
  intro rest k ts' replaced long _
  obtain ⟨n', nameRan', -, nameReplaced⟩ := name_replace replaced nameRan (by omega)
  obtain ⟨afterOpen', _, openRan', openReplaced⟩ := expect_replace nameReplaced openRan long
  refine ⟨afterOpen', openReplaced, fun φ failed' => ?_, fun ready k' _ reads => ?_⟩
  · dsimp only at failed' ⊢
    rw [routine]
    simp only [bind, Except.bind, nameRan', openRan', failed']
  · obtain ⟨params', paramsRan', paramsRest⟩ := reads
    refine routine_reads_brace (by simp at ready; omega) nameRan' openRan' paramsRan' ?_
    rw [paramsRest]
    exact expects_filler .lbrace (.bodyOpen kind) (by decide) _

theorem routine_brace_decided (ends : EndsAtEof ts)
    (nameRan : name (.routineName kind) ts = .ok n)
    (openRan : expect .lparen (.routineOpen kind) n.rest = .ok ⟨afterOpen, opened⟩)
    (paramsRan : parameters b afterOpen = .ok params)
    (failed : expect .lbrace (.bodyOpen kind) params.rest = .error failure) :
    Decided failure (fun ts' φ => routine (b + 1) kind ts' = .error φ)
      (Completes statementClosers (b + 1) 14 (Reads (routine (b + 1) kind))) ts := by
  obtain ⟨⟨nameFront, nameSplit⟩, nameEnds⟩ := name_rest ends nameRan
  obtain ⟨⟨openFront, openSplit⟩, openEnds⟩ := expect_rest nameEnds openRan
  obtain ⟨⟨paramsFront, paramsSplit⟩, paramsEnds⟩ :=
    (parameters_confined b).rest openEnds paramsRan
  have := params.shorter
  have decided : Decided failure _
      (Completes [.rbrace] (b + 1) 14 (Expects .lbrace (.bodyOpen kind))) params.rest :=
    expect_decided (fun invalid => by cases invalid) (by decide) paramsEnds failed
  refine decided.lift [filler .rbrace] [filler .lbrace] (Closes [.lbrace])
    (show ts = (nameFront ++ openFront ++ paramsFront) ++ params.rest by
      rw [← nameSplit, ← openSplit]
      simp only [List.append_assoc, paramsSplit])
    ?_ (fun k _ => Closes.filler .rbrace (by simp) _) (fun n room => by omega)
    (fun _ k _ => expects_filler .lbrace (.bodyOpen kind) (by decide) k)
    fun _ _ => Closes.filler .lbrace (by simp) _
  intro rest k ts' replaced long atStart
  obtain ⟨n', nameRan', -, nameReplaced⟩ := name_replace replaced nameRan (by omega)
  obtain ⟨afterOpen', _, openRan', openReplaced⟩ := expect_replace nameReplaced openRan (by omega)
  obtain ⟨params', paramsRan', -, paramsReplaced⟩ :=
    (parameters_confined b).replace (parameters_steady b) (parameters_closable b) openEnds
      paramsRan openReplaced long fun same => atStart same.symm
  refine ⟨params'.rest, paramsReplaced, fun φ failed' => ?_, fun ready k' _ reads => ?_⟩
  · dsimp only at failed' ⊢
    rw [routine]
    simp only [bind, Except.bind, nameRan', openRan', paramsRan', failed']
  · exact routine_reads_brace (by simp at ready; omega) nameRan' openRan' paramsRan' reads

theorem routine_body_decided (ih : StmtsFinal b) (ends : EndsAtEof ts)
    (nameRan : name (.routineName kind) ts = .ok n)
    (openRan : expect .lparen (.routineOpen kind) n.rest = .ok ⟨afterOpen, opened⟩)
    (paramsRan : parameters b afterOpen = .ok params)
    (braceRan : expect .lbrace (.bodyOpen kind) params.rest = .ok ⟨afterBrace, braced⟩)
    (failed : blockRest b afterBrace = .error failure) :
    Decided failure (fun ts' φ => routine (b + 1) kind ts' = .error φ)
      (Completes statementClosers (b + 1) 14 (Reads (routine (b + 1) kind))) ts := by
  obtain ⟨⟨nameFront, nameSplit⟩, nameEnds⟩ := name_rest ends nameRan
  obtain ⟨⟨openFront, openSplit⟩, openEnds⟩ := expect_rest nameEnds openRan
  obtain ⟨⟨paramsFront, paramsSplit⟩, paramsEnds⟩ :=
    (parameters_confined b).rest openEnds paramsRan
  obtain ⟨⟨braceFront, braceSplit⟩, braceEnds⟩ := expect_rest paramsEnds braceRan
  have := params.shorter
  refine (ih.blockRest afterBrace braceEnds failure failed).lift [] [filler .rbrace]
    (fun _ => True)
    (show ts = (nameFront ++ openFront ++ paramsFront ++ braceFront) ++ afterBrace by
      rw [← nameSplit, ← openSplit]
      simp only [List.append_assoc, braceSplit, paramsSplit])
    ?_ (fun _ closes => closes)
    (fun n room => by
      -- the `(` alone gives the room of one token
      have lengths := congrArg List.length openSplit
      simp only [List.length_append] at lengths room
      omega)
    (fun _ k _ => blockRest_close (by omega) k) fun _ _ => trivial
  intro rest k ts' replaced long _
  obtain ⟨n', nameRan', -, nameReplaced⟩ := name_replace replaced nameRan (by omega)
  obtain ⟨afterOpen', _, openRan', openReplaced⟩ := expect_replace nameReplaced openRan (by omega)
  obtain ⟨params', paramsRan', -, paramsReplaced⟩ :=
    (parameters_confined b).replace (parameters_steady b)
      (parameters_closable b : Closable [.lbrace] (parameters b)) openEnds paramsRan openReplaced
      (by omega) fun same => absurd same (by omega)
  obtain ⟨afterBrace', _, braceRan', braceReplaced⟩ := expect_replace paramsReplaced braceRan long
  refine ⟨afterBrace', braceReplaced, fun φ failed' => ?_, fun _ k' _ reads => ?_⟩
  · dsimp only at failed' ⊢
    rw [routine]
    simp only [bind, Except.bind, nameRan', openRan', paramsRan', braceRan', failed']
  · obtain ⟨body', bodyRan', bodyRest⟩ := reads
    exact routine_reads nameRan' openRan' paramsRan' braceRan' bodyRan' bodyRest

end Routine

/-- A routine: the first failing read of its signature or its body decides the failure. -/
theorem routine_final (ih : StmtsFinal b) (kind : RoutineKind) :
    Final statementClosers (b + 1) 14 (routine (b + 1) kind) := by
  intro ts ends failure failed
  rw [routine] at failed
  rcases Except.bind_eq_error failed with nameFailed | ⟨n, nameRan, failed⟩
  · exact routine_name_decided ends nameFailed
  rcases Except.bind_eq_error failed with openFailed | ⟨⟨afterOpen, opened⟩, openRan, failed⟩
  · exact routine_open_decided ends nameRan openFailed
  dsimp only at failed
  rcases Except.bind_eq_error failed with paramsFailed | ⟨params, paramsRan, failed⟩
  · exact routine_parameters_decided ends nameRan openRan paramsFailed
  rcases Except.bind_eq_error failed with braceFailed | ⟨⟨afterBrace, braced⟩, braceRan, failed⟩
  · exact routine_brace_decided ends nameRan openRan paramsRan braceFailed
  dsimp only at failed
  rcases Except.bind_eq_error failed with bodyFailed | ⟨body, -, failed⟩
  · exact routine_body_decided ih ends nameRan openRan paramsRan braceRan bodyFailed
  · cases failed

section Class

variable {ts afterBrace : List Token} {n : Parsed ts String}
  {braced : afterBrace.length < n.rest.length}

/-- A class reads its name, `{` and its methods. -/
theorem classDecl_reads {k' : List Token} {methods : Parsed afterBrace (List (FunctionDef Stmt))}
    (zero : ¬b = 0) (nameRan : name .identifier ts = .ok n)
    (braceRan : expect .lbrace .classOpen n.rest = .ok ⟨afterBrace, braced⟩)
    (methodsRan : classBody (b + 1) afterBrace = .ok methods) (methodsRest : methods.rest = k') :
    Reads (classDecl (b + 1)) ts k' := by
  unfold Reads
  rw [classDecl]
  simp only [zero, ↓reduceIte, bind, Except.bind, nameRan, braceRan, methodsRan]
  exact ⟨_, rfl, methodsRest⟩

/-- An empty body finishes a class after its name. -/
theorem classDecl_reads_brace {k' : List Token} (zero : ¬b = 0)
    (nameRan : name .identifier ts = .ok n)
    (braceRan : Expects .lbrace .classOpen n.rest (filler .rbrace :: k')) :
    Reads (classDecl (b + 1)) ts k' := by
  obtain ⟨_, braceRan⟩ := braceRan
  obtain ⟨methods, methodsRan, methodsRest⟩ := classBody_close (b := b + 1) (by omega) k'
  exact classDecl_reads zero nameRan braceRan methodsRan methodsRest

end Class

/-- A class after `lớp`: with no budget left for its methods it fails at once, and otherwise
the first failing read of its name, its `{` or its methods decides the failure. -/
theorem classDecl_final (body : Final statementClosers (b + 1) 1 (classBody (b + 1))) :
    Final statementClosers (b + 1) 14 (classDecl (b + 1)) := by
  intro ts ends failure failed
  rw [classDecl] at failed
  by_cases zero : b = 0
  · obtain rfl : failure = .tooDeep := by
      simp only [zero, ↓reduceIte] at failed
      cases failed
      rfl
    exact tooDeep_decided ends fun ts' => by
      rw [classDecl]
      simp only [zero, ↓reduceIte]
      rfl
  simp only [zero, ↓reduceIte] at failed
  rcases Except.bind_eq_error failed with nameFailed | ⟨n, nameRan, failed⟩
  · -- the name fails
    have decided : Decided failure _
        (Completes [.lbrace] (b + 1) 14 (Reads (name .identifier))) ts :=
      name_final .identifier (by decide) ts ends failure nameFailed
    refine decided.lift [filler .lbrace, filler .rbrace] [filler .ident] (fun _ => True)
      (List.nil_append ts).symm ?_ (fun k _ => Closes.filler .lbrace (by simp) _)
      (fun n room => by simp only [List.length_nil] at room; omega)
      (fun _ k _ => name_reads_filler _ k) fun _ _ => trivial
    intro rest k ts' replaced _ _
    refine ⟨ts', replaced, fun φ failed' => ?_, fun _ k' _ reads => ?_⟩
    · dsimp only at failed' ⊢
      rw [classDecl]
      simp only [zero, ↓reduceIte, bind, Except.bind, failed']
    · obtain ⟨n', nameRan', nameRest⟩ := reads
      refine classDecl_reads_brace zero nameRan' ?_
      rw [nameRest]
      exact expects_filler .lbrace .classOpen (by decide) _
  obtain ⟨⟨nameFront, nameSplit⟩, nameEnds⟩ := name_rest ends nameRan
  have := n.shorter
  rcases Except.bind_eq_error failed with braceFailed | ⟨⟨afterBrace, braced⟩, braceRan, failed⟩
  · -- the `{` is missing
    have decided : Decided failure _
        (Completes [.rbrace] (b + 1) 14 (Expects .lbrace .classOpen)) n.rest :=
      expect_decided (by decide) (by decide) nameEnds braceFailed
    refine decided.lift [filler .rbrace] [filler .lbrace] (fun _ => True) nameSplit.symm ?_
      (fun k _ => Closes.filler .rbrace (by simp) _) (fun n room => by omega)
      (fun _ k _ => expects_filler .lbrace .classOpen (by decide) k) fun _ _ => trivial
    intro rest k ts' replaced long _
    obtain ⟨n', nameRan', -, nameReplaced⟩ := name_replace replaced nameRan long
    refine ⟨n'.rest, nameReplaced, fun φ failed' => ?_, fun _ k' _ reads => ?_⟩
    · dsimp only at failed' ⊢
      rw [classDecl]
      simp only [zero, ↓reduceIte, bind, Except.bind, nameRan', failed']
    · exact classDecl_reads_brace zero nameRan' reads
  · -- the methods fail
    obtain ⟨⟨braceFront, braceSplit⟩, braceEnds⟩ := expect_rest nameEnds braceRan
    dsimp only at failed
    rcases Except.bind_eq_error failed with methodsFailed | ⟨methods, -, failed⟩
    · refine (body afterBrace braceEnds failure methodsFailed).lift [] [filler .rbrace]
        (fun _ => True)
        (show ts = (nameFront ++ braceFront) ++ afterBrace by
          rw [← nameSplit, ← braceSplit, List.append_assoc])
        ?_ (fun _ closes => closes) (fun n room => by omega)
        (fun _ k _ => classBody_close (by omega) k) fun _ _ => trivial
      intro rest k ts' replaced long _
      obtain ⟨n', nameRan', -, nameReplaced⟩ := name_replace replaced nameRan (by omega)
      obtain ⟨afterBrace', _, braceRan', braceReplaced⟩ :=
        expect_replace nameReplaced braceRan long
      refine ⟨afterBrace', braceReplaced, fun φ failed' => ?_, fun _ k' _ reads => ?_⟩
      · dsimp only at failed' ⊢
        rw [classDecl]
        simp only [zero, ↓reduceIte, bind, Except.bind, nameRan', braceRan', failed']
      · obtain ⟨methods', methodsRan', methodsRest⟩ := reads
        exact classDecl_reads zero nameRan' braceRan' methodsRan' methodsRest
    · cases failed

section Loop

variable {ts afterOpen afterClose : List Token} {opened : afterOpen.length < ts.length}
  {test : Parsed afterOpen Expr} {closed : afterClose.length < test.rest.length}
  {failure : ParseFailure}

/-- A loop reads `(`, its test, `)` and its body. -/
theorem whileRest_reads {k' : List Token} {body : Parsed afterClose Stmt}
    (openRan : expect .lparen .whileOpen ts = .ok ⟨afterOpen, opened⟩)
    (testRan : expression b afterOpen = .ok test)
    (closeRan : expect .rparen .conditionClose test.rest = .ok ⟨afterClose, closed⟩)
    (bodyRan : statement b afterClose = .ok body) (bodyRest : body.rest = k') :
    Reads (whileRest (b + 1)) ts k' := by
  unfold Reads
  rw [whileRest]
  simp only [bind, Except.bind, openRan, testRan, closeRan, bodyRan]
  exact ⟨_, rfl, bodyRest⟩

/-- The body `đúng` finishes a loop after its `)`. -/
theorem whileRest_reads_close {k' : List Token} (enough : 12 ≤ b)
    (closes : Closes statementClosers k')
    (openRan : expect .lparen .whileOpen ts = .ok ⟨afterOpen, opened⟩)
    (testRan : expression b afterOpen = .ok test)
    (closeRan : Expects .rparen .conditionClose test.rest (truth :: k')) :
    Reads (whileRest (b + 1)) ts k' := by
  obtain ⟨_, closeRan⟩ := closeRan
  obtain ⟨body, bodyRan, bodyRest⟩ := statement_truth enough closes
  exact whileRest_reads openRan testRan closeRan bodyRan bodyRest

/-- `)` and the body `đúng` finish a loop after its test. -/
theorem whileRest_reads_test {k' : List Token} (enough : 12 ≤ b)
    (closes : Closes statementClosers k')
    (openRan : expect .lparen .whileOpen ts = .ok ⟨afterOpen, opened⟩)
    (testReads : Reads (expression b) afterOpen (filler .rparen :: truth :: k')) :
    Reads (whileRest (b + 1)) ts k' := by
  obtain ⟨test, testRan, testRest⟩ := testReads
  refine whileRest_reads_close enough closes openRan testRan ?_
  rw [testRest]
  exact expects_filler .rparen .conditionClose (by decide) _

theorem whileRest_final (ih : StmtsFinal b) :
    Final statementClosers (b + 1) 14 (whileRest (b + 1)) := by
  intro ts ends failure failed
  rw [whileRest] at failed
  rcases Except.bind_eq_error failed with openFailed | ⟨⟨afterOpen, opened⟩, openRan, failed⟩
  · -- the `(` is missing
    have decided : Decided failure _
        (Completes [.keyword .dung] (b + 1) 14 (Expects .lparen .whileOpen)) ts :=
      expect_decided (by decide) (by decide) ends openFailed
    refine decided.lift [truth, filler .rparen, truth] [filler .lparen] (fun _ => True)
      (List.nil_append ts).symm ?_ (fun k _ => Closes.filler (.keyword .dung) (by simp) _)
      (fun n room => by simp only [List.length_nil] at room; omega)
      (fun _ k _ => expects_filler .lparen .whileOpen (by decide) k) fun _ _ => trivial
    intro rest k ts' replaced _ _
    refine ⟨ts', replaced, fun φ failed' => ?_, fun ready k' closes reads => ?_⟩
    · dsimp only at failed' ⊢
      rw [whileRest]
      simp only [bind, Except.bind, failed']
    · obtain ⟨_, openRan'⟩ := reads
      exact whileRest_reads_test (by simp at ready; omega) closes openRan'
        (expression_truth (by simp at ready; omega) (Closes.filler .rparen (by decide) _))
  obtain ⟨⟨openFront, openSplit⟩, openEnds⟩ := expect_rest ends openRan
  dsimp only at failed
  rcases Except.bind_eq_error failed with testFailed | ⟨test, testRan, failed⟩
  · -- the test fails
    refine ((exprsFinal b).expression afterOpen openEnds failure testFailed).lift
      [filler .rparen, truth] [truth] (fun _ => True) openSplit.symm ?_
      (fun k _ => Closes.filler .rparen (by decide) _)
      (fun n room => by
        have lengths := congrArg List.length openSplit
        simp only [List.length_append] at lengths room
        omega)
      (fun enough _ closes => expression_truth enough closes) fun _ _ => trivial
    intro rest k ts' replaced long _
    obtain ⟨afterOpen', _, openRan', openReplaced⟩ := expect_replace replaced openRan long
    refine ⟨afterOpen', openReplaced, fun φ failed' => ?_, fun ready k' closes reads => ?_⟩
    · dsimp only at failed' ⊢
      rw [whileRest]
      simp only [bind, Except.bind, openRan', failed']
    · exact whileRest_reads_test (by omega) closes openRan' reads
  obtain ⟨⟨testFront, testSplit⟩, testEnds⟩ :=
    (exprsConfined b).expression.rest openEnds testRan
  have := test.shorter
  rcases Except.bind_eq_error failed with closeFailed | ⟨⟨afterClose, closed⟩, closeRan, failed⟩
  · -- the `)` is missing
    have decided : Decided failure _
        (Completes [.keyword .dung] (b + 1) 14 (Expects .rparen .conditionClose)) test.rest :=
      expect_decided (by decide) (by decide) testEnds closeFailed
    refine decided.lift [truth] [filler .rparen] (Closes expressionClosers)
      (show ts = (openFront ++ testFront) ++ test.rest by
        rw [← openSplit]
        simp only [List.append_assoc, testSplit])
      ?_ (fun k _ => Closes.filler (.keyword .dung) (by simp) _)
      (fun n room => by omega)
      (fun _ k _ => expects_filler .rparen .conditionClose (by decide) k)
      fun _ _ => Closes.filler .rparen (by decide) _
    intro rest k ts' replaced long atStart
    obtain ⟨afterOpen', _, openRan', openReplaced⟩ := expect_replace replaced openRan (by omega)
    obtain ⟨test', testRan', -, testReplaced⟩ :=
      (exprsConfined b).expression.replace (exprsSteady b).expression
        (exprsClosable b).expression openEnds testRan openReplaced long
        fun same => atStart same.symm
    refine ⟨test'.rest, testReplaced, fun φ failed' => ?_, fun ready k' closes reads => ?_⟩
    · dsimp only at failed' ⊢
      rw [whileRest]
      simp only [bind, Except.bind, openRan', testRan', failed']
    · have lengths := congrArg List.length openSplit
      simp only [List.length_append] at lengths ready
      exact whileRest_reads_close (by omega) closes openRan' testRan' reads
  · -- the body fails
    obtain ⟨⟨closeFront, closeSplit⟩, closeEnds⟩ := expect_rest testEnds closeRan
    dsimp only at failed
    rcases Except.bind_eq_error failed with bodyFailed | ⟨body, -, failed⟩
    · refine (ih.statement afterClose closeEnds failure bodyFailed).lift [] [truth]
        (fun _ => True)
        (show ts = (openFront ++ testFront ++ closeFront) ++ afterClose by
          rw [← openSplit]
          simp only [List.append_assoc, closeSplit, testSplit])
        ?_ (fun _ closes => closes)
        (fun n room => by
          have lengths := congrArg List.length openSplit
          simp only [List.length_append] at lengths room
          omega)
        (fun enough _ closes => statement_truth enough closes) fun _ _ => trivial
      intro rest k ts' replaced long _
      obtain ⟨afterOpen', _, test', afterClose', _, openRan', testRan', -, closeRan', -,
        closeReplaced⟩ := condition_replace ends openRan testRan closeRan replaced long
      refine ⟨afterClose', closeReplaced, fun φ failed' => ?_, fun _ k' _ reads => ?_⟩
      · dsimp only at failed' ⊢
        rw [whileRest]
        simp only [bind, Except.bind, openRan', testRan', closeRan', failed']
      · obtain ⟨body', bodyRan', bodyRest⟩ := reads
        exact whileRest_reads openRan' testRan' closeRan' bodyRan' bodyRest
    · cases failed

end Loop

section Conditional

variable {ts afterOpen afterClose : List Token} {opened : afterOpen.length < ts.length}
  {test : Parsed afterOpen Expr} {closed : afterClose.length < test.rest.length}
  {consequent : Parsed afterClose Stmt} {failure : ParseFailure}

/-- A conditional with no alternative reads `(`, its test, `)` and its consequent, in front of
a closing token. -/
theorem ifRest_reads {k' : List Token} (closes : Closes statementClosers k')
    (openRan : expect .lparen .ifOpen ts = .ok ⟨afterOpen, opened⟩)
    (testRan : expression b afterOpen = .ok test)
    (closeRan : expect .rparen .conditionClose test.rest = .ok ⟨afterClose, closed⟩)
    (consequentRan : statement b afterClose = .ok consequent) (consequentRest : consequent.rest = k') :
    Reads (ifRest (b + 1)) ts k' := by
  have noElse : next? (.keyword .nguocLai) consequent.rest = none := by
    rw [consequentRest]
    exact next?_of_closes closes (by decide)
  have noElseIf : next? (.keyword .conNeu) consequent.rest = none := by
    rw [consequentRest]
    exact next?_of_closes closes (by decide)
  unfold Reads
  rw [ifRest]
  simp only [bind, Except.bind, openRan, testRan, closeRan, consequentRan, noElse, noElseIf]
  exact ⟨_, rfl, consequentRest⟩

/-- The consequent `đúng` finishes a conditional after its `)`. -/
theorem ifRest_reads_close {k' : List Token} (enough : 12 ≤ b)
    (closes : Closes statementClosers k')
    (openRan : expect .lparen .ifOpen ts = .ok ⟨afterOpen, opened⟩)
    (testRan : expression b afterOpen = .ok test)
    (closeRan : Expects .rparen .conditionClose test.rest (truth :: k')) :
    Reads (ifRest (b + 1)) ts k' := by
  obtain ⟨_, closeRan⟩ := closeRan
  obtain ⟨consequent, consequentRan, consequentRest⟩ := statement_truth enough closes
  exact ifRest_reads closes openRan testRan closeRan consequentRan consequentRest

/-- `)` and the consequent `đúng` finish a conditional after its test. -/
theorem ifRest_reads_test {k' : List Token} (enough : 12 ≤ b)
    (closes : Closes statementClosers k')
    (openRan : expect .lparen .ifOpen ts = .ok ⟨afterOpen, opened⟩)
    (testReads : Reads (expression b) afterOpen (filler .rparen :: truth :: k')) :
    Reads (ifRest (b + 1)) ts k' := by
  obtain ⟨test, testRan, testRest⟩ := testReads
  refine ifRest_reads_close enough closes openRan testRan ?_
  rw [testRest]
  exact expects_filler .rparen .conditionClose (by decide) _

theorem ifOpen_decided (ends : EndsAtEof ts) (failed : expect .lparen .ifOpen ts = .error failure) :
    Decided failure (fun ts' φ => ifRest (b + 1) ts' = .error φ)
      (Completes statementClosers (b + 1) 14 (Reads (ifRest (b + 1)))) ts := by
  have decided : Decided failure _
      (Completes [.keyword .dung] (b + 1) 14 (Expects .lparen .ifOpen)) ts :=
    expect_decided (by decide) (by decide) ends failed
  refine decided.lift [truth, filler .rparen, truth] [filler .lparen] (fun _ => True)
    (List.nil_append ts).symm ?_ (fun k _ => Closes.filler (.keyword .dung) (by simp) _)
    (fun n room => by simp only [List.length_nil] at room; omega)
    (fun _ k _ => expects_filler .lparen .ifOpen (by decide) k) fun _ _ => trivial
  intro rest k ts' replaced _ _
  refine ⟨ts', replaced, fun φ failed' => ?_, fun ready k' closes reads => ?_⟩
  · dsimp only at failed' ⊢
    rw [ifRest]
    simp only [bind, Except.bind, failed']
  · obtain ⟨_, openRan'⟩ := reads
    exact ifRest_reads_test (by simp at ready; omega) closes openRan'
      (expression_truth (by simp at ready; omega) (Closes.filler .rparen (by decide) _))

theorem ifTest_decided (ends : EndsAtEof ts)
    (openRan : expect .lparen .ifOpen ts = .ok ⟨afterOpen, opened⟩)
    (failed : expression b afterOpen = .error failure) :
    Decided failure (fun ts' φ => ifRest (b + 1) ts' = .error φ)
      (Completes statementClosers (b + 1) 14 (Reads (ifRest (b + 1)))) ts := by
  obtain ⟨⟨openFront, openSplit⟩, openEnds⟩ := expect_rest ends openRan
  refine ((exprsFinal b).expression afterOpen openEnds failure failed).lift
    [filler .rparen, truth] [truth] (fun _ => True) openSplit.symm ?_
    (fun k _ => Closes.filler .rparen (by decide) _)
    (fun n room => by
      have lengths := congrArg List.length openSplit
      simp only [List.length_append] at lengths room
      omega)
    (fun enough _ closes => expression_truth enough closes) fun _ _ => trivial
  intro rest k ts' replaced long _
  obtain ⟨afterOpen', _, openRan', openReplaced⟩ := expect_replace replaced openRan long
  refine ⟨afterOpen', openReplaced, fun φ failed' => ?_, fun ready k' closes reads => ?_⟩
  · dsimp only at failed' ⊢
    rw [ifRest]
    simp only [bind, Except.bind, openRan', failed']
  · exact ifRest_reads_test (by omega) closes openRan' reads

theorem ifClose_decided (ends : EndsAtEof ts)
    (openRan : expect .lparen .ifOpen ts = .ok ⟨afterOpen, opened⟩)
    (testRan : expression b afterOpen = .ok test)
    (failed : expect .rparen .conditionClose test.rest = .error failure) :
    Decided failure (fun ts' φ => ifRest (b + 1) ts' = .error φ)
      (Completes statementClosers (b + 1) 14 (Reads (ifRest (b + 1)))) ts := by
  obtain ⟨⟨openFront, openSplit⟩, openEnds⟩ := expect_rest ends openRan
  obtain ⟨⟨testFront, testSplit⟩, testEnds⟩ :=
    (exprsConfined b).expression.rest openEnds testRan
  have := test.shorter
  have decided : Decided failure _
      (Completes [.keyword .dung] (b + 1) 14 (Expects .rparen .conditionClose)) test.rest :=
    expect_decided (by decide) (by decide) testEnds failed
  refine decided.lift [truth] [filler .rparen] (Closes expressionClosers)
    (show ts = (openFront ++ testFront) ++ test.rest by
      rw [← openSplit]
      simp only [List.append_assoc, testSplit])
    ?_ (fun k _ => Closes.filler (.keyword .dung) (by simp) _)
    (fun n room => by omega)
    (fun _ k _ => expects_filler .rparen .conditionClose (by decide) k)
    fun _ _ => Closes.filler .rparen (by decide) _
  intro rest k ts' replaced long atStart
  obtain ⟨afterOpen', _, openRan', openReplaced⟩ := expect_replace replaced openRan (by omega)
  obtain ⟨test', testRan', -, testReplaced⟩ :=
    (exprsConfined b).expression.replace (exprsSteady b).expression
      (exprsClosable b).expression openEnds testRan openReplaced long
      fun same => atStart same.symm
  refine ⟨test'.rest, testReplaced, fun φ failed' => ?_, fun ready k' closes reads => ?_⟩
  · dsimp only at failed' ⊢
    rw [ifRest]
    simp only [bind, Except.bind, openRan', testRan', failed']
  · have lengths := congrArg List.length openSplit
    simp only [List.length_append] at lengths ready
    exact ifRest_reads_close (by omega) closes openRan' testRan' reads

theorem ifConsequent_decided (ih : StmtsFinal b) (ends : EndsAtEof ts)
    (openRan : expect .lparen .ifOpen ts = .ok ⟨afterOpen, opened⟩)
    (testRan : expression b afterOpen = .ok test)
    (closeRan : expect .rparen .conditionClose test.rest = .ok ⟨afterClose, closed⟩)
    (failed : statement b afterClose = .error failure) :
    Decided failure (fun ts' φ => ifRest (b + 1) ts' = .error φ)
      (Completes statementClosers (b + 1) 14 (Reads (ifRest (b + 1)))) ts := by
  obtain ⟨⟨openFront, openSplit⟩, openEnds⟩ := expect_rest ends openRan
  obtain ⟨⟨testFront, testSplit⟩, testEnds⟩ :=
    (exprsConfined b).expression.rest openEnds testRan
  obtain ⟨⟨closeFront, closeSplit⟩, closeEnds⟩ := expect_rest testEnds closeRan
  refine (ih.statement afterClose closeEnds failure failed).lift [] [truth] (fun _ => True)
    (show ts = (openFront ++ testFront ++ closeFront) ++ afterClose by
      rw [← openSplit]
      simp only [List.append_assoc, closeSplit, testSplit])
    ?_ (fun _ closes => closes)
    (fun n room => by
      have lengths := congrArg List.length openSplit
      simp only [List.length_append] at lengths room
      omega)
    (fun enough _ closes => statement_truth enough closes) fun _ _ => trivial
  intro rest k ts' replaced long _
  obtain ⟨afterOpen', _, test', afterClose', _, openRan', testRan', -, closeRan', -,
    closeReplaced⟩ := condition_replace ends openRan testRan closeRan replaced long
  refine ⟨afterClose', closeReplaced, fun φ failed' => ?_, fun _ k' closes reads => ?_⟩
  · dsimp only at failed' ⊢
    rw [ifRest]
    simp only [bind, Except.bind, openRan', testRan', closeRan', failed']
  · obtain ⟨consequent', consequentRan', consequentRest⟩ := reads
    exact ifRest_reads closes openRan' testRan' closeRan' consequentRan' consequentRest

/-- An alternative of a conditional fails: the tokens from the start of the conditional up to
the alternative. -/
theorem ifHead_front (ends : EndsAtEof ts)
    (openRan : expect .lparen .ifOpen ts = .ok ⟨afterOpen, opened⟩)
    (testRan : expression b afterOpen = .ok test)
    (closeRan : expect .rparen .conditionClose test.rest = .ok ⟨afterClose, closed⟩)
    (consequentRan : statement b afterClose = .ok consequent) :
    consequent.rest <:+ ts ∧ EndsAtEof consequent.rest := by
  obtain ⟨openSuffix, openEnds⟩ := expect_rest ends openRan
  obtain ⟨testSuffix, testEnds⟩ := (exprsConfined b).expression.rest openEnds testRan
  obtain ⟨closeSuffix, closeEnds⟩ := expect_rest testEnds closeRan
  obtain ⟨consequentSuffix, consequentEnds⟩ :=
    (stmtsConfined b).statement.rest closeEnds consequentRan
  exact ⟨consequentSuffix.trans (closeSuffix.trans (testSuffix.trans openSuffix)), consequentEnds⟩

/-- `ngược_lại nếu` and another conditional, which fails. -/
theorem elseIf_decided (ih : StmtsFinal b) (ends : EndsAtEof ts)
    (openRan : expect .lparen .ifOpen ts = .ok ⟨afterOpen, opened⟩)
    (testRan : expression b afterOpen = .ok test)
    (closeRan : expect .rparen .conditionClose test.rest = .ok ⟨afterClose, closed⟩)
    (consequentRan : statement b afterClose = .ok consequent) {afterElse afterIf : List Token}
    {elseShorter : afterElse.length < consequent.rest.length}
    {ifShorter : afterIf.length < afterElse.length}
    (isElse : next? (.keyword .nguocLai) consequent.rest = some ⟨afterElse, elseShorter⟩)
    (isIf : next? (.keyword .neu) afterElse = some ⟨afterIf, ifShorter⟩)
    (failed : ifRest b afterIf = .error failure) :
    Decided failure (fun ts' φ => ifRest (b + 1) ts' = .error φ)
      (Completes statementClosers (b + 1) 14 (Reads (ifRest (b + 1)))) ts := by
  obtain ⟨headSuffix, consequentEnds⟩ := ifHead_front ends openRan testRan closeRan consequentRan
  obtain ⟨elseSuffix, elseEnds⟩ := next?_rest consequentEnds isElse
  obtain ⟨ifSuffix, ifEnds⟩ := next?_rest elseEnds isIf
  obtain ⟨front, split⟩ := ifSuffix.trans (elseSuffix.trans headSuffix)
  have := consequent.shorter
  have := test.shorter
  refine (ih.ifRest afterIf ifEnds failure failed).lift []
    [filler .lparen, truth, filler .rparen, truth]
    (fun _ => True) split.symm ?_ (fun _ closes => closes)
    (fun n room => by
      have lengths := congrArg List.length split
      simp only [List.length_append] at lengths room
      omega)
    (fun enough _ closes => (conditional_finishes enough closes).1) fun _ _ => trivial
  intro rest k ts' replaced long _
  obtain ⟨afterOpen', _, test', afterClose', _, consequent', openRan', testRan', -, closeRan',
    consequentRan', -, -, consequentReplaced⟩ :=
    ifHead_replace (stmtsClosable b) ends openRan testRan closeRan consequentRan replaced
      (by omega) fun same => absurd same (by omega)
  obtain ⟨afterElse', _, isElse', elseReplaced⟩ :=
    next?_replace consequentReplaced isElse (by omega)
  obtain ⟨afterIf', _, isIf', ifReplaced⟩ := next?_replace elseReplaced isIf long
  refine ⟨afterIf', ifReplaced, fun φ failed' => ?_, fun _ k' _ reads => ?_⟩
  · dsimp only at failed' ⊢
    rw [ifRest]
    simp only [bind, Except.bind, openRan', testRan', closeRan', consequentRan', isElse', isIf',
      failed']
  · obtain ⟨alternate, alternateRan, alternateRest⟩ := reads
    unfold Reads
    rw [ifRest]
    simp only [bind, Except.bind, openRan', testRan', closeRan', consequentRan', isElse', isIf',
      alternateRan]
    exact ⟨_, rfl, alternateRest⟩

/-- `ngược_lại` and a statement, which fails. -/
theorem else_decided (ih : StmtsFinal b) (ends : EndsAtEof ts)
    (openRan : expect .lparen .ifOpen ts = .ok ⟨afterOpen, opened⟩)
    (testRan : expression b afterOpen = .ok test)
    (closeRan : expect .rparen .conditionClose test.rest = .ok ⟨afterClose, closed⟩)
    (consequentRan : statement b afterClose = .ok consequent) {afterElse : List Token}
    {elseShorter : afterElse.length < consequent.rest.length}
    (isElse : next? (.keyword .nguocLai) consequent.rest = some ⟨afterElse, elseShorter⟩)
    (noIf : next? (.keyword .neu) afterElse = none)
    (failed : statement b afterElse = .error failure) :
    Decided failure (fun ts' φ => ifRest (b + 1) ts' = .error φ)
      (Completes statementClosers (b + 1) 14 (Reads (ifRest (b + 1)))) ts := by
  obtain ⟨headSuffix, consequentEnds⟩ := ifHead_front ends openRan testRan closeRan consequentRan
  obtain ⟨elseSuffix, elseEnds⟩ := next?_rest consequentEnds isElse
  obtain ⟨front, split⟩ := elseSuffix.trans headSuffix
  have := consequent.shorter
  have := test.shorter
  refine (ih.statement afterElse elseEnds failure failed).lift [] [truth]
    (fun k => next? (.keyword .neu) k = none) split.symm ?_ (fun _ closes => closes)
    (fun n room => by
      have lengths := congrArg List.length split
      simp only [List.length_append] at lengths room
      omega)
    (fun enough _ closes => statement_truth enough closes) fun _ _ => next?_truth (by decide) _
  intro rest k ts' replaced long atStart
  obtain ⟨afterOpen', _, test', afterClose', _, consequent', openRan', testRan', -, closeRan',
    consequentRan', -, -, consequentReplaced⟩ :=
    ifHead_replace (stmtsClosable b) ends openRan testRan closeRan consequentRan replaced
      (by omega) fun same => absurd same (by omega)
  obtain ⟨afterElse', _, isElse', elseReplaced⟩ := next?_replace consequentReplaced isElse long
  have noIf' : next? (.keyword .neu) afterElse' = none :=
    next?_none_replace elseReplaced noIf fun short => atStart (by omega)
  refine ⟨afterElse', elseReplaced, fun φ failed' => ?_, fun _ k' _ reads => ?_⟩
  · dsimp only at failed' ⊢
    rw [ifRest]
    simp only [bind, Except.bind, openRan', testRan', closeRan', consequentRan', isElse', noIf',
      failed']
  · obtain ⟨alternate, alternateRan, alternateRest⟩ := reads
    unfold Reads
    rw [ifRest]
    simp only [bind, Except.bind, openRan', testRan', closeRan', consequentRan', isElse', noIf',
      alternateRan]
    exact ⟨_, rfl, alternateRest⟩

/-- `còn_nếu` and another conditional, which fails. -/
theorem elseIfWord_decided (ih : StmtsFinal b) (ends : EndsAtEof ts)
    (openRan : expect .lparen .ifOpen ts = .ok ⟨afterOpen, opened⟩)
    (testRan : expression b afterOpen = .ok test)
    (closeRan : expect .rparen .conditionClose test.rest = .ok ⟨afterClose, closed⟩)
    (consequentRan : statement b afterClose = .ok consequent) {afterIf : List Token}
    {ifShorter : afterIf.length < consequent.rest.length}
    (noElse : next? (.keyword .nguocLai) consequent.rest = none)
    (isElseIf : next? (.keyword .conNeu) consequent.rest = some ⟨afterIf, ifShorter⟩)
    (failed : ifRest b afterIf = .error failure) :
    Decided failure (fun ts' φ => ifRest (b + 1) ts' = .error φ)
      (Completes statementClosers (b + 1) 14 (Reads (ifRest (b + 1)))) ts := by
  obtain ⟨headSuffix, consequentEnds⟩ := ifHead_front ends openRan testRan closeRan consequentRan
  obtain ⟨ifSuffix, ifEnds⟩ := next?_rest consequentEnds isElseIf
  obtain ⟨front, split⟩ := ifSuffix.trans headSuffix
  have := consequent.shorter
  have := test.shorter
  refine (ih.ifRest afterIf ifEnds failure failed).lift []
    [filler .lparen, truth, filler .rparen, truth]
    (fun _ => True) split.symm ?_ (fun _ closes => closes)
    (fun n room => by
      have lengths := congrArg List.length split
      simp only [List.length_append] at lengths room
      omega)
    (fun enough _ closes => (conditional_finishes enough closes).1) fun _ _ => trivial
  intro rest k ts' replaced long _
  obtain ⟨afterOpen', _, test', afterClose', _, consequent', openRan', testRan', -, closeRan',
    consequentRan', -, -, consequentReplaced⟩ :=
    ifHead_replace (stmtsClosable b) ends openRan testRan closeRan consequentRan replaced
      (by omega) fun same => absurd same (by omega)
  have noElse' := next?_none_past noElse consequentReplaced (by omega)
  obtain ⟨afterIf', _, isElseIf', ifReplaced⟩ := next?_replace consequentReplaced isElseIf long
  refine ⟨afterIf', ifReplaced, fun φ failed' => ?_, fun _ k' _ reads => ?_⟩
  · dsimp only at failed' ⊢
    rw [ifRest]
    simp only [bind, Except.bind, openRan', testRan', closeRan', consequentRan', noElse',
      isElseIf', failed']
  · obtain ⟨alternate, alternateRan, alternateRest⟩ := reads
    unfold Reads
    rw [ifRest]
    simp only [bind, Except.bind, openRan', testRan', closeRan', consequentRan', noElse',
      isElseIf', alternateRan]
    exact ⟨_, rfl, alternateRest⟩

end Conditional

/-- A conditional: the first failing read of its header, its consequent or its alternative
decides the failure. -/
theorem ifRest_final (ih : StmtsFinal b) : Final statementClosers (b + 1) 14 (ifRest (b + 1)) := by
  intro ts ends failure failed
  rw [ifRest] at failed
  rcases Except.bind_eq_error failed with openFailed | ⟨⟨afterOpen, opened⟩, openRan, failed⟩
  · exact ifOpen_decided ends openFailed
  dsimp only at failed
  rcases Except.bind_eq_error failed with testFailed | ⟨test, testRan, failed⟩
  · exact ifTest_decided ends openRan testFailed
  rcases Except.bind_eq_error failed with closeFailed | ⟨⟨afterClose, closed⟩, closeRan, failed⟩
  · exact ifClose_decided ends openRan testRan closeFailed
  dsimp only at failed
  rcases Except.bind_eq_error failed with consequentFailed | ⟨consequent, consequentRan, failed⟩
  · exact ifConsequent_decided ih ends openRan testRan closeRan consequentFailed
  -- what follows the consequent decides the alternative
  cases isElse : next? (.keyword .nguocLai) consequent.rest with
  | some next =>
    obtain ⟨afterElse, elseShorter⟩ := next
    simp only [isElse] at failed
    cases isIf : next? (.keyword .neu) afterElse with
    | some next =>
      obtain ⟨afterIf, ifShorter⟩ := next
      simp only [isIf] at failed
      rcases Except.bind_eq_error failed with alternateFailed | ⟨_, -, failed⟩
      · exact elseIf_decided ih ends openRan testRan closeRan consequentRan isElse isIf
          alternateFailed
      · cases failed
    | none =>
      simp only [isIf] at failed
      rcases Except.bind_eq_error failed with alternateFailed | ⟨_, -, failed⟩
      · exact else_decided ih ends openRan testRan closeRan consequentRan isElse isIf
          alternateFailed
      · cases failed
  | none =>
    simp only [isElse] at failed
    cases isElseIf : next? (.keyword .conNeu) consequent.rest with
    | some next =>
      obtain ⟨afterIf, ifShorter⟩ := next
      simp only [isElseIf] at failed
      rcases Except.bind_eq_error failed with alternateFailed | ⟨_, -, failed⟩
      · exact elseIfWord_decided ih ends openRan testRan closeRan consequentRan isElse isElseIf
          alternateFailed
      · cases failed
    | none =>
      simp only [isElseIf] at failed
      cases failed

section Collection

variable {ts afterOpen afterIn afterClose : List Token} {opened : afterOpen.length < ts.length}
  {element : Parsed afterOpen String} {inShorter : afterIn.length < element.rest.length}
  {collection : Parsed afterIn Expr} {closed : afterClose.length < collection.rest.length}
  {failure : ParseFailure}

/-- A loop over a collection reads `(`, a name, `trong`, the collection, `)` and its body. -/
theorem forEachRest_reads {k' : List Token} {body : Parsed afterClose Stmt} (zero : ¬b = 0)
    (openRan : expect .lparen .forEachOpen ts = .ok ⟨afterOpen, opened⟩)
    (elementRan : name .identifier afterOpen = .ok element)
    (inRan : expect (.keyword .trong) .loopIn element.rest = .ok ⟨afterIn, inShorter⟩)
    (collectionRan : expression b afterIn = .ok collection)
    (closeRan : expect .rparen .loopHeaderClose collection.rest = .ok ⟨afterClose, closed⟩)
    (bodyRan : statement b afterClose = .ok body) (bodyRest : body.rest = k') :
    Reads (forEachRest (b + 1)) ts k' := by
  unfold Reads
  rw [forEachRest]
  simp only [bind, Except.bind, openRan, zero, ↓reduceIte, elementRan, inRan, collectionRan,
    closeRan, bodyRan]
  exact ⟨_, rfl, bodyRest⟩

/-- The body `đúng` finishes a loop over a collection after its `)`. -/
theorem forEachRest_reads_close {k' : List Token} (enough : 12 ≤ b)
    (closes : Closes statementClosers k') (zero : ¬b = 0)
    (openRan : expect .lparen .forEachOpen ts = .ok ⟨afterOpen, opened⟩)
    (elementRan : name .identifier afterOpen = .ok element)
    (inRan : expect (.keyword .trong) .loopIn element.rest = .ok ⟨afterIn, inShorter⟩)
    (collectionRan : expression b afterIn = .ok collection)
    (closeRan : Expects .rparen .loopHeaderClose collection.rest (truth :: k')) :
    Reads (forEachRest (b + 1)) ts k' := by
  obtain ⟨_, closeRan⟩ := closeRan
  obtain ⟨body, bodyRan, bodyRest⟩ := statement_truth enough closes
  exact forEachRest_reads zero openRan elementRan inRan collectionRan closeRan bodyRan bodyRest

/-- `)` and the body `đúng` finish a loop over a collection after the collection. -/
theorem forEachRest_reads_collection {k' : List Token} (enough : 12 ≤ b)
    (closes : Closes statementClosers k') (zero : ¬b = 0)
    (openRan : expect .lparen .forEachOpen ts = .ok ⟨afterOpen, opened⟩)
    (elementRan : name .identifier afterOpen = .ok element)
    (inRan : expect (.keyword .trong) .loopIn element.rest = .ok ⟨afterIn, inShorter⟩)
    (collectionReads : Reads (expression b) afterIn (filler .rparen :: truth :: k')) :
    Reads (forEachRest (b + 1)) ts k' := by
  obtain ⟨collection, collectionRan, collectionRest⟩ := collectionReads
  refine forEachRest_reads_close enough closes zero openRan elementRan inRan collectionRan ?_
  rw [collectionRest]
  exact expects_filler .rparen .loopHeaderClose (by decide) _

/-- The collection `đúng`, `)` and the body `đúng` finish a loop over a collection after
`trong`. -/
theorem forEachRest_reads_in {k' : List Token} (enough : 12 ≤ b)
    (closes : Closes statementClosers k') (zero : ¬b = 0)
    (openRan : expect .lparen .forEachOpen ts = .ok ⟨afterOpen, opened⟩)
    (elementRan : name .identifier afterOpen = .ok element)
    (inRan : Expects (.keyword .trong) .loopIn element.rest (truth :: filler .rparen :: truth :: k')) :
    Reads (forEachRest (b + 1)) ts k' := by
  obtain ⟨_, inRan⟩ := inRan
  exact forEachRest_reads_collection enough closes zero openRan elementRan inRan
    (expression_truth (by omega) (Closes.filler .rparen (by decide) _))

/-- `trong đúng) đúng` finishes a loop over a collection after its name. -/
theorem forEachRest_reads_element {k' : List Token} (enough : 12 ≤ b)
    (closes : Closes statementClosers k') (zero : ¬b = 0)
    (openRan : expect .lparen .forEachOpen ts = .ok ⟨afterOpen, opened⟩)
    (elementReads : Reads (name .identifier) afterOpen
      (filler (.keyword .trong) :: truth :: filler .rparen :: truth :: k')) :
    Reads (forEachRest (b + 1)) ts k' := by
  obtain ⟨element, elementRan, elementRest⟩ := elementReads
  refine forEachRest_reads_in enough closes zero openRan elementRan ?_
  rw [elementRest]
  exact expects_filler (.keyword .trong) .loopIn (by decide) _

theorem forEachOpen_decided (ends : EndsAtEof ts)
    (failed : expect .lparen .forEachOpen ts = .error failure) :
    Decided failure (fun ts' φ => forEachRest (b + 1) ts' = .error φ)
      (Completes statementClosers (b + 1) 14 (Reads (forEachRest (b + 1)))) ts := by
  have decided : Decided failure _
      (Completes [.ident] (b + 1) 14 (Expects .lparen .forEachOpen)) ts :=
    expect_decided (by decide) (by decide) ends failed
  refine decided.lift
    [filler .ident, filler (.keyword .trong), truth, filler .rparen, truth] [filler .lparen]
    (fun _ => True) (List.nil_append ts).symm ?_ (fun k _ => Closes.filler .ident (by simp) _)
    (fun n room => by simp only [List.length_nil] at room; omega)
    (fun _ k _ => expects_filler .lparen .forEachOpen (by decide) k) fun _ _ => trivial
  intro rest k ts' replaced _ _
  refine ⟨ts', replaced, fun φ failed' => ?_, fun ready k' closes reads => ?_⟩
  · dsimp only at failed' ⊢
    rw [forEachRest]
    simp only [bind, Except.bind, failed']
  · obtain ⟨_, openRan'⟩ := reads
    simp only [List.length_nil] at ready
    exact forEachRest_reads_element (by omega) closes (by omega) openRan'
      (name_reads_filler .identifier _)

/-- With no budget left for the loop's name, the loop fails after its `(`. -/
theorem forEachDeep_decided (ends : EndsAtEof ts)
    (openRan : expect .lparen .forEachOpen ts = .ok ⟨afterOpen, opened⟩) :
    Decided .tooDeep (fun ts' φ => forEachRest 1 ts' = .error φ)
      (Completes statementClosers 1 14 (Reads (forEachRest 1))) ts := by
  obtain ⟨⟨openFront, openSplit⟩, openEnds⟩ := expect_rest ends openRan
  have decided : Decided .tooDeep (fun _ φ => φ = .tooDeep)
      (Completes statementClosers 0 0 fun _ _ => True) afterOpen :=
    tooDeep_decided openEnds fun _ => rfl
  refine decided.lift [] [truth] (fun _ => True) openSplit.symm ?_ (fun _ closes => closes)
    (fun n room => by
      have lengths := congrArg List.length openSplit
      simp only [List.length_append] at lengths room
      omega)
    (fun _ _ _ => trivial) fun _ _ => trivial
  intro rest k ts' replaced long _
  obtain ⟨afterOpen', _, openRan', openReplaced⟩ := expect_replace replaced openRan long
  refine ⟨afterOpen', openReplaced, fun φ isDeep => ?_, fun ready => ?_⟩
  · dsimp only at isDeep ⊢
    subst isDeep
    rw [forEachRest]
    simp only [bind, Except.bind, openRan']
    rfl
  · have lengths := congrArg List.length openSplit
    simp only [List.length_append] at lengths ready
    omega

theorem forEachElement_decided (ends : EndsAtEof ts) (zero : ¬b = 0)
    (openRan : expect .lparen .forEachOpen ts = .ok ⟨afterOpen, opened⟩)
    (failed : name .identifier afterOpen = .error failure) :
    Decided failure (fun ts' φ => forEachRest (b + 1) ts' = .error φ)
      (Completes statementClosers (b + 1) 14 (Reads (forEachRest (b + 1)))) ts := by
  obtain ⟨⟨openFront, openSplit⟩, openEnds⟩ := expect_rest ends openRan
  have decided : Decided failure _
      (Completes [.keyword .trong] (b + 1) 14 (Reads (name .identifier))) afterOpen :=
    name_final .identifier (by decide) afterOpen openEnds failure failed
  refine decided.lift [filler (.keyword .trong), truth, filler .rparen, truth] [filler .ident]
    (fun _ => True) openSplit.symm ?_ (fun k _ => Closes.filler (.keyword .trong) (by simp) _)
    (fun n room => by omega) (fun _ k _ => name_reads_filler .identifier k) fun _ _ => trivial
  intro rest k ts' replaced long _
  obtain ⟨afterOpen', _, openRan', openReplaced⟩ := expect_replace replaced openRan long
  refine ⟨afterOpen', openReplaced, fun φ failed' => ?_, fun ready k' closes reads => ?_⟩
  · dsimp only at failed' ⊢
    rw [forEachRest]
    simp only [bind, Except.bind, openRan', zero, ↓reduceIte, failed']
  · have lengths := congrArg List.length openSplit
    simp only [List.length_append] at lengths ready
    exact forEachRest_reads_element (by omega) closes zero openRan' reads

theorem forEachIn_decided (ends : EndsAtEof ts) (zero : ¬b = 0)
    (openRan : expect .lparen .forEachOpen ts = .ok ⟨afterOpen, opened⟩)
    (elementRan : name .identifier afterOpen = .ok element)
    (failed : expect (.keyword .trong) .loopIn element.rest = .error failure) :
    Decided failure (fun ts' φ => forEachRest (b + 1) ts' = .error φ)
      (Completes statementClosers (b + 1) 14 (Reads (forEachRest (b + 1)))) ts := by
  obtain ⟨⟨openFront, openSplit⟩, openEnds⟩ := expect_rest ends openRan
  obtain ⟨⟨elementFront, elementSplit⟩, elementEnds⟩ := name_rest openEnds elementRan
  have := element.shorter
  have decided : Decided failure _
      (Completes [.keyword .dung] (b + 1) 14 (Expects (.keyword .trong) .loopIn)) element.rest :=
    expect_decided (by decide) (by decide) elementEnds failed
  refine decided.lift [truth, filler .rparen, truth] [filler (.keyword .trong)] (fun _ => True)
    (show ts = (openFront ++ elementFront) ++ element.rest by
      rw [← openSplit]
      simp only [List.append_assoc, elementSplit])
    ?_ (fun k _ => Closes.filler (.keyword .dung) (by simp) _) (fun n room => by omega)
    (fun _ k _ => expects_filler (.keyword .trong) .loopIn (by decide) k) fun _ _ => trivial
  intro rest k ts' replaced long _
  obtain ⟨afterOpen', _, openRan', openReplaced⟩ := expect_replace replaced openRan (by omega)
  obtain ⟨element', elementRan', -, elementReplaced⟩ := name_replace openReplaced elementRan long
  refine ⟨element'.rest, elementReplaced, fun φ failed' => ?_, fun ready k' closes reads => ?_⟩
  · dsimp only at failed' ⊢
    rw [forEachRest]
    simp only [bind, Except.bind, openRan', zero, ↓reduceIte, elementRan', failed']
  · have lengths := congrArg List.length openSplit
    simp only [List.length_append] at lengths ready
    exact forEachRest_reads_in (by omega) closes zero openRan' elementRan' reads

theorem forEachCollection_decided (ends : EndsAtEof ts) (zero : ¬b = 0)
    (openRan : expect .lparen .forEachOpen ts = .ok ⟨afterOpen, opened⟩)
    (elementRan : name .identifier afterOpen = .ok element)
    (inRan : expect (.keyword .trong) .loopIn element.rest = .ok ⟨afterIn, inShorter⟩)
    (failed : expression b afterIn = .error failure) :
    Decided failure (fun ts' φ => forEachRest (b + 1) ts' = .error φ)
      (Completes statementClosers (b + 1) 14 (Reads (forEachRest (b + 1)))) ts := by
  obtain ⟨⟨openFront, openSplit⟩, openEnds⟩ := expect_rest ends openRan
  obtain ⟨⟨elementFront, elementSplit⟩, elementEnds⟩ := name_rest openEnds elementRan
  obtain ⟨⟨inFront, inSplit⟩, inEnds⟩ := expect_rest elementEnds inRan
  have := element.shorter
  refine ((exprsFinal b).expression afterIn inEnds failure failed).lift [filler .rparen, truth]
    [truth] (fun _ => True)
    (show ts = (openFront ++ elementFront ++ inFront) ++ afterIn by
      rw [← openSplit]
      simp only [List.append_assoc, inSplit, elementSplit])
    ?_ (fun k _ => Closes.filler .rparen (by decide) _)
    (fun n room => by
      have lengths := congrArg List.length openSplit
      simp only [List.length_append] at lengths room
      omega)
    (fun enough _ closes => expression_truth enough closes) fun _ _ => trivial
  intro rest k ts' replaced long _
  obtain ⟨afterOpen', _, openRan', openReplaced⟩ := expect_replace replaced openRan (by omega)
  obtain ⟨element', elementRan', -, elementReplaced⟩ :=
    name_replace openReplaced elementRan (by omega)
  obtain ⟨afterIn', _, inRan', inReplaced⟩ := expect_replace elementReplaced inRan long
  refine ⟨afterIn', inReplaced, fun φ failed' => ?_, fun ready k' closes reads => ?_⟩
  · dsimp only at failed' ⊢
    rw [forEachRest]
    simp only [bind, Except.bind, openRan', zero, ↓reduceIte, elementRan', inRan', failed']
  · have lengths := congrArg List.length openSplit
    simp only [List.length_append] at lengths ready
    exact forEachRest_reads_collection (by omega) closes zero openRan' elementRan' inRan' reads

theorem forEachClose_decided (ends : EndsAtEof ts) (zero : ¬b = 0)
    (openRan : expect .lparen .forEachOpen ts = .ok ⟨afterOpen, opened⟩)
    (elementRan : name .identifier afterOpen = .ok element)
    (inRan : expect (.keyword .trong) .loopIn element.rest = .ok ⟨afterIn, inShorter⟩)
    (collectionRan : expression b afterIn = .ok collection)
    (failed : expect .rparen .loopHeaderClose collection.rest = .error failure) :
    Decided failure (fun ts' φ => forEachRest (b + 1) ts' = .error φ)
      (Completes statementClosers (b + 1) 14 (Reads (forEachRest (b + 1)))) ts := by
  obtain ⟨⟨openFront, openSplit⟩, openEnds⟩ := expect_rest ends openRan
  obtain ⟨⟨elementFront, elementSplit⟩, elementEnds⟩ := name_rest openEnds elementRan
  obtain ⟨⟨inFront, inSplit⟩, inEnds⟩ := expect_rest elementEnds inRan
  obtain ⟨⟨collectionFront, collectionSplit⟩, collectionEnds⟩ :=
    (exprsConfined b).expression.rest inEnds collectionRan
  have := element.shorter
  have := collection.shorter
  have decided : Decided failure _
      (Completes [.keyword .dung] (b + 1) 14 (Expects .rparen .loopHeaderClose))
      collection.rest :=
    expect_decided (by decide) (by decide) collectionEnds failed
  refine decided.lift [truth] [filler .rparen] (Closes expressionClosers)
    (show ts = (openFront ++ elementFront ++ inFront ++ collectionFront) ++ collection.rest by
      rw [← openSplit]
      simp only [List.append_assoc, collectionSplit, inSplit, elementSplit])
    ?_ (fun k _ => Closes.filler (.keyword .dung) (by simp) _) (fun n room => by omega)
    (fun _ k _ => expects_filler .rparen .loopHeaderClose (by decide) k)
    fun _ _ => Closes.filler .rparen (by decide) _
  intro rest k ts' replaced long atStart
  obtain ⟨afterOpen', _, openRan', openReplaced⟩ := expect_replace replaced openRan (by omega)
  obtain ⟨element', elementRan', -, elementReplaced⟩ :=
    name_replace openReplaced elementRan (by omega)
  obtain ⟨afterIn', _, inRan', inReplaced⟩ := expect_replace elementReplaced inRan (by omega)
  obtain ⟨collection', collectionRan', -, collectionReplaced⟩ :=
    (exprsConfined b).expression.replace (exprsSteady b).expression
      (exprsClosable b).expression inEnds collectionRan inReplaced long
      fun same => atStart same.symm
  refine ⟨collection'.rest, collectionReplaced, fun φ failed' => ?_,
    fun ready k' closes reads => ?_⟩
  · dsimp only at failed' ⊢
    rw [forEachRest]
    simp only [bind, Except.bind, openRan', zero, ↓reduceIte, elementRan', inRan', collectionRan',
      failed']
  · have lengths := congrArg List.length openSplit
    simp only [List.length_append] at lengths ready
    exact forEachRest_reads_close (by omega) closes zero openRan' elementRan' inRan'
      collectionRan' reads

theorem forEachBody_decided (ih : StmtsFinal b) (ends : EndsAtEof ts) (zero : ¬b = 0)
    (openRan : expect .lparen .forEachOpen ts = .ok ⟨afterOpen, opened⟩)
    (elementRan : name .identifier afterOpen = .ok element)
    (inRan : expect (.keyword .trong) .loopIn element.rest = .ok ⟨afterIn, inShorter⟩)
    (collectionRan : expression b afterIn = .ok collection)
    (closeRan : expect .rparen .loopHeaderClose collection.rest = .ok ⟨afterClose, closed⟩)
    (failed : statement b afterClose = .error failure) :
    Decided failure (fun ts' φ => forEachRest (b + 1) ts' = .error φ)
      (Completes statementClosers (b + 1) 14 (Reads (forEachRest (b + 1)))) ts := by
  obtain ⟨⟨openFront, openSplit⟩, openEnds⟩ := expect_rest ends openRan
  obtain ⟨⟨elementFront, elementSplit⟩, elementEnds⟩ := name_rest openEnds elementRan
  obtain ⟨⟨inFront, inSplit⟩, inEnds⟩ := expect_rest elementEnds inRan
  obtain ⟨⟨collectionFront, collectionSplit⟩, collectionEnds⟩ :=
    (exprsConfined b).expression.rest inEnds collectionRan
  obtain ⟨⟨closeFront, closeSplit⟩, closeEnds⟩ := expect_rest collectionEnds closeRan
  have := element.shorter
  have := collection.shorter
  refine (ih.statement afterClose closeEnds failure failed).lift [] [truth] (fun _ => True)
    (show ts = (openFront ++ elementFront ++ inFront ++ collectionFront ++ closeFront) ++
        afterClose by
      rw [← openSplit]
      simp only [List.append_assoc, closeSplit, collectionSplit, inSplit, elementSplit])
    ?_ (fun _ closes => closes)
    (fun n room => by
      have lengths := congrArg List.length openSplit
      simp only [List.length_append] at lengths room
      omega)
    (fun enough _ closes => statement_truth enough closes) fun _ _ => trivial
  intro rest k ts' replaced long _
  obtain ⟨afterOpen', _, openRan', openReplaced⟩ := expect_replace replaced openRan (by omega)
  obtain ⟨element', elementRan', -, elementReplaced⟩ :=
    name_replace openReplaced elementRan (by omega)
  obtain ⟨afterIn', _, inRan', inReplaced⟩ := expect_replace elementReplaced inRan (by omega)
  obtain ⟨collection', collectionRan', -, collectionReplaced⟩ :=
    (exprsConfined b).expression.replace (exprsSteady b).expression
      (exprsClosable b).expression inEnds collectionRan inReplaced (by omega)
      fun same => absurd same (by omega)
  obtain ⟨afterClose', _, closeRan', closeReplaced⟩ :=
    expect_replace collectionReplaced closeRan long
  refine ⟨afterClose', closeReplaced, fun φ failed' => ?_, fun _ k' _ reads => ?_⟩
  · dsimp only at failed' ⊢
    rw [forEachRest]
    simp only [bind, Except.bind, openRan', zero, ↓reduceIte, elementRan', inRan', collectionRan',
      closeRan', failed']
  · obtain ⟨body', bodyRan', bodyRest⟩ := reads
    exact forEachRest_reads zero openRan' elementRan' inRan' collectionRan' closeRan' bodyRan'
      bodyRest

end Collection

/-- A loop over a collection: the first failing read of its header or its body decides the
failure, and with no budget left for its name it fails after its `(`. -/
theorem forEachRest_final (ih : StmtsFinal b) :
    Final statementClosers (b + 1) 14 (forEachRest (b + 1)) := by
  intro ts ends failure failed
  rw [forEachRest] at failed
  rcases Except.bind_eq_error failed with openFailed | ⟨⟨afterOpen, opened⟩, openRan, failed⟩
  · exact forEachOpen_decided ends openFailed
  dsimp only at failed
  by_cases zero : b = 0
  · obtain rfl : failure = .tooDeep := by
      simp only [zero, ↓reduceIte] at failed
      cases failed
      rfl
    subst zero
    exact forEachDeep_decided ends openRan
  simp only [zero, ↓reduceIte] at failed
  rcases Except.bind_eq_error failed with elementFailed | ⟨element, elementRan, failed⟩
  · exact forEachElement_decided ends zero openRan elementFailed
  rcases Except.bind_eq_error failed with inFailed | ⟨⟨afterIn, inShorter⟩, inRan, failed⟩
  · exact forEachIn_decided ends zero openRan elementRan inFailed
  dsimp only at failed
  rcases Except.bind_eq_error failed with collectionFailed | ⟨collection, collectionRan, failed⟩
  · exact forEachCollection_decided ends zero openRan elementRan inRan collectionFailed
  rcases Except.bind_eq_error failed with closeFailed | ⟨⟨afterClose, closed⟩, closeRan, failed⟩
  · exact forEachClose_decided ends zero openRan elementRan inRan collectionRan closeFailed
  dsimp only at failed
  rcases Except.bind_eq_error failed with bodyFailed | ⟨body, -, failed⟩
  · exact forEachBody_decided ih ends zero openRan elementRan inRan collectionRan closeRan
      bodyFailed
  · cases failed

end Statements

/-- With no budget left, every statement production fails at once, whatever follows. -/
theorem stmtsFinal_zero : StmtsFinal 0 where
  declaration ts ends failure failed := by
    rw [declaration] at failed
    cases failed
    exact tooDeep_decided ends fun _ => by rw [declaration]
  routine kind ts ends failure failed := by
    rw [routine] at failed
    cases failed
    exact tooDeep_decided ends fun _ => by rw [routine]
  classDecl ts ends failure failed := by
    rw [classDecl] at failed
    cases failed
    exact tooDeep_decided ends fun _ => by rw [classDecl]
  classBody ts ends failure failed := by
    rw [classBody] at failed
    cases failed
    exact tooDeep_decided ends fun _ => by rw [classBody]
  statement ts ends failure failed := by
    rw [statement] at failed
    cases failed
    exact tooDeep_decided ends fun _ => by rw [statement]
  blockRest ts ends failure failed := by
    rw [blockRest] at failed
    cases failed
    exact tooDeep_decided ends fun _ => by rw [blockRest]
  ifRest ts ends failure failed := by
    rw [ifRest] at failed
    cases failed
    exact tooDeep_decided ends fun _ => by rw [ifRest]
  whileRest ts ends failure failed := by
    rw [whileRest] at failed
    cases failed
    exact tooDeep_decided ends fun _ => by rw [whileRest]
  forEachRest ts ends failure failed := by
    rw [forEachRest] at failed
    cases failed
    exact tooDeep_decided ends fun _ => by rw [forEachRest]

theorem stmtsFinal_succ {b : Nat} (ih : StmtsFinal b) : StmtsFinal (b + 1) where
  declaration := declaration_final ih
  routine := routine_final ih
  classDecl := classDecl_final (classBody_final ih)
  classBody := classBody_final ih
  statement := statement_final ih
  blockRest := blockRest_final ih
  ifRest := ifRest_final ih
  whileRest := whileRest_final ih
  forEachRest := forEachRest_final ih

/-- Every failure of a statement production is decided at one of its tokens, whatever its
budget, and what comes before a syntax error can be finished. -/
theorem stmtsFinal : ∀ b, StmtsFinal b
  | 0 => stmtsFinal_zero
  | b + 1 => stmtsFinal_succ (stmtsFinal b)

section TopLevel

variable {budget : Nat} {rest k ts ts' : List Token}

/-- The top level reads all of `ts` into a program, whatever the tokens past it. -/
def ReadsProgram (budget : Nat) (ts _ : List Token) : Prop :=
  ∃ program, topLevel budget ts = .ok program

theorem atEnd_replace (replaced : Replaced rest k ts ts') (long : rest.length < ts.length) :
    atEnd ts' = atEnd ts := by
  obtain ⟨u, tail, tail', rfl, rfl⟩ := replaced.head long
  rfl

/-- What closes the input closes a statement. -/
theorem Closes.statement_of_eof (closes : Closes [.eof] k) : Closes statementClosers k := by
  obtain ⟨t, tail, rfl, closer⟩ := closes
  refine ⟨t, tail, rfl, ?_⟩
  simp only [List.mem_singleton] at closer
  simp [statementClosers, closer]

/-- At the end of input the top level reads no declaration. -/
theorem topLevel_of_closes (closes : Closes [.eof] k) : topLevel budget k = .ok [] := by
  obtain ⟨t, tail, rfl, closer⟩ := closes
  simp only [List.mem_singleton] at closer
  rw [topLevel]
  simp [atEnd, peek, closer]

/-- How the top level goes on through its first declaration: from the start of the input, which
is not its end, or of any list that agrees with it past tokens that are not the end either. -/
theorem topLevel_passes_first (notEnd : atEnd ts = false) {ready : Prop} :
    Passes (fun ts' φ => declaration budget ts' = .error φ) (Reads (declaration budget))
      (fun ts' φ => topLevel budget ts' = .error φ) (ReadsProgram budget)
      [.eof] (fun k => atEnd k = false) ready [] ts ts := by
  intro rest k ts' replaced long atStart
  have notEnd' : atEnd ts' = false := by
    by_cases inside : rest.length < ts.length
    · rw [atEnd_replace replaced inside, notEnd]
    · obtain ⟨-, rfl⟩ := replaced.eq_of_length_le (by omega)
      exact atStart (by omega)
  refine ⟨ts', replaced, fun φ failed' => ?_, fun _ k' closes reads => ?_⟩
  · dsimp only at failed' ⊢
    rw [topLevel]
    simp only [notEnd', Bool.false_eq_true, ↓reduceIte, bind, Except.bind, failed']
  · obtain ⟨first, firstRan, firstRest⟩ := reads
    have more : topLevel budget first.rest = .ok [] := by
      rw [firstRest]
      exact topLevel_of_closes closes
    refine ⟨[first.value], ?_⟩
    rw [topLevel]
    simp only [notEnd', Bool.false_eq_true, ↓reduceIte, bind, Except.bind, firstRan, more]
    rfl

/-- How the top level goes on past a declaration that it read from `ts`. -/
theorem topLevel_passes (ends : EndsAtEof ts) {first : Parsed ts Stmt}
    (notEnd : atEnd ts = false) (firstRan : declaration budget ts = .ok first) {ready : Prop} :
    Passes (fun ts' φ => topLevel budget ts' = .error φ) (ReadsProgram budget)
      (fun ts' φ => topLevel budget ts' = .error φ) (ReadsProgram budget)
      [.eof] (Closes statementClosers) ready [] first.rest ts := by
  intro rest k ts' replaced long atStart
  have := first.shorter
  obtain ⟨first', firstRan', -, firstReplaced⟩ :=
    (stmtsConfined budget).declaration.replace (stmtsSteady budget).declaration
      (stmtsClosable budget).declaration ends firstRan replaced long fun same => atStart same.symm
  have notEnd' : atEnd ts' = false := by rw [atEnd_replace replaced (by omega), notEnd]
  refine ⟨first'.rest, firstReplaced, fun φ failed' => ?_, fun _ k' _ reads => ?_⟩
  · dsimp only at failed' ⊢
    rw [topLevel]
    simp only [notEnd', Bool.false_eq_true, ↓reduceIte, bind, Except.bind, firstRan', failed']
  · obtain ⟨more, moreRan⟩ := reads
    refine ⟨first'.value :: more, ?_⟩
    rw [topLevel]
    simp only [notEnd', Bool.false_eq_true, ↓reduceIte, bind, Except.bind, firstRan', moreRan]
    rfl

/-- The declarations up to the end of input, by induction on the tokens left: a failure is
decided at one token, and what comes before a syntax error can be finished into a program. -/
theorem topLevel_decided (budget : Nat) {ts : List Token} (ends : EndsAtEof ts)
    {failure : ParseFailure} (failed : topLevel budget ts = .error failure) :
    Decided failure (fun ts' φ => topLevel budget ts' = .error φ)
      (Completes [.eof] budget 13 (ReadsProgram budget)) ts := by
  rw [topLevel] at failed
  cases notEnd : atEnd ts with
  | true =>
    simp only [notEnd, ↓reduceIte] at failed
    cases failed
  | false =>
    simp only [notEnd, Bool.false_eq_true, ↓reduceIte] at failed
    rcases Except.bind_eq_error failed with firstFailed | ⟨first, firstRan, failed⟩
    · exact ((stmtsFinal budget).declaration ts ends failure firstFailed).lift [] [truth]
        (fun k => atEnd k = false) (List.nil_append ts).symm (topLevel_passes_first notEnd)
        (fun _ closes => Closes.statement_of_eof closes) (fun n room => by simpa using room)
        (fun enough _ closes => declaration_truth enough closes) fun _ _ => rfl
    rcases Except.bind_eq_error failed with moreFailed | ⟨_, -, failed⟩
    · obtain ⟨⟨front, split⟩, firstEnds⟩ :=
        (stmtsConfined budget).declaration.rest ends firstRan
      exact (topLevel_decided budget firstEnds moreFailed).lift [] [] (Closes statementClosers)
        split.symm (topLevel_passes ends notEnd firstRan) (fun _ closes => closes)
        (fun n room => by omega) (fun _ _ closes => ⟨[], topLevel_of_closes closes⟩)
        fun _ closes => Closes.statement_of_eof closes
    · cases failed
termination_by ts.length
decreasing_by
  have := first.shorter
  omega

end TopLevel

/-- Some tokens after `live`, ending at the end of input, make it a program. -/
def Viable (budget : Nat) (live : List Token) : Prop :=
  ∃ more, EndsAtEof (live ++ more) ∧ ∃ program, parse budget (live ++ more) = .ok program

section Viable

variable {budget : Nat} {live : List Token}

theorem Viable.initial {shorter : List Token} (viable : Viable budget live)
    (isPrefix : shorter <+: live) : Viable budget shorter := by
  obtain ⟨more, ends, program, parsed⟩ := viable
  obtain ⟨mid, rfl⟩ := isPrefix
  exact ⟨mid ++ more, by simpa using ends, program, by simpa using parsed⟩

/-- Tokens that can be finished into a program, with room in the budget, are viable. -/
theorem Completes.viable (done : Completes [.eof] budget 13 (ReadsProgram budget) live)
    (room : 16 * live.length + 13 ≤ budget) : Viable budget live := by
  obtain ⟨c, works⟩ := done
  obtain ⟨program, ran⟩ :=
    works room [endOfInput] ⟨endOfInput, [], rfl, List.mem_singleton_self _⟩
  refine ⟨c ++ [endOfInput], ⟨live ++ c, endOfInput, by simp, rfl⟩, ⟨program⟩, ?_⟩
  rw [parse, ← List.append_assoc, ran]
  rfl

/-- Tokens on which the top level fails whatever follows are not viable. -/
theorem not_viable (dies : ∀ post, ∃ φ, topLevel budget (live ++ post) = .error φ) :
    ¬Viable budget live := by
  rintro ⟨more, -, program, parsed⟩
  obtain ⟨φ, failed⟩ := dies more
  rw [parse, failed] at parsed
  cases parsed

end Viable

/-- Only the first syntax error is reported. On tokens that end at the end of input, with room
in the budget for sixteen calls a token, a syntax error is decided at the token `d` after the
longest viable prefix `live`. It names `d`; or `d` is an `=` after a left side that is no
target, and the error names that left side's last token or is one found in the assigned value,
read before the target is checked. -/
theorem parse_error_first {budget : Nat} {ts : List Token} {e : ParseError}
    (ends : EndsAtEof ts) (room : 16 * ts.length ≤ budget)
    (failed : parse budget ts = .error (.error e)) :
    ∃ live d rest, ts = live ++ d :: rest ∧
      (∀ shorter, shorter <+: live → Viable budget shorter) ∧ ¬Viable budget (live ++ [d]) ∧
      (e.problem ≠ .invalidTarget ∧ e.token = d ∨
        d.kind = .equal ∧ (e.problem = .invalidTarget ∧ live.getLast? = some e.token ∨
          e.token ∈ rest)) := by
  have topFailed : topLevel budget ts = .error (.error e) := by
    cases ran : topLevel budget ts with
    | error φ =>
      rw [parse, ran] at failed
      cases failed
      rfl
    | ok program =>
      rw [parse, ran] at failed
      cases failed
  obtain ⟨pre, t, post, split, at_, all, earliest⟩ := topLevel_decided budget ends topFailed
  have lengths := congrArg List.length split
  simp only [List.length_append, List.length_cons] at lengths
  rcases earliest e rfl with
    ⟨local_, done⟩ | ⟨front, equals, back, rfl, isEquals, done, dies, named⟩
  · -- the error names the token after the longest viable prefix
    refine ⟨pre, t, post, split, fun shorter isPrefix => (done.viable (by omega)).initial isPrefix,
      not_viable fun post' => ⟨_, by simpa using all post'⟩, .inl ⟨local_, at_.1 local_⟩⟩
  · -- an `=` after a left side that is no target
    simp only [List.length_append, List.length_cons] at lengths
    refine ⟨front, equals, back ++ t :: post, by simpa using split,
      fun shorter isPrefix => (done.viable (by omega)).initial isPrefix,
      not_viable fun post' => by simpa using dies post', .inr ⟨isEquals, ?_⟩⟩
    rcases named with ⟨named, target⟩ | invalid
    · by_cases problem : e.problem = .invalidTarget
      · obtain ⟨before, equals', after, rfl, -⟩ := target problem
        exact .inr (by simp)
      · exact .inr (by rw [named problem]; simp)
    · exact .inl invalid

/-- The parse of `(` is decided at the end of input, where an expression should start. -/
theorem open_group_error_first :
    EndsAtEof [⟨.lparen, "(", 1⟩, ⟨.eof, "", 1⟩] ∧ 16 * 2 ≤ parseBudget requestDepth ∧
    parse (parseBudget requestDepth) [⟨.lparen, "(", 1⟩, ⟨.eof, "", 1⟩] =
      .error (.error ⟨.expression, ⟨.eof, "", 1⟩⟩) ∧
    ∃ live d rest, [⟨.lparen, "(", 1⟩, ⟨.eof, "", 1⟩] = live ++ d :: rest ∧
      (∀ shorter, shorter <+: live → Viable (parseBudget requestDepth) shorter) ∧
      ¬Viable (parseBudget requestDepth) (live ++ [d]) ∧
      (Problem.expression ≠ .invalidTarget ∧ (⟨.eof, "", 1⟩ : Token) = d ∨
        d.kind = .equal ∧ (Problem.expression = .invalidTarget ∧
          live.getLast? = some ⟨.eof, "", 1⟩ ∨ ⟨.eof, "", 1⟩ ∈ rest)) :=
  have ends : EndsAtEof [⟨.lparen, "(", 1⟩, ⟨.eof, "", 1⟩] :=
    ⟨[⟨.lparen, "(", 1⟩], ⟨.eof, "", 1⟩, rfl, rfl⟩
  have room : 16 * 2 ≤ parseBudget requestDepth := by decide
  have failed : parse (parseBudget requestDepth) [⟨.lparen, "(", 1⟩, ⟨.eof, "", 1⟩] =
      .error (.error ⟨.expression, ⟨.eof, "", 1⟩⟩) := by cbv
  ⟨ends, room, failed, parse_error_first ends room failed⟩

/-- After `1 =` no tokens make a program, since the target `1` is invalid whatever value
follows; yet the parse of `1 = )` reports the missing expression at `)`, found while the value
is read, and not the invalid target in front of it. -/
theorem invalid_target_reported_late :
    (∀ post, ∃ failure, parse (parseBudget requestDepth)
      (⟨.number, "1", 1⟩ :: ⟨.equal, "=", 1⟩ :: post) = .error failure) ∧
    tokenize "1 = )" =
      .ok [⟨.number, "1", 1⟩, ⟨.equal, "=", 1⟩, ⟨.rparen, ")", 1⟩, ⟨.eof, "", 1⟩] ∧
    parse (parseBudget requestDepth)
        [⟨.number, "1", 1⟩, ⟨.equal, "=", 1⟩, ⟨.rparen, ")", 1⟩, ⟨.eof, "", 1⟩] =
      .error (.error ⟨.expression, ⟨.rparen, ")", 1⟩⟩) := by
  refine ⟨fun post => ?_, by cbv, by cbv⟩
  -- the left side `1` is no target, so the assignment fails whatever follows its `=`
  have ends : EndsAtEof
      [⟨.number, "1", 1⟩, ⟨.equal, "=", 1⟩, ⟨.rparen, ")", 1⟩, ⟨.eof, "", 1⟩] :=
    ⟨[⟨.number, "1", 1⟩, ⟨.equal, "=", 1⟩, ⟨.rparen, ")", 1⟩], ⟨.eof, "", 1⟩,
      rfl, rfl⟩
  have leftRan : binary 986 0
      [⟨.number, "1", 1⟩, ⟨.equal, "=", 1⟩, ⟨.rparen, ")", 1⟩, ⟨.eof, "", 1⟩] =
      .ok ⟨.number (Binary64.ofNat 1),
        [⟨.equal, "=", 1⟩, ⟨.rparen, ")", 1⟩, ⟨.eof, "", 1⟩], by decide⟩ := by cbv
  have split : ([⟨.number, "1", 1⟩, ⟨.equal, "=", 1⟩, ⟨.rparen, ")", 1⟩, ⟨.eof, "", 1⟩] :
      List Token) =
      [⟨.number, "1", 1⟩] ++ [⟨.equal, "=", 1⟩, ⟨.rparen, ")", 1⟩, ⟨.eof, "", 1⟩] := rfl
  have found : next? .equal [⟨.equal, "=", 1⟩, ⟨.rparen, ")", 1⟩, ⟨.eof, "", 1⟩] =
      some ⟨[⟨.rparen, ")", 1⟩, ⟨.eof, "", 1⟩], by decide⟩ := rfl
  obtain ⟨φ, failed⟩ := assignment_dies ends leftRan split found rfl rfl post
  have assignmentFailed : assignment 987 (⟨.number, "1", 1⟩ :: ⟨.equal, "=", 1⟩ :: post) =
      .error φ := failed
  -- and with it the expression statement, the declaration and the parse
  have budget : parseBudget requestDepth = 987 + 3 := rfl
  refine ⟨φ, ?_⟩
  rw [parse, topLevel, budget, declaration, statement]
  simp [atEnd, peek, next?, expression, assignmentFailed, Except.map, bind, Except.bind]


end Parser

end VieCompiler
