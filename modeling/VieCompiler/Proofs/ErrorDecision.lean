import VieCompiler.Proofs.Completions

/-!
# Where a syntax error is decided

A failure of a production is decided at one token of its input: `Decided failure fails
completes ts` says that `fails` holds of every list that agrees with `ts` up to and including
that token, and `ParseFailure.DecidedAt` says what the failure tells of it. A syntax error names
that token, except an invalid assignment target, which names the target's own last token, in
front of an `=`: the target is checked only once the assigned value has been read.

A syntax error is moreover found as early as it can be (`ParseError.Earliest`): the tokens in
front of the token that decides it can be finished (`completes`, `Parser.Completes`). The one
exception is an assignment whose left side is no target. There the tokens in front of the `=`
can be finished and the `=` cannot, yet the error is reported once the value has been read: at
the left side's last token, or at an error inside the value.

`Parser.Final f` says that every failure of `f` on tokens that end at the end of input is
decided so. A failure inside a sub-production is decided inside that production's input, and
`Decided.lift` carries the decision out to the whole input, given how the production goes on
through the sub-production (`Passes`): every list that agrees with the input past the point
where the sub-production starts gets there by the same reads (`Parser.Steady`,
`Parser.Closable`), a failure of the sub-production is the production's, and tokens that finish
the sub-production and then `after` finish the production. This module proves the invariant of
the expression productions at every budget (`Parser.exprsFinal`);
`VieCompiler.Proofs.FirstError` goes on with the statements and the parse.
-/

namespace VieCompiler

theorem Except.bind_eq_error {ε α β : Type} {x : Except ε α} {f : α → Except ε β} {e : ε}
    (h : x >>= f = .error e) : x = .error e ∨ ∃ a, x = .ok a ∧ f a = .error e := by
  cases x with
  | error e' =>
    cases h
    exact .inl rfl
  | ok a => exact .inr ⟨a, rfl, h⟩

/-- A bind that both branches of a condition share. -/
theorem Except.ite_bind {ε α β : Type} (c : Prop) [Decidable c] (x y : Except ε α)
    (f : α → Except ε β) : (if c then x >>= f else y >>= f) = (if c then x else y) >>= f := by
  by_cases h : c <;> simp only [h, ↓reduceIte]

/-- Where a failure is decided: at the token `t` after `pre`. A syntax error names `t`, unless
it is an invalid assignment target, which is named at its own last token, in front of an `=`
inside `pre`; a number that does not read is `t` itself. -/
def ParseFailure.DecidedAt (pre : List Token) (t : Token) : ParseFailure → Prop
  | .tooDeep => True
  | .error e => (e.problem ≠ .invalidTarget → e.token = t) ∧
      (e.problem = .invalidTarget →
        ∃ before equals after, pre = before ++ e.token :: equals :: after ∧ equals.kind = .equal)
  | .notANumber u => u = t

theorem ParseFailure.DecidedAt.widen {pre : List Token} {t : Token} {failure : ParseFailure}
    (decided : failure.DecidedAt pre t) (front : List Token) :
    failure.DecidedAt (front ++ pre) t := by
  cases failure with
  | tooDeep => trivial
  | error e =>
    refine ⟨decided.1, fun invalid => ?_⟩
    obtain ⟨before, equals, after, rfl, isEquals⟩ := decided.2 invalid
    exact ⟨front ++ before, equals, after, by simp, isEquals⟩
  | notANumber u => exact decided

/-- The syntax error `e`, decided at `t` after the tokens `pre`, was found as early as it could
be. Either `e` is no invalid target and `pre` can be finished, or `pre` holds an `=` after a
left side that is no target: the tokens in front of the `=` can be finished, with the `=` after
them the run fails whatever follows, and `e` names the left side's last token or is decided after
the `=`. -/
def ParseError.Earliest (e : ParseError) (fails : List Token → ParseFailure → Prop)
    (completes : List Token → Prop) (pre : List Token) (t : Token) : Prop :=
  e.problem ≠ .invalidTarget ∧ completes pre ∨
    ∃ front equals back, pre = front ++ equals :: back ∧ equals.kind = .equal ∧
      completes front ∧ (∀ post, ∃ failure, fails (front ++ equals :: post) failure) ∧
      ((ParseFailure.error e).DecidedAt back t ∨
        e.problem = .invalidTarget ∧ front.getLast? = some e.token)

/-- The failure is decided at a token of `ts`: `fails` holds of every list that agrees with
`ts` up to and including that token, and a syntax error was found as early as it could be. -/
def Decided (failure : ParseFailure) (fails : List Token → ParseFailure → Prop)
    (completes : List Token → Prop) (ts : List Token) : Prop :=
  ∃ pre t post, ts = pre ++ t :: post ∧ failure.DecidedAt pre t ∧
    (∀ post', fails (pre ++ t :: post') failure) ∧
    ∀ e, failure = .error e → e.Earliest fails completes pre t

/-- How a run on `ts` goes on through a sub-run that starts at its suffix `s`. On a list that
agrees with `ts` up to its suffix `rest`, which starts inside `s`, or at its start when the
tokens `k` in its place satisfy `boundary`, the run reads alike up to where the sub-run starts,
on a list that agrees alike with `s`. A failure of the sub-run there is the run's, and, given
`ready`, a read of the sub-run up to `after` and tokens `k'` that start with one of `closers`
is finished by the run up to `k'`. -/
def Passes (fails : List Token → ParseFailure → Prop) (reads : List Token → List Token → Prop)
    (fails' : List Token → ParseFailure → Prop) (reads' : List Token → List Token → Prop)
    (closers : List Token.Kind) (boundary : List Token → Prop) (ready : Prop)
    (after s ts : List Token) : Prop :=
  ∀ {rest k ts'}, Replaced rest k ts ts' → rest.length ≤ s.length →
    (rest.length = s.length → boundary k) →
    ∃ s', Replaced rest k s s' ∧ (∀ φ, fails s' φ → fails' ts' φ) ∧
      (ready → ∀ k', Closes closers k' → reads s' (after ++ k') → reads' ts' k')

namespace Passes

variable {fails fails' : List Token → ParseFailure → Prop}
  {reads reads' : List Token → List Token → Prop} {closers closers' : List Token.Kind}
  {boundary : List Token → Prop} {ready : Prop} {b b' height height' : Nat}
  {front s ts after c : List Token}

/-- A list that agrees with `ts` up to a token inside `s` fails where the sub-run fails. -/
theorem reach (passes : Passes fails reads fails' reads' closers boundary ready after s ts)
    (split : ts = front ++ s) {mid back post' : List Token} {u : Token}
    (parts : s = mid ++ u :: back) {φ : ParseFailure} (failed : fails (mid ++ u :: post') φ) :
    fails' (front ++ mid ++ u :: post') φ := by
  have replaced : Replaced back post' ts (front ++ mid ++ u :: post') :=
    ⟨front ++ mid ++ [u], by rw [split, parts]; simp, by simp⟩
  have inside : back.length < s.length := by
    rw [parts]
    simp only [List.length_append, List.length_cons]
    omega
  obtain ⟨s', sReplaced, failsThere, -⟩ :=
    passes replaced inside.le fun same => absurd same (Nat.ne_of_lt inside)
  rw [parts, show mid ++ u :: back = (mid ++ [u]) ++ back by simp] at sReplaced
  have same := sReplaced.eq_of_split
  subst same
  exact failsThere φ (by simpa using failed)

/-- Tokens that finish the sub-run from a prefix of `s`, and then `after`, finish the run; from
the start of `s`, the tokens `c` that finish the sub-run from nothing do, when the run stops in
front of them. -/
theorem completes
    (passes : Passes fails reads fails' reads' closers' boundary
      (16 * front.length + height' ≤ b') after s ts)
    (split : ts = front ++ s) (closesAfter : ∀ k, Closes closers' k → Closes closers (after ++ k))
    (fits : ∀ n, 16 * (front.length + n) + height' ≤ b' → 16 * n + height ≤ b)
    (scratch : height ≤ b → ∀ k, Closes closers k → reads (c ++ k) k)
    (opens : ∀ k, Closes closers' k → boundary (c ++ after ++ k))
    {x y : List Token} (parts : s = x ++ y) (done : Parser.Completes closers b height reads x) :
    Parser.Completes closers' b' height' reads' (front ++ x) := by
  by_cases empty : x = []
  · -- from the start of `s`: the sub-run reads `c`
    subst empty
    refine ⟨c ++ after, fun room k closes => ?_⟩
    have replaced : Replaced s (c ++ after ++ k) ts (front ++ [] ++ (c ++ after) ++ k) :=
      ⟨front, split, by simp⟩
    obtain ⟨s', sReplaced, -, finishes⟩ :=
      passes replaced (Nat.le_refl _) fun _ => opens k closes
    have same : s' = [] ++ (c ++ after ++ k) := Replaced.eq_of_split (m := []) sReplaced
    rw [List.nil_append] at same
    subst same
    refine finishes (by simp at room; omega) k closes ?_
    have enough : height ≤ b := by simpa using fits 0 (by simpa using room)
    simpa using scratch enough (after ++ k) (closesAfter k closes)
  · -- from inside `s`: the sub-run's own finishing tokens
    obtain ⟨cx, works⟩ := done
    refine ⟨cx ++ after, fun room k closes => ?_⟩
    have short : y.length < s.length := by
      have : x.length ≠ 0 := fun zero => empty (List.eq_nil_of_length_eq_zero zero)
      rw [parts, List.length_append]
      omega
    have replaced : Replaced y (cx ++ after ++ k) ts (front ++ x ++ (cx ++ after) ++ k) :=
      ⟨front ++ x, by rw [split, parts, List.append_assoc], by simp⟩
    obtain ⟨s', sReplaced, -, finishes⟩ :=
      passes replaced short.le fun same => absurd same (Nat.ne_of_lt short)
    have same : s' = x ++ (cx ++ after ++ k) :=
      Replaced.eq_of_split (m := x) (parts ▸ sReplaced)
    subst same
    refine finishes (by simp at room; omega) k closes ?_
    simpa using works (fits x.length (by simpa [Nat.add_comm] using room)) (after ++ k)
      (closesAfter k closes)

end Passes

namespace Decided

variable {failure : ParseFailure} {fails fails' : List Token → ParseFailure → Prop}
  {completes completes' : List Token → Prop} {s ts : List Token}

/-- A failure that every list starting with the token of `ts` has is decided at that token,
when a syntax error is no invalid target and nothing read before it needs finishing. -/
theorem first {u : Token} {rest : List Token} (at_ : failure.DecidedAt [] u)
    (all : ∀ ts', fails (u :: ts') failure)
    (start : ∀ e, failure = .error e → e.problem ≠ .invalidTarget ∧ completes []) :
    Decided failure fails completes (u :: rest) :=
  ⟨[], u, rest, rfl, at_, all, fun e isError => .inl (start e isError)⟩

/-- A failure decided inside a sub-run that starts at the suffix `s` of `ts` is decided in the
run, at the same token: what the sub-run could finish, the run finishes through `Passes`. -/
theorem lift {reads reads' : List Token → List Token → Prop} {closers closers' : List Token.Kind}
    {b b' height height' : Nat} {front : List Token} (after c : List Token)
    (boundary : List Token → Prop)
    (decided : Decided failure fails (Parser.Completes closers b height reads) s)
    (split : ts = front ++ s)
    (passes : Passes fails reads fails' reads' closers' boundary
      (16 * front.length + height' ≤ b') after s ts)
    (closesAfter : ∀ k, Closes closers' k → Closes closers (after ++ k))
    (fits : ∀ n, 16 * (front.length + n) + height' ≤ b' → 16 * n + height ≤ b)
    (scratch : height ≤ b → ∀ k, Closes closers k → reads (c ++ k) k)
    (opens : ∀ k, Closes closers' k → boundary (c ++ after ++ k)) :
    Decided failure fails' (Parser.Completes closers' b' height' reads') ts := by
  obtain ⟨pre, t, post, rfl, at_, all, earliest⟩ := decided
  refine ⟨front ++ pre, t, post, by rw [split, List.append_assoc], at_.widen front,
    fun post' => passes.reach split rfl (all post'), fun e isError => ?_⟩
  rcases earliest e isError with
    ⟨local_, done⟩ | ⟨fr, equals, back, rfl, isEquals, done, dies, named⟩
  · exact .inl ⟨local_, passes.completes split closesAfter fits scratch opens rfl done⟩
  · -- the exception of an assignment whose left side `fr` is no target
    have parts : fr ++ equals :: back ++ t :: post = fr ++ equals :: (back ++ t :: post) := by simp
    refine .inr ⟨front ++ fr, equals, back, by simp, isEquals,
      passes.completes split closesAfter fits scratch opens parts done, fun post' => ?_, ?_⟩
    · obtain ⟨φ, failed⟩ := dies post'
      exact ⟨φ, by simpa using passes.reach split parts failed⟩
    · rcases named with named | ⟨invalid, last⟩
      · exact .inl named
      · exact .inr ⟨invalid, by rw [List.getLast?_append, last]; rfl⟩

/-- A failure decided inside the value of an assignment whose left side `front` is no target:
with the `=` after it the run fails whatever follows, and the error is decided past it. -/
theorem past {reads reads' : List Token → List Token → Prop} {closers : List Token.Kind}
    {boundary : List Token → Prop} {ready : Prop} {after front : List Token} {equals : Token}
    (decided : Decided failure fails completes s) (split : ts = front ++ equals :: s)
    (isEquals : equals.kind = .equal)
    (passes : Passes fails reads fails' reads' closers boundary ready after s ts)
    (done : completes' front) (dies : ∀ post, ∃ φ, fails' (front ++ equals :: post) φ) :
    Decided failure fails' completes' ts := by
  obtain ⟨pre, t, post, rfl, at_, all, -⟩ := decided
  have split' : ts = (front ++ [equals]) ++ (pre ++ t :: post) := by rw [split]; simp
  refine ⟨front ++ equals :: pre, t, post, by rw [split]; simp,
    by simpa using at_.widen (front ++ [equals]),
    fun post' => by simpa using passes.reach split' rfl (all post'),
    fun e isError => .inr ⟨front, equals, pre, rfl, isEquals, done, dies, .inl (isError ▸ at_)⟩⟩

end Decided

namespace Parser

open Token (filler truth)
open Token.Kind (expressionClosers statementClosers)

section Finals

variable {α : Type} {closers : List Token.Kind} {b height : Nat}

/-- A failure of `f` on `ts`, which ends at the end of input, is decided at one of its tokens,
and what comes before a syntax error can be finished as a run of `f`. -/
def FinalAt (closers : List Token.Kind) (b height : Nat)
    (f : (tokens : List Token) → Except ParseFailure (Parsed tokens α)) (ts : List Token) : Prop :=
  EndsAtEof ts → ∀ failure, f ts = .error failure →
    Decided failure (fun ts' φ => f ts' = .error φ) (Completes closers b height (Reads f)) ts

/-- Every failure of `f` is decided at one of the tokens it is given. -/
def Final (closers : List Token.Kind) (b height : Nat)
    (f : (tokens : List Token) → Except ParseFailure (Parsed tokens α)) : Prop :=
  ∀ ts, FinalAt closers b height f ts

/-- A failure of the loop `f` on `ts`, which ends at the end of input, is decided at one of
its tokens. -/
def FinalFromAt (closers : List Token.Kind) (b height : Nat)
    (f : α → (tokens : List Token) → Except ParseFailure (Continued tokens α))
    (ts : List Token) : Prop :=
  ∀ start, EndsAtEof ts → ∀ failure, f start ts = .error failure →
    Decided failure (fun ts' φ => f start ts' = .error φ)
      (Completes closers b height (ReadsFrom f start)) ts

def FinalFrom (closers : List Token.Kind) (b height : Nat)
    (f : α → (tokens : List Token) → Except ParseFailure (Continued tokens α)) : Prop :=
  ∀ ts, FinalFromAt closers b height f ts

theorem Final.of_shorter {f : (tokens : List Token) → Except ParseFailure (Parsed tokens α)}
    (step : ∀ ts, (∀ shorter : List Token, shorter.length < ts.length →
      FinalAt closers b height f shorter) → FinalAt closers b height f ts) :
    Final closers b height f := by
  intro ts
  induction count : ts.length using Nat.strongRecOn generalizing ts with
  | ind n ih => exact step ts fun shorter fewer => ih _ (count ▸ fewer) shorter rfl

theorem FinalFrom.of_shorter
    {f : α → (tokens : List Token) → Except ParseFailure (Continued tokens α)}
    (step : ∀ ts, (∀ shorter : List Token, shorter.length < ts.length →
      FinalFromAt closers b height f shorter) → FinalFromAt closers b height f ts) :
    FinalFrom closers b height f := by
  intro ts
  induction count : ts.length using Nat.strongRecOn generalizing ts with
  | ind n ih => exact step ts fun shorter fewer => ih _ (count ▸ fewer) shorter rfl

end Finals

section Tokens

variable {closers : List Token.Kind} {b height : Nat} {ts : List Token}

/-- A failure that the production has on every list, as it has with no budget left. -/
theorem tooDeep_decided {fails : List Token → ParseFailure → Prop} {completes : List Token → Prop}
    (ends : EndsAtEof ts) (all : ∀ ts', fails ts' .tooDeep) :
    Decided .tooDeep fails completes ts := by
  obtain _ | ⟨u, rest⟩ := ts
  · exact absurd rfl ends.ne_nil
  exact .first trivial (fun _ => all _) fun _ isError => by cases isError

/-- A missing token is decided where it should stand, and the token it looks for finishes the
read. -/
theorem expect_decided {kind : Token.Kind} {problem : Problem} (local_ : problem ≠ .invalidTarget)
    (notEnd : kind ≠ .eof) (ends : EndsAtEof ts) {failure : ParseFailure}
    (failed : expect kind problem ts = .error failure) :
    Decided failure (fun ts' φ => expect kind problem ts' = .error φ)
      (Completes closers b height (Expects kind problem)) ts := by
  obtain _ | ⟨u, rest⟩ := ts
  · exact absurd rfl ends.ne_nil
  cases found : next? kind (u :: rest) with
  | some tail => simp [expect, found] at failed
  | none =>
    have named : failure = .error ⟨problem, u⟩ := by
      simp only [expect, found, fail, peek, Except.error.injEq] at failed
      exact failed.symm
    subst named
    refine .first ⟨fun _ => rfl, fun invalid => absurd invalid local_⟩ (fun ts' => ?_)
      fun e isError => ?_
    · have cut : Cut u rest ts' (u :: rest) (u :: ts') := ⟨[], rfl, rfl⟩
      unfold expect
      rw [next?_cut_none cut found]
      rfl
    · cases isError
      exact ⟨local_, [filler kind], fun _ k _ => expects_filler kind problem notEnd k⟩

/-- A missing name is decided where it should stand. -/
theorem name_final (problem : Problem) (local_ : problem ≠ .invalidTarget) :
    Final closers b height (name problem) := by
  intro ts ends failure failed
  obtain _ | ⟨u, rest⟩ := ts
  · exact absurd rfl ends.ne_nil
  by_cases isName : u.kind = .ident
  · simp [name, isName] at failed
  · have named : failure = .error ⟨problem, u⟩ := by
      simp only [name, isName, ↓reduceIte, fail, peek, Except.error.injEq] at failed
      exact failed.symm
    subst named
    refine .first ⟨fun _ => rfl, fun invalid => absurd invalid local_⟩
      (fun ts' => by simp only [name, isName, ↓reduceIte]; rfl) fun e isError => ?_
    cases isError
    exact ⟨local_, [filler .ident], fun _ k _ => name_reads_filler problem k⟩

/-- The token in front of a suffix. -/
theorem lastBefore_eq {before r : List Token} {last : Token} (split : ts = before ++ last :: r) :
    lastBefore ts r = last := by
  subst split
  have index : (before ++ last :: r).length - r.length - 1 = before.length := by
    simp only [List.length_append, List.length_cons]
    omega
  simp only [lastBefore, index, List.getElem?_append_right (Nat.le_refl _), Nat.sub_self,
    List.getElem?_cons_zero, Option.getD_some]

end Tokens

/-- The invariant of the expression productions with budget `b`: every failure is decided, and
what comes before a syntax error can be finished with room for the heights of
`VieCompiler.Proofs.Completions`. -/
structure ExprsFinal (b : Nat) : Prop where
  expression : Final expressionClosers b 11 (expression b)
  assignment : Final expressionClosers b 10 (assignment b)
  binary : ∀ level, Final expressionClosers b (4 + (5 - level)) (binary b level)
  binaryTail : ∀ level, FinalFrom expressionClosers b (4 + (5 - level)) (binaryTail b level)
  unary : Final expressionClosers b 3 (unary b)
  suffixed : Final expressionClosers b 2 (suffixed b)
  suffixes : FinalFrom expressionClosers b 2 (suffixes b)
  arguments : Final expressionClosers b 12 (arguments b)
  listTail : ∀ close problem, problem ≠ .invalidTarget → close ∈ [.rparen, .rbracket] →
    Final expressionClosers b 12 (listTail b close problem)
  primary : Final expressionClosers b 1 (primary b)

section Expressions

variable {b : Nat}

theorem expression_final (ih : ExprsFinal b) :
    Final expressionClosers (b + 1) 11 (expression (b + 1)) := by
  intro ts ends failure failed
  rw [expression] at failed
  refine (ih.assignment ts ends failure failed).lift [] [truth] (fun _ => True)
    (List.nil_append ts).symm ?_ (fun _ closes => closes)
    (fun n room => by simp only [List.length_nil] at room; omega)
    (fun enough _ closes => assignment_truth enough closes) fun _ _ => trivial
  intro rest k ts' replaced _ _
  refine ⟨ts', replaced,
    fun φ failed' => by dsimp only at failed' ⊢; rw [expression]; exact failed', ?_⟩
  intro _ k' _ reads
  obtain ⟨p, ran, pRest⟩ := reads
  exact ⟨p, by rw [expression]; exact ran, pRest⟩

/-- A left side reads at least one token. -/
theorem left_last {ts fr : List Token} {left : Parsed ts Expr} (split : ts = fr ++ left.rest) :
    ∃ before last, fr = before ++ [last] := by
  rcases List.eq_nil_or_concat fr with rfl | ⟨before, last, rfl⟩
  · have lengths := congrArg List.length split
    have := left.shorter
    simp only [List.nil_append] at lengths
    omega
  · exact ⟨before, last, List.concat_eq_append⟩

section Assignment

variable {ts fr : List Token} {left : Parsed ts Expr} {afterEquals : List Token}
  {shorter : afterEquals.length < left.rest.length}

/-- The tokens of a left side can be finished as an assignment: as the left side alone. -/
theorem left_completes (ends : EndsAtEof ts) (leftRan : binary b 0 ts = .ok left)
    (split : ts = fr ++ left.rest) :
    Completes expressionClosers (b + 1) 10 (Reads (assignment (b + 1))) fr := by
  refine ⟨[], fun _ k closes => ?_⟩
  have replaced : Replaced left.rest k ts (fr ++ [] ++ k) := ⟨fr, split, by simp⟩
  obtain ⟨left', leftRan', -, leftReplaced⟩ :=
    ((exprsConfined b).binary 0).replace ((exprsSteady b).binary 0) ((exprsClosable b).binary 0)
      ends leftRan replaced (Nat.le_refl _) fun _ => closes
  have leftRest : left'.rest = k := (leftReplaced.eq_of_length_le (Nat.le_refl _)).2
  have noEquals : next? .equal left'.rest = none := by
    rw [leftRest]
    exact next?_of_closes closes (by decide)
  unfold Reads
  rw [assignment, leftRan']
  simp only [bind, Except.bind, noEquals]
  exact ⟨_, rfl, leftRest⟩

/-- With an `=` after a left side that is no target, an assignment fails whatever follows. -/
theorem assignment_dies (ends : EndsAtEof ts) (leftRan : binary b 0 ts = .ok left)
    (split : ts = fr ++ left.rest) (found : next? .equal left.rest = some ⟨afterEquals, shorter⟩)
    {equals : Token} (leftSplit : left.rest = equals :: afterEquals)
    (notTarget : left.value.isTarget = false) (post : List Token) :
    ∃ φ, assignment (b + 1) (fr ++ equals :: post) = .error φ := by
  have replaced : Replaced afterEquals post ts (fr ++ equals :: post) :=
    ⟨fr ++ [equals], by rw [split, leftSplit]; simp, by simp⟩
  obtain ⟨left', leftRan', sameLeft, leftReplaced⟩ :=
    ((exprsConfined b).binary 0).replace ((exprsSteady b).binary 0) ((exprsClosable b).binary 0)
      ends leftRan replaced (by omega) fun same => absurd same (by omega)
  obtain ⟨afterEquals', _, found', -⟩ := next?_replace leftReplaced found (Nat.le_refl _)
  rw [assignment, leftRan']
  simp only [bind, Except.bind, found']
  cases valueRan : assignment b afterEquals' with
  | error φ => exact ⟨φ, rfl⟩
  | ok value =>
    exact ⟨.error ⟨.invalidTarget, lastBefore (fr ++ equals :: post) left'.rest⟩,
      by simp only [sameLeft, notTarget, Bool.false_eq_true, ↓reduceIte]⟩

/-- How an assignment goes on through its value, read after the `=`: a failure of the value is
the assignment's, and when the left side is a target a read of the value finishes it. -/
theorem value_passes (ends : EndsAtEof ts) (leftRan : binary b 0 ts = .ok left)
    (found : next? .equal left.rest = some ⟨afterEquals, shorter⟩) {ready : Prop}
    (target : ready → left.value.isTarget = true) :
    Passes (fun ts' φ => assignment b ts' = .error φ) (Reads (assignment b))
      (fun ts' φ => assignment (b + 1) ts' = .error φ) (Reads (assignment (b + 1)))
      expressionClosers (fun _ => True) ready [] afterEquals ts := by
  intro rest k ts' replaced long _
  obtain ⟨left', leftRan', sameLeft, leftReplaced⟩ :=
    ((exprsConfined b).binary 0).replace ((exprsSteady b).binary 0) ((exprsClosable b).binary 0)
      ends leftRan replaced (by omega) fun same => absurd same (by omega)
  obtain ⟨afterEquals', _, found', equalsReplaced⟩ := next?_replace leftReplaced found long
  refine ⟨afterEquals', equalsReplaced, fun φ failed' => ?_, fun isReady k' _ reads => ?_⟩
  · dsimp only at failed' ⊢
    rw [assignment, leftRan']
    simp only [bind, Except.bind, found', failed']
  · obtain ⟨value', valueRan', valueRest⟩ := reads
    unfold Reads
    rw [assignment, leftRan']
    simp only [bind, Except.bind, found', valueRan', sameLeft, target isReady, ↓reduceIte]
    exact ⟨_, rfl, valueRest⟩

/-- An invalid target is reported once the assigned value is read: the failure is decided at
the token after the value, and names the target's last token, in front of the `=`. -/
theorem invalidTarget_decided (ends : EndsAtEof ts) (leftRan : binary b 0 ts = .ok left)
    (split : ts = fr ++ left.rest) (found : next? .equal left.rest = some ⟨afterEquals, shorter⟩)
    {value : Parsed afterEquals Expr} (valueRan : assignment b afterEquals = .ok value)
    (notTarget : left.value.isTarget = false) :
    Decided (.error ⟨.invalidTarget, lastBefore ts left.rest⟩)
      (fun ts' φ => assignment (b + 1) ts' = .error φ)
      (Completes expressionClosers (b + 1) 10 (Reads (assignment (b + 1)))) ts := by
  obtain ⟨equals, leftSplit, isEquals, -⟩ := next?_eq_cons found
  have equalsEnds := (next?_rest (((exprsConfined b).binary 0).rest ends leftRan).2 found).2
  obtain ⟨⟨mid, midSplit⟩, valueEnds⟩ := (exprsConfined b).assignment.rest equalsEnds valueRan
  obtain ⟨u, rest, valueSplit⟩ := List.exists_cons_of_ne_nil valueEnds.ne_nil
  obtain ⟨before, last, rfl⟩ := left_last split
  have named : lastBefore ts left.rest = last :=
    lastBefore_eq (split.trans (List.append_cons before last left.rest).symm)
  -- the value stops in front of `u`, where the failure is decided
  have leftParts : left.rest = (equals :: mid ++ [u]) ++ rest := by
    rw [leftSplit, ← midSplit, valueSplit]
    simp
  have tsSplit : ts = (before ++ last :: equals :: mid) ++ u :: rest := by
    rw [split, leftParts]
    simp
  refine ⟨before ++ last :: equals :: mid, u, rest, tsSplit,
    ⟨fun valid => absurd rfl valid, fun _ => ⟨before, equals, mid, by rw [named], isEquals⟩⟩,
    fun post' => ?_, fun e isError => ?_⟩
  · have replaced : Replaced rest post' ts (before ++ last :: equals :: mid ++ u :: post') :=
      ⟨before ++ last :: equals :: mid ++ [u], by rw [tsSplit]; simp, by simp⟩
    have valueLong : rest.length < value.rest.length := by simp [valueSplit]
    have equalsLong : rest.length ≤ afterEquals.length := by
      rw [← midSplit, List.length_append]
      omega
    obtain ⟨left', leftRan', sameLeft, leftReplaced⟩ :=
      ((exprsConfined b).binary 0).replace ((exprsSteady b).binary 0)
        ((exprsClosable b).binary 0) ends leftRan replaced (by omega)
        fun same => absurd same (by omega)
    obtain ⟨afterEquals', _, found', equalsReplaced⟩ :=
      next?_replace leftReplaced found equalsLong
    obtain ⟨value', valueRan', -, -⟩ :=
      (exprsConfined b).assignment.replace (exprsSteady b).assignment
        (exprsClosable b).assignment equalsEnds valueRan equalsReplaced valueLong.le
        fun same => absurd same (by omega)
    rw [leftParts] at leftReplaced
    have leftRest := leftReplaced.eq_of_split
    have named' : lastBefore (before ++ last :: equals :: mid ++ u :: post') left'.rest = last :=
      lastBefore_eq (show _ = before ++ last :: left'.rest by rw [leftRest]; simp)
    dsimp only
    rw [assignment, leftRan']
    simp only [bind, Except.bind, found', valueRan', sameLeft, notTarget, Bool.false_eq_true,
      ↓reduceIte, named, named']
  · cases isError
    refine .inr ⟨before ++ [last], equals, mid, by simp, isEquals,
      left_completes ends leftRan split, assignment_dies ends leftRan split found leftSplit notTarget,
      .inr ⟨rfl, by rw [named]; simp⟩⟩

theorem assignment_final (ih : ExprsFinal b) :
    Final expressionClosers (b + 1) 10 (assignment (b + 1)) := by
  intro ts ends failure failed
  rw [assignment] at failed
  rcases Except.bind_eq_error failed with leftFailed | ⟨left, leftRan, failed⟩
  · -- the left side fails
    refine (ih.binary 0 ts ends failure leftFailed).lift [] [truth] (fun _ => True)
      (List.nil_append ts).symm ?_ (fun _ closes => closes)
      (fun n room => by simp only [List.length_nil] at room; omega)
      (fun enough _ closes => binary_truth closes 5 0 b rfl enough) fun _ _ => trivial
    intro rest k ts' replaced _ _
    refine ⟨ts', replaced, fun φ failed' => ?_, fun _ k' closes reads => ?_⟩
    · dsimp only at failed' ⊢
      rw [assignment, failed']
      rfl
    · obtain ⟨left', leftRan', leftRest⟩ := reads
      have noEquals : next? .equal left'.rest = none := by
        rw [leftRest]
        exact next?_of_closes closes (by decide)
      unfold Reads
      rw [assignment, leftRan']
      simp only [bind, Except.bind, noEquals]
      exact ⟨_, rfl, leftRest⟩
  obtain ⟨⟨fr, split⟩, leftEnds⟩ := ((exprsConfined b).binary 0).rest ends leftRan
  cases found : next? .equal left.rest with
  | none =>
    simp only [found] at failed
    cases failed
  | some next =>
    obtain ⟨afterEquals, shorter⟩ := next
    simp only [found] at failed
    have equalsEnds := (next?_rest leftEnds found).2
    obtain ⟨equals, leftSplit, isEquals, -⟩ := next?_eq_cons found
    have tsSplit : ts = fr ++ equals :: afterEquals := split.symm.trans (by rw [leftSplit])
    rcases Except.bind_eq_error failed with valueFailed | ⟨value, valueRan, failed⟩
    · have valueDecided := ih.assignment afterEquals equalsEnds failure valueFailed
      cases target : left.value.isTarget with
      | true =>
        -- the value fails after a target: the failure is the value's
        exact valueDecided.lift [] [truth] (fun _ => True)
          (tsSplit.trans (List.append_cons fr equals afterEquals))
          (value_passes ends leftRan found fun _ => target) (fun _ closes => closes)
          (fun n room => by simp only [List.length_append, List.length_cons,
            List.length_nil] at room; omega)
          (fun enough _ closes => assignment_truth enough closes) fun _ _ => trivial
      | false =>
        -- the value fails after a left side that is no target
        exact valueDecided.past tsSplit isEquals
          (value_passes ends leftRan found fun never : False => never.elim)
          (left_completes ends leftRan split.symm)
          (assignment_dies ends leftRan split.symm found leftSplit target)
    · cases target : left.value.isTarget with
      | true =>
        simp only [target, ↓reduceIte] at failed
        cases failed
      | false =>
        simp only [target, Bool.false_eq_true, ↓reduceIte, Except.error.injEq] at failed
        subst failed
        exact invalidTarget_decided ends leftRan split.symm found valueRan target

end Assignment

/-- An operand of the binary level `level`: of the next level, or unary at the tightest. -/
theorem operand_final (ih : ExprsFinal b) (level : Nat) :
    Final expressionClosers b (3 + (5 - level))
      fun ts => if level < tightestLevel then binary b (level + 1) ts else unary b ts := by
  unfold tightestLevel
  by_cases tighter : level < 5
  · simp only [tighter, ↓reduceIte]
    have same : 3 + (5 - level) = 4 + (5 - (level + 1)) := by omega
    rw [same]
    exact ih.binary (level + 1)
  · simp only [tighter, ↓reduceIte]
    have same : 3 + (5 - level) = 3 := by omega
    rw [same]
    exact ih.unary

theorem operand_truth {k : List Token} (closes : Closes expressionClosers k) (level : Nat)
    (enough : 3 + (5 - level) ≤ b) :
    Reads (fun ts => if level < tightestLevel then binary b (level + 1) ts else unary b ts)
      (truth :: k) k := by
  unfold tightestLevel
  by_cases tighter : level < 5
  · simp only [tighter, ↓reduceIte]
    exact binary_truth closes _ (level + 1) b rfl (by omega)
  · simp only [tighter, ↓reduceIte]
    exact unary_truth (by omega) closes

/-- The operators and operands after the first operand of a binary level, by induction on the
tokens left. -/
theorem binaryTail_final (ih : ExprsFinal b) (level : Nat) :
    FinalFrom expressionClosers (b + 1) (4 + (5 - level)) (binaryTail (b + 1) level) := by
  have confined := operand_confined' b level
  have steady := operand_steady (exprsSteady b) level
  have closable := operand_closable (exprsClosable b) level
  refine FinalFrom.of_shorter fun ts loop start ends failure failed => ?_
  rw [binaryTail] at failed
  cases found : operator? level ts with
  | none =>
    simp only [found] at failed
    cases failed
  | some next =>
    obtain ⟨op, tail, shorter⟩ := next
    simp only [found] at failed
    rw [Except.ite_bind] at failed
    obtain ⟨u, split, -⟩ := operator?_eq_cons found
    have tailEnds := (operator?_rest ends found).2
    rcases Except.bind_eq_error failed with rightFailed | ⟨right, rightRan, failed⟩
    · -- the operand after the operator fails
      refine (operand_final ih level tail tailEnds failure rightFailed).lift [] [truth]
        (fun _ => True) (show ts = [u] ++ tail from split) ?_ (fun _ closes => closes)
        (fun n room => by simp only [List.length_singleton] at room; omega)
        (fun enough _ closes => operand_truth closes level enough) fun _ _ => trivial
      intro rest k ts' replaced long _
      obtain ⟨tail', _, found', tailReplaced⟩ := operator?_replace replaced found long
      refine ⟨tail', tailReplaced, fun φ failed' => ?_, fun _ k' closes reads => ?_⟩
      · dsimp only at failed' ⊢
        rw [binaryTail]
        simp only [found', Except.ite_bind]
        simp only [bind, Except.bind, failed']
      · obtain ⟨right', rightRan', rightRest⟩ := reads
        dsimp only at rightRan'
        have restCloses : Closes expressionClosers right'.rest := by rw [rightRest]; exact closes
        obtain ⟨whole, wholeRan, wholeRest⟩ :=
          binaryTail_closes (b := b) restCloses level (start.binary op right'.value)
        unfold ReadsFrom
        rw [binaryTail]
        simp only [found', Except.ite_bind]
        simp only [bind, Except.bind, rightRan', wholeRan]
        exact ⟨_, rfl, wholeRest.trans rightRest⟩
    · -- the loop fails after the operand
      obtain ⟨⟨front, rightSplit⟩, rightEnds⟩ := confined.rest tailEnds rightRan
      rcases Except.bind_eq_error failed with wholeFailed | ⟨whole, -, failed⟩
      · have := right.shorter
        refine (loop right.rest (by omega) _ rightEnds failure wholeFailed).lift [] []
          (Closes expressionClosers)
          (show ts = (u :: front) ++ right.rest from
            split.trans (congrArg (List.cons u) rightSplit.symm))
          ?_ (fun _ closes => closes) (fun n room => by omega)
          (fun _ k closes => binaryTail_closes closes level _) fun k closes => closes
        intro rest k ts' replaced long atStart
        obtain ⟨tail', _, found', tailReplaced⟩ := operator?_replace replaced found (by omega)
        obtain ⟨right', rightRan', sameRight, rightReplaced⟩ := confined.replace steady closable
          tailEnds rightRan tailReplaced long fun same => atStart same.symm
        refine ⟨right'.rest, rightReplaced, fun φ failed' => ?_, fun _ k' _ reads => ?_⟩
        · dsimp only at failed' ⊢
          rw [binaryTail]
          simp only [found', Except.ite_bind]
          simp only [bind, Except.bind, rightRan', sameRight, failed']
        · obtain ⟨whole', wholeRan', wholeRest⟩ := reads
          unfold ReadsFrom
          rw [binaryTail]
          simp only [found', Except.ite_bind]
          simp only [bind, Except.bind, rightRan', sameRight, wholeRan']
          exact ⟨_, rfl, wholeRest⟩
      · cases failed

theorem binary_final (ih : ExprsFinal b) (level : Nat) :
    Final expressionClosers (b + 1) (4 + (5 - level)) (binary (b + 1) level) := by
  have confined := operand_confined' b level
  have steady := operand_steady (exprsSteady b) level
  have closable := operand_closable (exprsClosable b) level
  intro ts ends failure failed
  rw [binary, Except.ite_bind] at failed
  rcases Except.bind_eq_error failed with firstFailed | ⟨first, firstRan, failed⟩
  · -- the first operand fails
    refine (operand_final ih level ts ends failure firstFailed).lift [] [truth] (fun _ => True)
      (List.nil_append ts).symm ?_ (fun _ closes => closes)
      (fun n room => by simp only [List.length_nil] at room; omega)
      (fun enough _ closes => operand_truth closes level enough) fun _ _ => trivial
    intro rest k ts' replaced _ _
    refine ⟨ts', replaced, fun φ failed' => ?_, fun _ k' closes reads => ?_⟩
    · dsimp only at failed' ⊢
      rw [binary, Except.ite_bind]
      simp only [bind, Except.bind, failed']
    · obtain ⟨first', firstRan', firstRest⟩ := reads
      dsimp only at firstRan'
      have restCloses : Closes expressionClosers first'.rest := by rw [firstRest]; exact closes
      obtain ⟨whole, wholeRan, wholeRest⟩ :=
        binaryTail_closes (b := b) restCloses level first'.value
      unfold Reads
      rw [binary, Except.ite_bind]
      simp only [bind, Except.bind, firstRan', wholeRan]
      exact ⟨_, rfl, wholeRest.trans firstRest⟩
  · -- the loop after the first operand fails
    obtain ⟨⟨front, firstSplit⟩, firstEnds⟩ := confined.rest ends firstRan
    rcases Except.bind_eq_error failed with wholeFailed | ⟨whole, -, failed⟩
    · refine (binaryTail_final ih level first.rest first.value firstEnds failure wholeFailed).lift
        [] [] (Closes expressionClosers) firstSplit.symm ?_ (fun _ closes => closes)
        (fun n room => by omega) (fun _ k closes => binaryTail_closes closes level _)
        fun k closes => closes
      intro rest k ts' replaced long atStart
      obtain ⟨first', firstRan', sameFirst, firstReplaced⟩ := confined.replace steady closable
        ends firstRan replaced long fun same => atStart same.symm
      refine ⟨first'.rest, firstReplaced, fun φ failed' => ?_, fun _ k' _ reads => ?_⟩
      · dsimp only at failed' ⊢
        rw [binary, Except.ite_bind]
        simp only [bind, Except.bind, firstRan', sameFirst, failed']
      · obtain ⟨whole', wholeRan', wholeRest⟩ := reads
        unfold Reads
        rw [binary, Except.ite_bind]
        simp only [bind, Except.bind, firstRan', sameFirst, wholeRan']
        exact ⟨_, rfl, wholeRest⟩
    · cases failed

theorem unary_final (ih : ExprsFinal b) : Final expressionClosers (b + 1) 3 (unary (b + 1)) := by
  intro ts ends failure failed
  rw [unary] at failed
  cases found : next? .minus ts with
  | some next =>
    obtain ⟨tail, shorter⟩ := next
    simp only [found] at failed
    obtain ⟨u, split, -⟩ := next?_eq_cons found
    rcases Except.bind_eq_error failed with operandFailed | ⟨_, -, failed⟩
    · -- the operand of the minus fails
      refine (ih.unary tail (next?_rest ends found).2 failure operandFailed).lift [] [truth]
        (fun _ => True) (show ts = [u] ++ tail from split) ?_ (fun _ closes => closes)
        (fun n room => by simp only [List.length_singleton] at room; omega)
        (fun enough _ closes => unary_truth enough closes) fun _ _ => trivial
      intro rest k ts' replaced long _
      obtain ⟨tail', _, found', tailReplaced⟩ := next?_replace replaced found long
      refine ⟨tail', tailReplaced, fun φ failed' => ?_, fun _ k' _ reads => ?_⟩
      · dsimp only at failed' ⊢
        rw [unary, found']
        simp only [bind, Except.bind, failed']
      · obtain ⟨operand', operandRan', operandRest⟩ := reads
        unfold Reads
        rw [unary, found']
        simp only [bind, Except.bind, operandRan']
        exact ⟨_, rfl, operandRest⟩
    · cases failed
  | none =>
    -- no minus: a postfix expression, which starts with no minus either
    simp only [found] at failed
    refine (ih.suffixed ts ends failure failed).lift [] [truth] (fun k => next? .minus k = none)
      (List.nil_append ts).symm ?_ (fun _ closes => closes)
      (fun n room => by simp only [List.length_nil] at room; omega)
      (fun enough _ closes => suffixed_truth enough closes) fun _ _ => next?_truth (by decide) _
    intro rest k ts' replaced long atStart
    have missing : next? .minus ts' = none :=
      next?_none_replace replaced found fun short => atStart (by omega)
    refine ⟨ts', replaced, fun φ failed' => ?_, fun _ k' _ reads => ?_⟩
    · dsimp only at failed' ⊢
      rw [unary, missing]
      exact failed'
    · obtain ⟨q, qRan, qRest⟩ := reads
      exact ⟨q, by rw [unary, missing]; exact qRan, qRest⟩

section Suffixes

variable {ts tail : List Token} {shorter : tail.length < ts.length} {target : Expr}
  {failure : ParseFailure}

/-- A call: arguments after `(`, then the suffixes after them. -/
theorem call_decided (ih : ExprsFinal b)
    (loop : ∀ shorter : List Token, shorter.length < ts.length →
      FinalFromAt expressionClosers (b + 1) 2 (suffixes (b + 1)) shorter)
    (ends : EndsAtEof ts) (found : next? .lparen ts = some ⟨tail, shorter⟩)
    (failed : suffixes (b + 1) target ts = .error failure) :
    Decided failure (fun ts' φ => suffixes (b + 1) target ts' = .error φ)
      (Completes expressionClosers (b + 1) 2 (ReadsFrom (suffixes (b + 1)) target)) ts := by
  rw [suffixes] at failed
  simp only [found] at failed
  obtain ⟨u, split, -⟩ := next?_eq_cons found
  have tailEnds := (next?_rest ends found).2
  rcases Except.bind_eq_error failed with argsFailed | ⟨args, argsRan, failed⟩
  · -- the arguments fail
    refine (ih.arguments tail tailEnds failure argsFailed).lift [] [filler .rparen]
      (fun _ => True) (show ts = [u] ++ tail from split) ?_ (fun _ closes => closes)
      (fun n room => by simp only [List.length_singleton] at room; omega)
      (fun enough k _ => arguments_close (by omega) k) fun _ _ => trivial
    intro rest k ts' replaced long _
    obtain ⟨tail', _, found', tailReplaced⟩ := next?_replace replaced found long
    refine ⟨tail', tailReplaced, fun φ failed' => ?_, fun _ k' closes reads => ?_⟩
    · dsimp only at failed' ⊢
      rw [suffixes, found']
      simp only [bind, Except.bind, failed']
    · obtain ⟨args', argsRan', argsRest⟩ := reads
      have restCloses : Closes expressionClosers args'.rest := by rw [argsRest]; exact closes
      obtain ⟨whole, wholeRan, wholeRest⟩ :=
        suffixes_closes (b := b) restCloses (target.call args'.value)
      unfold ReadsFrom
      rw [suffixes, found']
      simp only [bind, Except.bind, argsRan', wholeRan]
      exact ⟨_, rfl, wholeRest.trans argsRest⟩
  · -- the suffixes after the call fail
    obtain ⟨⟨front, argsSplit⟩, argsEnds⟩ := (exprsConfined b).arguments.rest tailEnds argsRan
    rcases Except.bind_eq_error failed with wholeFailed | ⟨whole, -, failed⟩
    · have := args.shorter
      refine (loop args.rest (by omega) _ argsEnds failure wholeFailed).lift [] []
        (Closes expressionClosers)
        (show ts = (u :: front) ++ args.rest from split.trans (congrArg (List.cons u) argsSplit.symm))
        ?_ (fun _ closes => closes) (fun n room => by omega)
        (fun _ k closes => suffixes_closes closes _) fun k closes => closes
      intro rest k ts' replaced long atStart
      obtain ⟨tail', _, found', tailReplaced⟩ := next?_replace replaced found (by omega)
      obtain ⟨args', argsRan', sameArgs, argsReplaced⟩ :=
        (exprsConfined b).arguments.replace (exprsSteady b).arguments
          (exprsClosable b).arguments tailEnds argsRan tailReplaced long
          fun same => atStart same.symm
      refine ⟨args'.rest, argsReplaced, fun φ failed' => ?_, fun _ k' _ reads => ?_⟩
      · dsimp only at failed' ⊢
        rw [suffixes, found']
        simp only [bind, Except.bind, argsRan', sameArgs, failed']
      · obtain ⟨whole', wholeRan', wholeRest⟩ := reads
        unfold ReadsFrom
        rw [suffixes, found']
        simp only [bind, Except.bind, argsRan', sameArgs, wholeRan']
        exact ⟨_, rfl, wholeRest⟩
    · cases failed

/-- An index: a key after `[`, the `]`, then the suffixes after it. -/
theorem index_decided (ih : ExprsFinal b)
    (loop : ∀ shorter : List Token, shorter.length < ts.length →
      FinalFromAt expressionClosers (b + 1) 2 (suffixes (b + 1)) shorter)
    (ends : EndsAtEof ts) (noCall : next? .lparen ts = none)
    (found : next? .lbracket ts = some ⟨tail, shorter⟩)
    (failed : suffixes (b + 1) target ts = .error failure) :
    Decided failure (fun ts' φ => suffixes (b + 1) target ts' = .error φ)
      (Completes expressionClosers (b + 1) 2 (ReadsFrom (suffixes (b + 1)) target)) ts := by
  rw [suffixes] at failed
  simp only [noCall, found] at failed
  obtain ⟨u, split, -⟩ := next?_eq_cons found
  have tailEnds := (next?_rest ends found).2
  -- a list replaced past the `[` has no call either
  have noCall' : ∀ {rest k ts'}, Replaced rest k ts ts' → rest.length ≤ tail.length →
      next? .lparen ts' = none := fun replaced long =>
    next?_none_replace replaced noCall fun short => absurd short (by omega)
  rcases Except.bind_eq_error failed with keyFailed | ⟨key, keyRan, failed⟩
  · -- the key fails
    refine (ih.expression tail tailEnds failure keyFailed).lift [filler .rbracket] [truth]
      (fun _ => True) (show ts = [u] ++ tail from split) ?_
      (fun k _ => Closes.filler .rbracket (by decide) k)
      (fun n room => by simp only [List.length_singleton] at room; omega)
      (fun enough _ closes => expression_truth enough closes) fun _ _ => trivial
    intro rest k ts' replaced long _
    obtain ⟨tail', _, found', tailReplaced⟩ := next?_replace replaced found long
    refine ⟨tail', tailReplaced, fun φ failed' => ?_, fun _ k' closes reads => ?_⟩
    · dsimp only at failed' ⊢
      rw [suffixes, noCall' replaced long, found']
      simp only [bind, Except.bind, failed']
    · obtain ⟨key', keyRan', keyRest⟩ := reads
      obtain ⟨_, closeRan⟩ : Expects .rbracket .indexClose key'.rest k' := by
        rw [keyRest]
        exact expects_filler .rbracket .indexClose (by decide) k'
      obtain ⟨whole, wholeRan, wholeRest⟩ :=
        suffixes_closes (b := b) closes (target.index key'.value)
      unfold ReadsFrom
      rw [suffixes, noCall' replaced long, found']
      simp only [bind, Except.bind, keyRan', closeRan, wholeRan]
      exact ⟨_, rfl, wholeRest⟩
  obtain ⟨⟨front, keySplit⟩, keyEnds⟩ := (exprsConfined b).expression.rest tailEnds keyRan
  have := key.shorter
  rcases Except.bind_eq_error failed with
    closeFailed | ⟨⟨afterClose, closeShorter⟩, closeRan, failed⟩
  · -- the `]` is missing
    have decided : Decided failure _
        (Completes expressionClosers (b + 1) 2 (Expects .rbracket .indexClose)) key.rest :=
      expect_decided (by decide) (by decide) keyEnds closeFailed
    refine decided.lift [] [filler .rbracket] (Closes expressionClosers)
      (show ts = (u :: front) ++ key.rest from split.trans (congrArg (List.cons u) keySplit.symm))
      ?_ (fun _ closes => closes) (fun n room => by omega)
      (fun _ k _ => expects_filler .rbracket .indexClose (by decide) k)
      fun k _ => Closes.filler .rbracket (by decide) _
    intro rest k ts' replaced long atStart
    obtain ⟨tail', _, found', tailReplaced⟩ := next?_replace replaced found (by omega)
    obtain ⟨key', keyRan', -, keyReplaced⟩ :=
      (exprsConfined b).expression.replace (exprsSteady b).expression
        (exprsClosable b).expression tailEnds keyRan tailReplaced long
        fun same => atStart same.symm
    refine ⟨key'.rest, keyReplaced, fun φ failed' => ?_, fun _ k' closes reads => ?_⟩
    · dsimp only at failed' ⊢
      rw [suffixes, noCall' replaced (by omega), found']
      simp only [bind, Except.bind, keyRan', failed']
    · obtain ⟨_, closeRan'⟩ := reads
      obtain ⟨whole, wholeRan, wholeRest⟩ :=
        suffixes_closes (b := b) (k := [] ++ k') closes (target.index key'.value)
      unfold ReadsFrom
      rw [suffixes, noCall' replaced (by omega), found']
      simp only [bind, Except.bind, keyRan', closeRan', wholeRan]
      exact ⟨_, rfl, wholeRest⟩
  · -- the suffixes after the `]` fail
    obtain ⟨⟨front', closeSplit⟩, closeEnds⟩ := expect_rest keyEnds closeRan
    dsimp only at failed
    rcases Except.bind_eq_error failed with wholeFailed | ⟨whole, -, failed⟩
    · refine (loop afterClose (by omega) _ closeEnds failure wholeFailed).lift [] []
        (fun _ => True)
        (show ts = (u :: front ++ front') ++ afterClose by
          rw [split, ← keySplit, ← closeSplit]
          simp)
        ?_ (fun _ closes => closes) (fun n room => by omega)
        (fun _ k closes => suffixes_closes closes _) fun _ _ => trivial
      intro rest k ts' replaced long _
      obtain ⟨tail', _, found', tailReplaced⟩ := next?_replace replaced found (by omega)
      obtain ⟨key', keyRan', sameKey, keyReplaced⟩ :=
        (exprsConfined b).expression.replace (exprsSteady b).expression
          (exprsClosable b).expression tailEnds keyRan tailReplaced (by omega)
          fun same => absurd same (by omega)
      obtain ⟨afterClose', _, closeRan', closeReplaced⟩ := expect_replace keyReplaced closeRan long
      refine ⟨afterClose', closeReplaced, fun φ failed' => ?_, fun _ k' _ reads => ?_⟩
      · dsimp only at failed' ⊢
        rw [suffixes, noCall' replaced (by omega), found']
        simp only [bind, Except.bind, keyRan', closeRan', sameKey, failed']
      · obtain ⟨whole', wholeRan', wholeRest⟩ := reads
        unfold ReadsFrom
        rw [suffixes, noCall' replaced (by omega), found']
        simp only [bind, Except.bind, keyRan', closeRan', sameKey, wholeRan']
        exact ⟨_, rfl, wholeRest⟩
    · cases failed

/-- A field: a name after `.`, then the suffixes after it. -/
theorem field_decided (ih : ExprsFinal b)
    (loop : ∀ shorter : List Token, shorter.length < ts.length →
      FinalFromAt expressionClosers (b + 1) 2 (suffixes (b + 1)) shorter)
    (ends : EndsAtEof ts) (noCall : next? .lparen ts = none) (noIndex : next? .lbracket ts = none)
    (found : next? .dot ts = some ⟨tail, shorter⟩)
    (failed : suffixes (b + 1) target ts = .error failure) :
    Decided failure (fun ts' φ => suffixes (b + 1) target ts' = .error φ)
      (Completes expressionClosers (b + 1) 2 (ReadsFrom (suffixes (b + 1)) target)) ts := by
  rw [suffixes] at failed
  simp only [noCall, noIndex, found] at failed
  obtain ⟨u, split, -⟩ := next?_eq_cons found
  have tailEnds := (next?_rest ends found).2
  -- a list replaced past the `.` has no call and no index either
  have lookahead : ∀ {rest k ts'}, Replaced rest k ts ts' → rest.length ≤ tail.length →
      next? .lparen ts' = none ∧ next? .lbracket ts' = none := fun replaced long =>
    ⟨next?_none_replace replaced noCall fun short => absurd short (by omega),
      next?_none_replace replaced noIndex fun short => absurd short (by omega)⟩
  by_cases zero : b = 0
  · -- no budget is left for the name
    obtain rfl : failure = .tooDeep := by
      simp only [zero, ↓reduceIte] at failed
      cases failed
      rfl
    subst zero
    have decided : Decided .tooDeep (fun _ φ => φ = .tooDeep)
        (Completes expressionClosers 0 0 fun _ _ => True) tail :=
      tooDeep_decided tailEnds fun _ => rfl
    refine decided.lift [] [] (fun _ => True) (show ts = [u] ++ tail from split) ?_
      (fun _ closes => closes) (fun n room => by simp only [List.length_singleton] at room; omega)
      (fun _ _ _ => trivial) fun _ _ => trivial
    intro rest k ts' replaced long _
    obtain ⟨tail', _, found', tailReplaced⟩ := next?_replace replaced found long
    obtain ⟨noCall', noIndex'⟩ := lookahead replaced long
    refine ⟨tail', tailReplaced, fun φ isDeep => ?_, fun room => absurd room (by simp)⟩
    dsimp only at isDeep ⊢
    subst isDeep
    rw [suffixes, noCall', noIndex', found']
    rfl
  simp only [zero, ↓reduceIte] at failed
  rcases Except.bind_eq_error failed with nameFailed | ⟨field, fieldRan, failed⟩
  · -- the name fails
    have decided : Decided failure _
        (Completes expressionClosers (b + 1) 2 (Reads (name .identifier))) tail :=
      name_final .identifier (by decide) tail tailEnds failure nameFailed
    refine decided.lift [] [filler .ident] (fun _ => True) (show ts = [u] ++ tail from split) ?_
      (fun _ closes => closes) (fun n room => by simp only [List.length_singleton] at room; omega)
      (fun _ k _ => name_reads_filler .identifier k) fun _ _ => trivial
    intro rest k ts' replaced long _
    obtain ⟨tail', _, found', tailReplaced⟩ := next?_replace replaced found long
    obtain ⟨noCall', noIndex'⟩ := lookahead replaced long
    refine ⟨tail', tailReplaced, fun φ failed' => ?_, fun _ k' closes reads => ?_⟩
    · dsimp only at failed' ⊢
      rw [suffixes, noCall', noIndex', found']
      simp only [zero, ↓reduceIte, bind, Except.bind, failed']
    · obtain ⟨field', fieldRan', fieldRest⟩ := reads
      have restCloses : Closes expressionClosers field'.rest := by rw [fieldRest]; exact closes
      obtain ⟨whole, wholeRan, wholeRest⟩ :=
        suffixes_closes (b := b) restCloses (target.field field'.value)
      unfold ReadsFrom
      rw [suffixes, noCall', noIndex', found']
      simp only [zero, ↓reduceIte, bind, Except.bind, fieldRan', wholeRan]
      exact ⟨_, rfl, wholeRest.trans fieldRest⟩
  · -- the suffixes after the name fail
    obtain ⟨⟨front, fieldSplit⟩, fieldEnds⟩ := name_rest tailEnds fieldRan
    rcases Except.bind_eq_error failed with wholeFailed | ⟨whole, -, failed⟩
    · have := field.shorter
      refine (loop field.rest (by omega) _ fieldEnds failure wholeFailed).lift [] []
        (fun _ => True)
        (show ts = (u :: front) ++ field.rest from
          split.trans (congrArg (List.cons u) fieldSplit.symm))
        ?_ (fun _ closes => closes) (fun n room => by omega)
        (fun _ k closes => suffixes_closes closes _) fun _ _ => trivial
      intro rest k ts' replaced long _
      obtain ⟨tail', _, found', tailReplaced⟩ := next?_replace replaced found (by omega)
      obtain ⟨noCall', noIndex'⟩ := lookahead replaced (by omega)
      obtain ⟨field', fieldRan', sameField, fieldReplaced⟩ :=
        name_replace tailReplaced fieldRan long
      refine ⟨field'.rest, fieldReplaced, fun φ failed' => ?_, fun _ k' _ reads => ?_⟩
      · dsimp only at failed' ⊢
        rw [suffixes, noCall', noIndex', found']
        simp only [zero, ↓reduceIte, bind, Except.bind, fieldRan', sameField, failed']
      · obtain ⟨whole', wholeRan', wholeRest⟩ := reads
        unfold ReadsFrom
        rw [suffixes, noCall', noIndex', found']
        simp only [zero, ↓reduceIte, bind, Except.bind, fieldRan', sameField, wholeRan']
        exact ⟨_, rfl, wholeRest⟩
    · cases failed

end Suffixes

/-- The calls, index accesses and field accesses after an expression, by induction on the
tokens left: the first token decides the branch. -/
theorem suffixes_final (ih : ExprsFinal b) :
    FinalFrom expressionClosers (b + 1) 2 (suffixes (b + 1)) := by
  refine FinalFrom.of_shorter fun ts loop target ends failure failed => ?_
  cases call : next? .lparen ts with
  | some next =>
    obtain ⟨tail, shorter⟩ := next
    exact call_decided ih loop ends call failed
  | none =>
    cases index : next? .lbracket ts with
    | some next =>
      obtain ⟨tail, shorter⟩ := next
      exact index_decided ih loop ends call index failed
    | none =>
      cases field : next? .dot ts with
      | some next =>
        obtain ⟨tail, shorter⟩ := next
        exact field_decided ih loop ends call index field failed
      | none =>
        rw [suffixes, call, index, field] at failed
        cases failed

theorem suffixed_final (ih : ExprsFinal b) :
    Final expressionClosers (b + 1) 2 (suffixed (b + 1)) := by
  intro ts ends failure failed
  rw [suffixed] at failed
  rcases Except.bind_eq_error failed with headFailed | ⟨head, headRan, failed⟩
  · -- the primary expression fails
    refine (ih.primary ts ends failure headFailed).lift [] [truth] (fun _ => True)
      (List.nil_append ts).symm ?_ (fun _ closes => closes)
      (fun n room => by simp only [List.length_nil] at room; omega)
      (fun enough k _ => primary_truth enough k) fun _ _ => trivial
    intro rest k ts' replaced _ _
    refine ⟨ts', replaced, fun φ failed' => ?_, fun _ k' closes reads => ?_⟩
    · dsimp only at failed' ⊢
      rw [suffixed]
      simp only [bind, Except.bind, failed']
    · obtain ⟨head', headRan', headRest⟩ := reads
      have restCloses : Closes expressionClosers head'.rest := by rw [headRest]; exact closes
      obtain ⟨whole, wholeRan, wholeRest⟩ := suffixes_closes (b := b) restCloses head'.value
      unfold Reads
      rw [suffixed]
      simp only [bind, Except.bind, headRan', wholeRan]
      exact ⟨_, rfl, wholeRest.trans headRest⟩
  · -- its suffixes fail
    obtain ⟨⟨front, headSplit⟩, headEnds⟩ := (exprsConfined b).primary.rest ends headRan
    rcases Except.bind_eq_error failed with wholeFailed | ⟨whole, -, failed⟩
    · refine (suffixes_final ih head.rest head.value headEnds failure wholeFailed).lift [] []
        (Closes expressionClosers) headSplit.symm ?_ (fun _ closes => closes)
        (fun n room => by omega) (fun _ k closes => suffixes_closes closes _)
        fun k closes => closes
      intro rest k ts' replaced long atStart
      obtain ⟨head', headRan', sameHead, headReplaced⟩ :=
        (exprsConfined b).primary.replace (exprsSteady b).primary (exprsClosable b).primary
          ends headRan replaced long fun same => atStart same.symm
      refine ⟨head'.rest, headReplaced, fun φ failed' => ?_, fun _ k' _ reads => ?_⟩
      · dsimp only at failed' ⊢
        rw [suffixed]
        simp only [bind, Except.bind, headRan', sameHead, failed']
      · obtain ⟨whole', wholeRan', wholeRest⟩ := reads
        unfold Reads
        rw [suffixed]
        simp only [bind, Except.bind, headRan', sameHead, wholeRan']
        exact ⟨_, rfl, wholeRest⟩
    · cases failed

/-- The elements of a list after its first, each after a comma, and its closing token, by
induction on the tokens left. -/
theorem listTail_final (ih : ExprsFinal b) (close : Token.Kind) (problem : Problem)
    (local_ : problem ≠ .invalidTarget) (closing : close ∈ [.rparen, .rbracket]) :
    Final expressionClosers (b + 1) 12 (listTail (b + 1) close problem) := by
  have facts : close ∈ expressionClosers ∧ close ≠ .eof ∧ close ≠ .comma := by
    simp only [List.mem_cons, List.not_mem_nil, or_false] at closing
    rcases closing with rfl | rfl <;> decide
  obtain ⟨closer, notEnd, notComma⟩ := facts
  refine Final.of_shorter fun ts loop ends failure failed => ?_
  rw [listTail] at failed
  cases comma : next? .comma ts with
  | some next =>
    obtain ⟨tail, shorter⟩ := next
    simp only [comma] at failed
    obtain ⟨u, split, -⟩ := next?_eq_cons comma
    have tailEnds := (next?_rest ends comma).2
    rcases Except.bind_eq_error failed with itemFailed | ⟨item, itemRan, failed⟩
    · -- the element after the comma fails
      refine (ih.expression tail tailEnds failure itemFailed).lift [filler close] [truth]
        (fun _ => True) (show ts = [u] ++ tail from split) ?_
        (fun k _ => Closes.filler close closer k)
        (fun n room => by simp only [List.length_singleton] at room; omega)
        (fun enough _ closes => expression_truth enough closes) fun _ _ => trivial
      intro rest k ts' replaced long _
      obtain ⟨tail', _, comma', tailReplaced⟩ := next?_replace replaced comma long
      refine ⟨tail', tailReplaced, fun φ failed' => ?_, fun _ k' _ reads => ?_⟩
      · dsimp only at failed' ⊢
        rw [listTail, comma']
        simp only [bind, Except.bind, failed']
      · obtain ⟨item', itemRan', itemRest⟩ := reads
        obtain ⟨more, moreRan, moreRest⟩ :
            Reads (listTail (b + 1) close problem) item'.rest k' := by
          rw [itemRest]
          exact listTail_close problem (by omega) notComma notEnd k'
        unfold Reads
        rw [listTail, comma']
        simp only [bind, Except.bind, itemRan', moreRan]
        exact ⟨_, rfl, moreRest⟩
    · -- the rest of the list fails
      obtain ⟨⟨front, itemSplit⟩, itemEnds⟩ :=
        (exprsConfined b).expression.rest tailEnds itemRan
      rcases Except.bind_eq_error failed with moreFailed | ⟨more, -, failed⟩
      · have := item.shorter
        refine (loop item.rest (by omega) itemEnds failure moreFailed).lift [] [filler close]
          (Closes expressionClosers)
          (show ts = (u :: front) ++ item.rest from
            split.trans (congrArg (List.cons u) itemSplit.symm))
          ?_ (fun _ closes => closes) (fun n room => by omega)
          (fun _ k _ => listTail_close problem (by omega) notComma notEnd k)
          fun k _ => Closes.filler close closer _
        intro rest k ts' replaced long atStart
        obtain ⟨tail', _, comma', tailReplaced⟩ := next?_replace replaced comma (by omega)
        obtain ⟨item', itemRan', -, itemReplaced⟩ :=
          (exprsConfined b).expression.replace (exprsSteady b).expression
            (exprsClosable b).expression tailEnds itemRan tailReplaced long
            fun same => atStart same.symm
        refine ⟨item'.rest, itemReplaced, fun φ failed' => ?_, fun _ k' _ reads => ?_⟩
        · dsimp only at failed' ⊢
          rw [listTail, comma']
          simp only [bind, Except.bind, itemRan', failed']
        · obtain ⟨more', moreRan', moreRest⟩ := reads
          unfold Reads
          rw [listTail, comma']
          simp only [bind, Except.bind, itemRan', moreRan']
          exact ⟨_, rfl, moreRest⟩
      · cases failed
  | none =>
    -- no comma: the closing token is missing
    simp only [comma] at failed
    rcases Except.bind_eq_error failed with closeFailed | ⟨_, -, failed⟩
    · have decided : Decided failure _
          (Completes expressionClosers (b + 1) 12 (Expects close problem)) ts :=
        expect_decided local_ notEnd ends closeFailed
      refine decided.lift [] [filler close] (fun k => next? .comma k = none)
        (List.nil_append ts).symm ?_ (fun _ closes => closes)
        (fun n room => by simp only [List.length_nil] at room; omega)
        (fun _ k _ => expects_filler close problem notEnd k)
        fun k _ => by simp [next?, filler, notComma]
      intro rest k ts' replaced long atStart
      have comma' : next? .comma ts' = none :=
        next?_none_replace replaced comma fun short => atStart (by omega)
      refine ⟨ts', replaced, fun φ failed' => ?_, fun _ k' _ reads => ?_⟩
      · dsimp only at failed' ⊢
        rw [listTail, comma']
        simp only [bind, Except.bind, failed']
      · obtain ⟨_, closeRan⟩ := reads
        unfold Reads
        rw [listTail, comma']
        simp only [bind, Except.bind, closeRan]
        exact ⟨_, rfl, rfl⟩
    · cases failed

theorem arguments_final (ih : ExprsFinal b) :
    Final expressionClosers (b + 1) 12 (arguments (b + 1)) := by
  intro ts ends failure failed
  rw [arguments] at failed
  cases empty : next? .rparen ts with
  | some next =>
    simp only [empty] at failed
    cases failed
  | none =>
    simp only [empty] at failed
    rcases Except.bind_eq_error failed with firstFailed | ⟨first, firstRan, failed⟩
    · -- the first argument fails
      refine (ih.expression ts ends failure firstFailed).lift [filler .rparen] [truth]
        (fun k => next? .rparen k = none) (List.nil_append ts).symm ?_
        (fun k _ => Closes.filler .rparen (by decide) k)
        (fun n room => by simp only [List.length_nil] at room; omega)
        (fun enough _ closes => expression_truth enough closes)
        fun _ _ => next?_truth (by decide) _
      intro rest k ts' replaced long atStart
      have empty' : next? .rparen ts' = none :=
        next?_none_replace replaced empty fun short => atStart (by omega)
      refine ⟨ts', replaced, fun φ failed' => ?_, fun _ k' _ reads => ?_⟩
      · dsimp only at failed' ⊢
        rw [arguments, empty']
        simp only [bind, Except.bind, failed']
      · obtain ⟨first', firstRan', firstRest⟩ := reads
        obtain ⟨more, moreRan, moreRest⟩ :
            Reads (listTail (b + 1) .rparen .argumentsClose) first'.rest k' := by
          rw [firstRest]
          exact listTail_close .argumentsClose (by omega) (by decide) (by decide) k'
        unfold Reads
        rw [arguments, empty']
        simp only [bind, Except.bind, firstRan', moreRan]
        exact ⟨_, rfl, moreRest⟩
    · -- the arguments after the first fail
      obtain ⟨⟨front, firstSplit⟩, firstEnds⟩ := (exprsConfined b).expression.rest ends firstRan
      rcases Except.bind_eq_error failed with moreFailed | ⟨more, -, failed⟩
      · have := first.shorter
        refine (listTail_final ih .rparen .argumentsClose (by decide) (by simp) first.rest
          firstEnds failure moreFailed).lift [] [filler .rparen] (Closes expressionClosers)
          firstSplit.symm ?_ (fun _ closes => closes) (fun n room => by omega)
          (fun _ k _ => listTail_close .argumentsClose (by omega) (by decide) (by decide) k)
          fun k _ => Closes.filler .rparen (by decide) _
        intro rest k ts' replaced long atStart
        have empty' : next? .rparen ts' = none :=
          next?_none_replace replaced empty fun short => absurd short (by omega)
        obtain ⟨first', firstRan', -, firstReplaced⟩ :=
          (exprsConfined b).expression.replace (exprsSteady b).expression
            (exprsClosable b).expression ends firstRan replaced long
            fun same => atStart same.symm
        refine ⟨first'.rest, firstReplaced, fun φ failed' => ?_, fun _ k' _ reads => ?_⟩
        · dsimp only at failed' ⊢
          rw [arguments, empty']
          simp only [bind, Except.bind, firstRan', failed']
        · obtain ⟨more', moreRan', moreRest⟩ := reads
          unfold Reads
          rw [arguments, empty']
          simp only [bind, Except.bind, firstRan', moreRan']
          exact ⟨_, rfl, moreRest⟩
      · cases failed

section Primary

variable {u : Token} {rest : List Token} {failure : ParseFailure}

/-- An array: `[`, a first element, and the list's tail. -/
theorem array_decided (ih : ExprsFinal b) (ends : EndsAtEof (u :: rest))
    (isOpen : u.kind = .lbracket) (failed : primary (b + 1) (u :: rest) = .error failure) :
    Decided failure (fun ts' φ => primary (b + 1) ts' = .error φ)
      (Completes expressionClosers (b + 1) 1 (Reads (primary (b + 1)))) (u :: rest) := by
  rw [primary] at failed
  simp only [isOpen] at failed
  have restEnds := ends.tail (by rw [isOpen]; decide)
  cases empty : next? .rbracket rest with
  | some next =>
    simp only [empty] at failed
    cases failed
  | none =>
    simp only [empty] at failed
    rcases Except.bind_eq_error failed with firstFailed | ⟨first, firstRan, failed⟩
    · -- the first element fails
      refine (ih.expression rest restEnds failure firstFailed).lift [filler .rbracket] [truth]
        (fun k => next? .rbracket k = none) (show u :: rest = [u] ++ rest from rfl) ?_
        (fun k _ => Closes.filler .rbracket (by decide) k)
        (fun n room => by simp only [List.length_singleton] at room; omega)
        (fun enough _ closes => expression_truth enough closes)
        fun _ _ => next?_truth (by decide) _
      intro back k ts' replaced long atStart
      obtain ⟨tail', rfl, tailReplaced⟩ := replaced.tail long
      have empty' : next? .rbracket tail' = none :=
        next?_none_replace tailReplaced empty fun short => atStart (by omega)
      refine ⟨tail', tailReplaced, fun φ failed' => ?_, fun _ k' _ reads => ?_⟩
      · dsimp only at failed' ⊢
        rw [primary]
        simp only [isOpen, empty', bind, Except.bind, failed']
      · obtain ⟨first', firstRan', firstRest⟩ := reads
        obtain ⟨more, moreRan, moreRest⟩ :
            Reads (listTail (b + 1) .rbracket .arrayClose) first'.rest k' := by
          rw [firstRest]
          exact listTail_close .arrayClose (by omega) (by decide) (by decide) k'
        unfold Reads
        rw [primary]
        simp only [isOpen, empty', bind, Except.bind, firstRan', moreRan]
        exact ⟨_, rfl, moreRest⟩
    · -- the elements after the first fail
      obtain ⟨⟨front, firstSplit⟩, firstEnds⟩ :=
        (exprsConfined b).expression.rest restEnds firstRan
      rcases Except.bind_eq_error failed with moreFailed | ⟨more, -, failed⟩
      · have := first.shorter
        refine (listTail_final ih .rbracket .arrayClose (by decide) (by simp) first.rest
          firstEnds failure moreFailed).lift [] [filler .rbracket] (Closes expressionClosers)
          (show u :: rest = (u :: front) ++ first.rest from congrArg (List.cons u) firstSplit.symm)
          ?_ (fun _ closes => closes)
          (fun n room => by simp only [List.length_cons] at room; omega)
          (fun _ k _ => listTail_close .arrayClose (by omega) (by decide) (by decide) k)
          fun k _ => Closes.filler .rbracket (by decide) _
        intro back k ts' replaced long atStart
        obtain ⟨tail', rfl, tailReplaced⟩ := replaced.tail (by omega)
        have empty' : next? .rbracket tail' = none :=
          next?_none_replace tailReplaced empty fun short => absurd short (by omega)
        obtain ⟨first', firstRan', -, firstReplaced⟩ :=
          (exprsConfined b).expression.replace (exprsSteady b).expression
            (exprsClosable b).expression restEnds firstRan tailReplaced long
            fun same => atStart same.symm
        refine ⟨first'.rest, firstReplaced, fun φ failed' => ?_, fun _ k' _ reads => ?_⟩
        · dsimp only at failed' ⊢
          rw [primary]
          simp only [isOpen, empty', bind, Except.bind, firstRan', failed']
        · obtain ⟨more', moreRan', moreRest⟩ := reads
          unfold Reads
          rw [primary]
          simp only [isOpen, empty', bind, Except.bind, firstRan', moreRan']
          exact ⟨_, rfl, moreRest⟩
      · cases failed

/-- An expression in parentheses. -/
theorem group_decided (ih : ExprsFinal b) (ends : EndsAtEof (u :: rest))
    (isOpen : u.kind = .lparen) (failed : primary (b + 1) (u :: rest) = .error failure) :
    Decided failure (fun ts' φ => primary (b + 1) ts' = .error φ)
      (Completes expressionClosers (b + 1) 1 (Reads (primary (b + 1)))) (u :: rest) := by
  rw [primary] at failed
  simp only [isOpen] at failed
  have restEnds := ends.tail (by rw [isOpen]; decide)
  rcases Except.bind_eq_error failed with innerFailed | ⟨inner, innerRan, failed⟩
  · -- the inner expression fails
    refine (ih.expression rest restEnds failure innerFailed).lift [filler .rparen] [truth]
      (fun _ => True) (show u :: rest = [u] ++ rest from rfl) ?_
      (fun k _ => Closes.filler .rparen (by decide) k)
      (fun n room => by simp only [List.length_singleton] at room; omega)
      (fun enough _ closes => expression_truth enough closes) fun _ _ => trivial
    intro back k ts' replaced long _
    obtain ⟨tail', rfl, tailReplaced⟩ := replaced.tail long
    refine ⟨tail', tailReplaced, fun φ failed' => ?_, fun _ k' _ reads => ?_⟩
    · dsimp only at failed' ⊢
      rw [primary]
      simp only [isOpen, bind, Except.bind, failed']
    · obtain ⟨inner', innerRan', innerRest⟩ := reads
      obtain ⟨_, closeRan⟩ : Expects .rparen .groupClose inner'.rest k' := by
        rw [innerRest]
        exact expects_filler .rparen .groupClose (by decide) k'
      unfold Reads
      rw [primary]
      simp only [isOpen, bind, Except.bind, innerRan', closeRan]
      exact ⟨_, rfl, rfl⟩
  · -- the `)` is missing
    obtain ⟨⟨front, innerSplit⟩, innerEnds⟩ :=
      (exprsConfined b).expression.rest restEnds innerRan
    rcases Except.bind_eq_error failed with closeFailed | ⟨_, -, failed⟩
    · have decided : Decided failure _
          (Completes expressionClosers (b + 1) 1 (Expects .rparen .groupClose)) inner.rest :=
        expect_decided (by decide) (by decide) innerEnds closeFailed
      refine decided.lift [] [filler .rparen] (Closes expressionClosers)
        (show u :: rest = (u :: front) ++ inner.rest from congrArg (List.cons u) innerSplit.symm)
        ?_ (fun _ closes => closes) (fun n room => by omega)
        (fun _ k _ => expects_filler .rparen .groupClose (by decide) k)
        fun k _ => Closes.filler .rparen (by decide) _
      intro back k ts' replaced long atStart
      have := inner.shorter
      obtain ⟨tail', rfl, tailReplaced⟩ := replaced.tail (by omega)
      obtain ⟨inner', innerRan', -, innerReplaced⟩ :=
        (exprsConfined b).expression.replace (exprsSteady b).expression
          (exprsClosable b).expression restEnds innerRan tailReplaced long
          fun same => atStart same.symm
      refine ⟨inner'.rest, innerReplaced, fun φ failed' => ?_, fun _ k' _ reads => ?_⟩
      · dsimp only at failed' ⊢
        rw [primary]
        simp only [isOpen, bind, Except.bind, innerRan', failed']
      · obtain ⟨_, closeRan⟩ := reads
        unfold Reads
        rw [primary]
        simp only [isOpen, bind, Except.bind, innerRan', closeRan]
        exact ⟨_, rfl, rfl⟩
    · cases failed

/-- A construction: `mới`, a class name, `(` and the arguments. -/
theorem new_decided (ih : ExprsFinal b) (ends : EndsAtEof (u :: rest))
    (isNew : u.kind = .keyword .moi) (failed : primary (b + 1) (u :: rest) = .error failure) :
    Decided failure (fun ts' φ => primary (b + 1) ts' = .error φ)
      (Completes expressionClosers (b + 1) 1 (Reads (primary (b + 1)))) (u :: rest) := by
  rw [primary] at failed
  simp only [isNew] at failed
  have restEnds := ends.tail (by rw [isNew]; decide)
  by_cases zero : b = 0
  · -- no budget is left for the arguments
    obtain rfl : failure = .tooDeep := by
      simp only [zero, ↓reduceIte] at failed
      cases failed
      rfl
    subst zero
    have decided : Decided .tooDeep (fun _ φ => φ = .tooDeep)
        (Completes expressionClosers 0 0 fun _ _ => True) rest :=
      tooDeep_decided restEnds fun _ => rfl
    refine decided.lift [] [] (fun _ => True) (show u :: rest = [u] ++ rest from rfl) ?_
      (fun _ closes => closes) (fun n room => by simp only [List.length_singleton] at room; omega)
      (fun _ _ _ => trivial) fun _ _ => trivial
    intro back k ts' replaced long _
    obtain ⟨tail', rfl, tailReplaced⟩ := replaced.tail long
    refine ⟨tail', tailReplaced, fun φ isDeep => ?_, fun room => absurd room (by simp)⟩
    dsimp only at isDeep ⊢
    subst isDeep
    rw [primary]
    simp only [isNew]
    rfl
  simp only [zero, ↓reduceIte] at failed
  rcases Except.bind_eq_error failed with nameFailed | ⟨className, nameRan, failed⟩
  · -- the class name fails
    have decided : Decided failure _ (Completes [.lparen] (b + 1) 1 (Reads (name .identifier)))
        rest :=
      name_final .identifier (by decide) rest restEnds failure nameFailed
    refine decided.lift [filler .lparen, filler .rparen] [filler .ident] (fun _ => True)
      (show u :: rest = [u] ++ rest from rfl) ?_ (fun k _ => Closes.filler .lparen (by simp) _)
      (fun n room => by simp only [List.length_singleton] at room; omega)
      (fun _ k _ => name_reads_filler .identifier k) fun _ _ => trivial
    intro back k ts' replaced long _
    obtain ⟨tail', rfl, tailReplaced⟩ := replaced.tail long
    refine ⟨tail', tailReplaced, fun φ failed' => ?_, fun _ k' _ reads => ?_⟩
    · dsimp only at failed' ⊢
      rw [primary]
      simp only [isNew, zero, ↓reduceIte, bind, Except.bind, failed']
    · obtain ⟨className', nameRan', nameRest⟩ := reads
      obtain ⟨_, openRan⟩ :
          Expects .lparen .constructorOpen className'.rest (filler .rparen :: k') := by
        rw [nameRest]
        exact expects_filler .lparen .constructorOpen (by decide) _
      obtain ⟨args, argsRan, argsRest⟩ := arguments_close (b := b) (by omega) k'
      unfold Reads
      rw [primary]
      simp only [isNew, zero, ↓reduceIte, bind, Except.bind, nameRan', openRan, argsRan]
      exact ⟨_, rfl, argsRest⟩
  obtain ⟨⟨front, nameSplit⟩, nameEnds⟩ := name_rest restEnds nameRan
  have := className.shorter
  rcases Except.bind_eq_error failed with
    openFailed | ⟨⟨afterOpen, openShorter⟩, openRan, failed⟩
  · -- the `(` is missing
    have decided : Decided failure _
        (Completes [.rparen] (b + 1) 1 (Expects .lparen .constructorOpen)) className.rest :=
      expect_decided (by decide) (by decide) nameEnds openFailed
    refine decided.lift [filler .rparen] [filler .lparen] (fun _ => True)
      (show u :: rest = (u :: front) ++ className.rest from congrArg (List.cons u) nameSplit.symm)
      ?_ (fun k _ => Closes.filler .rparen (by simp) k) (fun n room => by omega)
      (fun _ k _ => expects_filler .lparen .constructorOpen (by decide) k) fun _ _ => trivial
    intro back k ts' replaced long _
    obtain ⟨tail', rfl, tailReplaced⟩ := replaced.tail (by omega)
    obtain ⟨className', nameRan', -, nameReplaced⟩ := name_replace tailReplaced nameRan long
    refine ⟨className'.rest, nameReplaced, fun φ failed' => ?_, fun _ k' _ reads => ?_⟩
    · dsimp only at failed' ⊢
      rw [primary]
      simp only [isNew, zero, ↓reduceIte, bind, Except.bind, nameRan', failed']
    · obtain ⟨_, openRan'⟩ := reads
      obtain ⟨args, argsRan, argsRest⟩ : Reads (arguments b) ([filler .rparen] ++ k') k' :=
        arguments_close (by omega) k'
      unfold Reads
      rw [primary]
      simp only [isNew, zero, ↓reduceIte, bind, Except.bind, nameRan', openRan', argsRan]
      exact ⟨_, rfl, argsRest⟩
  · -- the arguments fail
    obtain ⟨⟨front', openSplit⟩, openEnds⟩ := expect_rest nameEnds openRan
    dsimp only at failed
    rcases Except.bind_eq_error failed with argsFailed | ⟨args, -, failed⟩
    · refine (ih.arguments afterOpen openEnds failure argsFailed).lift [] [filler .rparen]
        (fun _ => True)
        (show u :: rest = (u :: front ++ front') ++ afterOpen by
          rw [← nameSplit, ← openSplit]
          simp)
        ?_ (fun _ closes => closes)
        (fun n room => by simp only [List.length_append, List.length_cons] at room; omega)
        (fun _ k _ => arguments_close (by omega) k) fun _ _ => trivial
      intro back k ts' replaced long _
      obtain ⟨tail', rfl, tailReplaced⟩ := replaced.tail (by omega)
      obtain ⟨className', nameRan', -, nameReplaced⟩ :=
        name_replace tailReplaced nameRan (by omega)
      obtain ⟨afterOpen', _, openRan', openReplaced⟩ := expect_replace nameReplaced openRan long
      refine ⟨afterOpen', openReplaced, fun φ failed' => ?_, fun _ k' _ reads => ?_⟩
      · dsimp only at failed' ⊢
        rw [primary]
        simp only [isNew, zero, ↓reduceIte, bind, Except.bind, nameRan', openRan', failed']
      · obtain ⟨args', argsRan', argsRest⟩ := reads
        unfold Reads
        rw [primary]
        simp only [isNew, zero, ↓reduceIte, bind, Except.bind, nameRan', openRan', argsRan']
        exact ⟨_, rfl, argsRest⟩
    · cases failed

/-- A primary expression that reads nothing past its first token fails at that token alone: the
token starts no expression, or it is a number that does not read. -/
theorem head_fails (notArray : u.kind ≠ .lbracket) (notGroup : u.kind ≠ .lparen)
    (notNew : u.kind ≠ .keyword .moi) (failed : primary (b + 1) (u :: rest) = .error failure) :
    (failure = .error ⟨.expression, u⟩ ∨ failure = .notANumber u) ∧
      ∀ ts', primary (b + 1) (u :: ts') = .error failure := by
  cases kind : u.kind <;> simp only [primary, kind] at failed ⊢
  case lbracket => exact absurd kind notArray
  case lparen => exact absurd kind notGroup
  case number =>
    cases read : Binary64.ofText? u.lexeme with
    | some value =>
      simp only [read] at failed
      cases failed
    | none =>
      simp only [read] at failed ⊢
      cases failed
      exact ⟨.inr rfl, fun _ => rfl⟩
  case keyword word =>
    cases word <;> simp only at failed ⊢
    case moi => exact absurd kind notNew
    all_goals cases failed
    all_goals exact ⟨.inl rfl, fun _ => rfl⟩
  all_goals cases failed
  all_goals exact ⟨.inl rfl, fun _ => rfl⟩

theorem head_decided (notArray : u.kind ≠ .lbracket) (notGroup : u.kind ≠ .lparen)
    (notNew : u.kind ≠ .keyword .moi) (failed : primary (b + 1) (u :: rest) = .error failure) :
    Decided failure (fun ts' φ => primary (b + 1) ts' = .error φ)
      (Completes expressionClosers (b + 1) 1 (Reads (primary (b + 1)))) (u :: rest) := by
  obtain ⟨shape, all⟩ := head_fails notArray notGroup notNew failed
  refine .first ?_ all fun e isError => ⟨?_, [truth], fun _ k _ => primary_truth (by omega) k⟩
  · rcases shape with rfl | rfl
    · exact ⟨fun _ => rfl, fun invalid => by cases invalid⟩
    · rfl
  · rcases shape with rfl | rfl
    · cases isError
      intro invalid
      cases invalid
    · cases isError

end Primary

/-- A primary expression: its first token decides the branch, and every list that starts with
it takes the same one. -/
theorem primary_final (ih : ExprsFinal b) : Final expressionClosers (b + 1) 1 (primary (b + 1)) := by
  intro ts ends failure failed
  obtain _ | ⟨u, rest⟩ := ts
  · exact absurd rfl ends.ne_nil
  by_cases isArray : u.kind = .lbracket
  · exact array_decided ih ends isArray failed
  by_cases isGroup : u.kind = .lparen
  · exact group_decided ih ends isGroup failed
  by_cases isNew : u.kind = .keyword .moi
  · exact new_decided ih ends isNew failed
  exact head_decided isArray isGroup isNew failed

end Expressions

/-- With no budget left, every expression production fails at once, whatever follows. -/
theorem exprsFinal_zero : ExprsFinal 0 where
  expression ts ends failure failed := by
    rw [expression] at failed
    cases failed
    exact tooDeep_decided ends fun _ => by rw [expression]
  assignment ts ends failure failed := by
    rw [assignment] at failed
    cases failed
    exact tooDeep_decided ends fun _ => by rw [assignment]
  binary level ts ends failure failed := by
    rw [binary] at failed
    cases failed
    exact tooDeep_decided ends fun _ => by rw [binary]
  binaryTail level ts start ends failure failed := by
    rw [binaryTail] at failed
    cases failed
    exact tooDeep_decided ends fun _ => by rw [binaryTail]
  unary ts ends failure failed := by
    rw [unary] at failed
    cases failed
    exact tooDeep_decided ends fun _ => by rw [unary]
  suffixed ts ends failure failed := by
    rw [suffixed] at failed
    cases failed
    exact tooDeep_decided ends fun _ => by rw [suffixed]
  suffixes ts start ends failure failed := by
    rw [suffixes] at failed
    cases failed
    exact tooDeep_decided ends fun _ => by rw [suffixes]
  arguments ts ends failure failed := by
    rw [arguments] at failed
    cases failed
    exact tooDeep_decided ends fun _ => by rw [arguments]
  listTail close problem _ _ ts ends failure failed := by
    rw [listTail] at failed
    cases failed
    exact tooDeep_decided ends fun _ => by rw [listTail]
  primary ts ends failure failed := by
    rw [primary.eq_def] at failed
    cases failed
    exact tooDeep_decided ends fun _ => by rw [primary.eq_def]

theorem exprsFinal_succ {b : Nat} (ih : ExprsFinal b) : ExprsFinal (b + 1) where
  expression := expression_final ih
  assignment := assignment_final ih
  binary := binary_final ih
  binaryTail := binaryTail_final ih
  unary := unary_final ih
  suffixed := suffixed_final ih
  suffixes := suffixes_final ih
  arguments := arguments_final ih
  listTail := listTail_final ih
  primary := primary_final ih

/-- Every failure of an expression production is decided at one of its tokens, whatever its
budget, and a syntax error is found as early as it can be. -/
theorem exprsFinal : ∀ b, ExprsFinal b
  | 0 => exprsFinal_zero
  | b + 1 => exprsFinal_succ (exprsFinal b)

end Parser

end VieCompiler
