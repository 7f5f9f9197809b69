import VieCompiler.Proofs.Script.Precedence

/-!
# Chains of member accesses, indexes and calls

A left-hand-side expression is read in two rounds: `memberExpression` reads its head and the
member accesses and indexes right after it, and `leftHandSide` goes on with calls as well.
Whatever the second round alone would read after a head, the two rounds read too
(`continues_suffixes_split`). So a chain is described by how it goes on: `ChainReads tokens x`
says that the tokens of `x`, followed by anything that continues `x`, are read as a
left-hand-side expression together with that continuation. Heads (primary expressions and
`new`) have it, member accesses, indexes and calls keep it, and a chain that the end of an
expression follows is an assignment expression.
-/

namespace VieCompiler.Script

section Split

theorem continues_suffixes_members_stop {target : Expr} {ts : List Token}
    (noDot : accept (.punctuator ".") ts = none) (noBracket : accept (.punctuator "[") ts = none) :
    Continues (suffixes false target) ts target ts := by
  rw [Continues, suffixes.eq_def, noDot, noBracket]
  simp

/-- Whatever the suffixes with calls read after `target`, the member accesses and indexes
read a first part of it, and the suffixes with calls the rest. -/
theorem continues_suffixes_split {target x : Expr} {ts m : List Token}
    (h : Continues (suffixes true target) ts x m) :
    ∃ y mid, Continues (suffixes false target) ts y mid ∧ Continues (suffixes true y) mid x m := by
  obtain ⟨p, found, rfl, rfl⟩ := h
  cases noDot : accept (.punctuator ".") ts with
  | some dot =>
    rw [suffixes.eq_def, noDot] at found
    simp only [Option.bind_eq_bind, Option.pure_def, Option.bind_eq_some_iff,
      Option.some.injEq] at found
    obtain ⟨property, named, whole, continued, rfl⟩ := found
    have := dot.shorter
    have := property.shorter
    obtain ⟨y, mid, members, calls⟩ := continues_suffixes_split ⟨whole, continued, rfl, rfl⟩
    obtain ⟨whole', continued', rfl, rfl⟩ := members
    refine ⟨whole'.value, whole'.rest, ?_, calls⟩
    rw [Continues, suffixes.eq_def, noDot]
    simp only [Option.bind_eq_bind, named, continued', Option.bind_some, Option.pure_def,
      Option.some.injEq, exists_eq_left']
    exact ⟨rfl, rfl⟩
  | none =>
    cases noBracket : accept (.punctuator "[") ts with
    | some opening =>
      rw [suffixes.eq_def, noDot, noBracket] at found
      simp only [Option.bind_eq_bind, Option.pure_def, Option.bind_eq_some_iff,
        Option.some.injEq] at found
      obtain ⟨key, keyed, closing, closed, whole, continued, rfl⟩ := found
      have := opening.shorter
      have := key.shorter
      have := closing.shorter
      obtain ⟨y, mid, members, calls⟩ := continues_suffixes_split ⟨whole, continued, rfl, rfl⟩
      obtain ⟨whole', continued', rfl, rfl⟩ := members
      refine ⟨whole'.value, whole'.rest, ?_, calls⟩
      rw [Continues, suffixes.eq_def, noDot, noBracket]
      simp only [Option.bind_eq_bind, keyed, closed, continued', Option.bind_some,
        Option.pure_def, Option.some.injEq, exists_eq_left']
      exact ⟨rfl, rfl⟩
    | none => exact ⟨target, ts, continues_suffixes_members_stop noDot noBracket, p, found, rfl, rfl⟩
termination_by ts.length
decreasing_by all_goals omega

end Split

/-- The tokens of `x`, followed by anything that continues `x`, are read as a left-hand-side
expression together with that continuation. -/
def ChainReads (tokens : List Token) (x : Expr) : Prop :=
  ∀ m y m', Continues (suffixes true x) m y m' → Reads leftHandSide (tokens ++ m) y m'

/-- The tokens are read as the assignment expression `x` before anything that ends an
expression. -/
def ExprReads (tokens : List Token) (x : Expr) : Prop :=
  ∀ m, ClosesExpression m → Reads assignment (tokens ++ m) x m

section Links

variable {tokens inner m : List Token} {x y : Expr} {xs : List Expr} {t : Token}
  {f g : Bool}

theorem suffixes_stop_of_closes (closes : ClosesExpression m) (calls : Bool) :
    ∀ k ∈ suffixWords calls, accept k m = none := by
  intro k listed
  apply accept_eq_none_of_head
  intro t first same
  obtain ⟨p, closing, kind⟩ := closes t first
  rw [same] at kind
  subst kind
  cases calls with
  | false =>
    simp [suffixWords] at listed
    rcases listed with rfl | rfl <;> simp [closingWords] at closing
  | true =>
    simp [suffixWords] at listed
    rcases listed with rfl | rfl | rfl <;> simp [closingWords] at closing

/-- A primary expression that is read whatever follows it heads a chain. -/
theorem chainReads_primary (notNew : t.kind ≠ .name "new")
    (head : ∀ m, Reads primary (t :: inner ++ m) x m) : ChainReads (t :: inner) x := by
  intro m y m' more
  obtain ⟨z, mid, members, calls⟩ := continues_suffixes_split more
  exact reads_leftHandSide
    (reads_memberExpression_primary (accept_cons_of_ne _ notNew) (head m) members) calls

/-- `new` with the name of a class and arguments heads a chain. -/
theorem chainReads_new {name : String} (plain : atomOf (.name name) = some (.name name))
    (args : ∀ m, Reads arguments (⟨.punctuator "(", f⟩ :: inner ++ m) xs m) :
    ChainReads (⟨.name "new", g⟩ :: ⟨.name name, false⟩ :: ⟨.punctuator "(", f⟩ :: inner)
      (.new (.name name) xs) := by
  have notNew : name ≠ "new" := by
    rintro rfl
    have reserved : atomOf (.name "new") = none := by simp [atomOf, isReserved, reservedWords]
    rw [reserved] at plain
    cases plain
  intro m y m' more
  obtain ⟨z, mid, members, calls⟩ := continues_suffixes_split more
  have callee : Reads memberExpression (⟨.name name, false⟩ :: ⟨.punctuator "(", f⟩ :: (inner ++ m))
      (.name name) (⟨.punctuator "(", f⟩ :: (inner ++ m)) :=
    reads_memberExpression_primary (accept_cons_of_ne _ (by simp [notNew]))
      (reads_primary_atom plain)
      (continues_suffixes_members_stop (accept_cons_of_ne _ (by simp))
        (accept_cons_of_ne _ (by simp)))
  exact reads_leftHandSide (reads_memberExpression_new callee (args m) members) calls

/-- A name that is no reserved word is read as itself. -/
theorem atomOf_name {text : String} (free : isReserved text = false) :
    atomOf (.name text) = some (.name text) := by
  -- the words that stand for literals are all reserved
  have notLiteral : text ≠ "this" ∧ text ≠ "null" ∧ text ≠ "true" ∧ text ≠ "false" := by
    refine ⟨?_, ?_, ?_, ?_⟩ <;>
    · rintro rfl
      revert free
      decide
  simp [atomOf, notLiteral, free]

/-- A token that is an expression by itself heads a chain. -/
theorem chainReads_atom (notNew : t.kind ≠ .name "new") (atom : atomOf t.kind = some x) :
    ChainReads [t] x :=
  chainReads_primary notNew fun _ => reads_primary_atom atom

theorem chainReads_name {text : String} (free : isReserved text = false) :
    ChainReads [⟨.name text, f⟩] (.name text) :=
  chainReads_atom (fun same => by
    cases same
    revert free
    decide) (atomOf_name free)

theorem suffixes_stop_of_kind {calls : Bool} (other : t.kind ∉ suffixWords calls) :
    ∀ k ∈ suffixWords calls, accept k (t :: m) = none :=
  fun _ listed => accept_cons_of_ne _ fun same => other (same ▸ listed)

theorem ChainReads.member (chain : ChainReads tokens x) (property : String) :
    ChainReads (tokens ++ [⟨.punctuator ".", f⟩, ⟨.name property, g⟩]) (.member x property) := by
  intro m y m' more
  have step : Continues (suffixes true x) (⟨.punctuator ".", f⟩ :: ⟨.name property, g⟩ :: m) y m' :=
    continues_suffixes_member more
  exact (chain _ y m' step).of_eq (by simp)

theorem ChainReads.index (chain : ChainReads tokens x)
    (key : ExprReads inner y) :
    ChainReads (tokens ++ ⟨.punctuator "[", f⟩ :: (inner ++ [⟨.punctuator "]", g⟩]))
      (.index x y) := by
  intro m z m' more
  have closes : ClosesExpression (⟨.punctuator "]", g⟩ :: m) :=
    fun t first => ⟨"]", by simp [closingWords], by cases first; rfl⟩
  have step : Continues (suffixes true x) (⟨.punctuator "[", f⟩ :: (inner ++ ⟨.punctuator "]", g⟩ :: m))
      z m' :=
    continues_suffixes_index (key _ closes) more
  exact (chain _ z m' step).of_eq (by simp)

theorem ChainReads.call (chain : ChainReads tokens x)
    (args : ∀ m, Reads arguments (⟨.punctuator "(", f⟩ :: inner ++ m) xs m) :
    ChainReads (tokens ++ ⟨.punctuator "(", f⟩ :: inner) (.call x xs) := by
  intro m y m' more
  have step : Continues (suffixes true x) (⟨.punctuator "(", f⟩ :: inner ++ m) y m' :=
    continues_suffixes_call (args m) more
  exact (chain _ y m' step).of_eq (by simp)

/-- A chain that no member access, index or call follows is a unary expression, when its
first token is no unary operator. -/
theorem ChainReads.unary (chain : ChainReads (t :: inner) x) (notOperator : t.text ∉ unaryOperators)
    (stop : ∀ k ∈ suffixWords true, accept k m = none) : Reads unary (t :: inner ++ m) x m :=
  reads_unary_of_leftHandSide (operator_cons_of_not_mem _ notOperator)
    (chain m x m (continues_suffixes_stop stop))

theorem ChainReads.exprReads (chain : ChainReads (t :: inner) x)
    (notOperator : t.text ∉ unaryOperators) : ExprReads (t :: inner) x := fun _ closes =>
  reads_assignment_of_unary (chain.unary notOperator (suffixes_stop_of_closes closes true)) closes

end Links

section Elements

variable {m : List Token} {f : Bool}

/-- The tokens of expressions one after another, with a comma between two. -/
def joinElements : List (List Token) → List Token
  | [] => []
  | ts :: more => ts ++ more.flatMap (⟨.punctuator ",", false⟩ :: ·)

theorem closesExpression_cons {p : String} (closing : p ∈ closingWords) :
    ClosesExpression (⟨.punctuator p, f⟩ :: m) :=
  fun t first => ⟨p, closing, by cases first; rfl⟩

/-- No closing punctuator starts an expression. -/
theorem kind_ne_closing {t : Token} (starts : startsExpression t = true) {p : String}
    (closing : p ∈ closingWords) : t.kind ≠ .punctuator p := by
  obtain ⟨kind, flag⟩ := t
  rintro (rfl : kind = _)
  revert starts
  simp only [closingWords, List.mem_cons, List.not_mem_nil, or_false] at closing
  rcases closing with rfl | rfl | rfl | rfl | rfl <;> cases flag <;> decide

theorem ExprReads.accept_closing {ts : List Token} {x : Expr} (reads : ExprReads ts x)
    {p : String} (closing : p ∈ closingWords) (closes : ClosesExpression m) :
    accept (.punctuator p) (ts ++ m) = none := by
  obtain ⟨t, rest, split, starts⟩ := startsExpression_of_reads (reads m closes)
  rw [split]
  exact accept_cons_of_ne _ (kind_ne_closing starts closing)

variable {close : String} (closing : close ∈ closingWords)
include closing

/-- What follows an element closes it: a comma, or the punctuator that closes the list. -/
theorem closesExpression_elements (parts : List (List Token)) :
    ClosesExpression (parts.flatMap (⟨.punctuator ",", false⟩ :: ·) ++
      ⟨.punctuator close, f⟩ :: m) := by
  cases parts with
  | nil => exact closesExpression_cons closing
  | cons part parts =>
    simp only [List.flatMap_cons, List.cons_append]
    exact closesExpression_cons (by simp [closingWords])

variable (notComma : close ≠ ",")
include notComma

theorem reads_moreElements_of {parts : List (List Token)} {xs : List Expr}
    (all : List.Forall₂ ExprReads parts xs) :
    Reads (moreElements close)
      (parts.flatMap (⟨.punctuator ",", false⟩ :: ·) ++ ⟨.punctuator close, f⟩ :: m) xs m := by
  induction all with
  | nil => exact reads_moreElements_close close
  | @cons ts x parts xs first _ rest =>
    simp only [List.flatMap_cons, List.cons_append, List.append_assoc]
    exact reads_moreElements_cons notComma
      (first _ (closesExpression_elements closing parts)) rest

/-- Expressions, each read whatever ends it, separated by commas and closed by `close`. -/
theorem reads_elementsTo_of {parts : List (List Token)} {xs : List Expr}
    (all : List.Forall₂ ExprReads parts xs) :
    Reads (elementsTo close) (joinElements parts ++ ⟨.punctuator close, f⟩ :: m) xs m := by
  cases all with
  | nil => exact reads_elementsTo_close close
  | @cons ts x parts xs first more =>
    have closes := closesExpression_elements closing parts (f := f) (m := m)
    simp only [joinElements, List.append_assoc]
    exact reads_elementsTo_cons (first.accept_closing closing closes) (first _ closes)
      (reads_moreElements_of closing notComma more)

end Elements

section Calls

variable {tokens inner : List Token} {x y : Expr} {f g : Bool}

theorem ChainReads.call_nil (chain : ChainReads tokens x) :
    ChainReads (tokens ++ [⟨.punctuator "(", f⟩, ⟨.punctuator ")", g⟩]) (.call x []) :=
  chain.call fun _ => reads_arguments (reads_elementsTo_close ")")

theorem ChainReads.call_single (chain : ChainReads tokens x) (arg : ExprReads inner y) :
    ChainReads (tokens ++ ⟨.punctuator "(", f⟩ :: (inner ++ [⟨.punctuator ")", g⟩]))
      (.call x [y]) :=
  chain.call fun m => by
    have args : Reads arguments
        (⟨.punctuator "(", f⟩ :: (joinElements [inner] ++ ⟨.punctuator ")", g⟩ :: m)) [y] m :=
      reads_arguments (reads_elementsTo_of (by simp [closingWords]) (by decide) (.cons arg .nil))
    exact args.of_eq (by simp [joinElements])

end Calls

end VieCompiler.Script
