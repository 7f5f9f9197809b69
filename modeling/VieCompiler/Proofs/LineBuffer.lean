import VieCompiler.Code.Emitter
import VieCompiler.Proofs.Indentation

/-!
# What the emitter does to its lines

The emitter is a machine over a line buffer and an indentation level (`Emitter`). Writing a
statement only appends: run from any buffer at any level `k`, it ends with that buffer
followed by lines of its own, at least one, that depend on the statement and `k` alone, and
at level `k` again (`emitStmt_appends_own_lines`). So rendering a statement into a buffer of
its own hands back exactly those lines and restores the buffer it found, a rendering always
has a first line, and the line that an alternative takes back is the last line of its own
consequent, however deeply inline bodies nest.

Everything rests on `Appends k m R`: running `m` at level `k` after any lines appends `R` and
ends at level `k`. Each step of the machine has a lemma saying what it appends, and one
induction over statements puts them together (`emits`).

On the programs the parser builds, the machine writes exactly the lines of `Program.emit`
(`Emitter.generate_of_source`). Taking the leading spaces off a line takes off its
indentation and nothing more there, since no line of such a program starts with a space
(`Stmt.emitWith_startsUnspaced`).
-/

namespace VieCompiler

namespace Emitter

/-- Running `m` at level `k`, after any lines, appends `lines` to them and ends at level `k`
again. -/
def Appends (k : Nat) (m : EmitM Unit) (lines : List String) : Prop :=
  ∀ before, m.run ⟨before, k⟩ = .ok ((), ⟨before ++ lines, k⟩)

section Steps

variable {k : Nat} {m m' : EmitM Unit} {R R' : List String}

theorem appends_pure : Appends k (pure ()) [] := by
  intro before
  simp only [List.append_nil]
  rfl

theorem emitLine_appends (text : String) : Appends k (emitLine text) [Line.render ⟨k, text⟩] := by
  intro before
  simp only [emitLine, StateT.run_modify]
  rfl

/-- A step that succeeds hands its result and its state to the next one. -/
theorem run_bind_of_run {α β : Type} {x : EmitM α} {f : α → EmitM β} {state state' : Emitter}
    {a : α} (done : x.run state = .ok (a, state')) : (x >>= f).run state = (f a).run state' := by
  rw [StateT.run_bind, done]
  rfl

theorem Appends.bind (first : Appends k m R) (second : Appends k m' R') :
    Appends k (m >>= fun _ => m') (R ++ R') := by
  intro before
  rw [run_bind_of_run (first before), second (before ++ R), List.append_assoc]

/-- Lines added as they are, as the lines of an inline body after its first. -/
theorem extend_appends (rest : List String) :
    Appends k (modify fun e => { e with lines := e.lines ++ rest }) rest := by
  intro before
  rfl

theorem indented_appends (inner : Appends (k + 1) m R) : Appends k (indented m) R := by
  intro before
  simp only [indented, StateT.run_bind, StateT.run_modify, pure_bind]
  rw [inner before]
  rfl

/-- A line, the lines of `inner` one level deeper, and a closing brace: the shape of a block,
of a class and of a function. -/
theorem braced_appends (opening : String) (inner : Appends (k + 1) m R) :
    Appends k (do emitLine opening; indented m; emitLine "\x7d")
      (Line.render ⟨k, opening⟩ :: R ++ [Line.render ⟨k, "\x7d"⟩]) :=
  ((emitLine_appends opening).bind ((indented_appends inner).bind (emitLine_appends _)))

/-- Taking back a line gives the last one written and leaves the lines before it. -/
theorem popLine_run (before : List String) (last : String) :
    popLine.run ⟨before ++ [last], k⟩ = .ok (last, ⟨before, k⟩) := by
  simp only [popLine, StateT.run_bind, StateT.run_get, pure_bind, List.getLast?_concat,
    StateT.run_set, List.dropLast_concat]
  rfl

theorem renderStmt_run {s : Stmt} (alone : Appends k (emitStmt s) R) (before : List String) :
    (renderStmt s).run ⟨before, k⟩ = .ok (R, ⟨before, k⟩) := by
  rw [renderStmt]
  simp only [StateT.run_bind, StateT.run_get, StateT.run_modify, pure_bind]
  rw [show (emitStmt s).run ⟨[], k⟩ = .ok ((), ⟨R, k⟩) from alone []]
  rfl

theorem emitStmts_nil_appends : Appends k (emitStmts []) [] := by
  rw [emitStmts]
  exact appends_pure

theorem Appends.emitStmts_cons {s : Stmt} {ss : List Stmt} (first : Appends k (emitStmt s) R)
    (rest : Appends k (emitStmts ss) R') : Appends k (emitStmts (s :: ss)) (R ++ R') := by
  rw [emitStmts]
  exact first.bind rest

theorem emitMethods_nil_appends : Appends k (emitMethods []) [] := by
  rw [emitMethods]
  exact appends_pure

theorem Appends.emitMethods_cons {m : FunctionDef Stmt} {ms : List (FunctionDef Stmt)}
    (first : Appends k (emitFunction (methodName m.name) m) R)
    (rest : Appends k (emitMethods ms) R') :
    Appends k (emitMethods (m :: ms)) (R ++ R') := by
  rw [emitMethods]
  exact first.bind rest

theorem emitStmt_block_appends {body : List Stmt} (inner : Appends (k + 1) (emitStmts body) R) :
    Appends k (emitStmt (.block body))
      (Line.render ⟨k, "\x7b"⟩ :: R ++ [Line.render ⟨k, "\x7d"⟩]) := by
  rw [emitStmt, emitStmtBlock]
  exact braced_appends _ inner

theorem emitBody_block_appends (header : String) {body : List Stmt}
    (inner : Appends (k + 1) (emitStmts body) R) :
    Appends k (emitBody header (.block body))
      (Line.render ⟨k, header ++ " \x7b"⟩ :: R ++ [Line.render ⟨k, "\x7d"⟩]) := by
  rw [emitBody, emitStmtBlock]
  exact braced_appends _ inner

/-- A body that is no block joins its first line, without leading spaces, to the header's
line, and its other lines follow. -/
theorem emitBody_inline_appends (header : String) {s : Stmt} (inline : ∀ body, s ≠ .block body)
    {first : String} {rest : List String} (alone : Appends k (emitStmt s) (first :: rest)) :
    Appends k (emitBody header s)
      (Line.render ⟨k, header ++ " " ++ dropLeadingSpaces first⟩ :: rest) := by
  intro before
  rw [emitBody.eq_2 header s inline, run_bind_of_run (renderStmt_run alone before)]
  exact ((emitLine_appends _).bind (extend_appends rest)) before

theorem emitFunction_appends (head : String) (definition : FunctionDef Stmt)
    (inner : Appends (k + 1) (emitStmts definition.body) R) :
    Appends k (emitFunction head definition)
      (Line.render ⟨k, head ++ "(" ++ ", ".intercalate definition.params ++ ") \x7b"⟩ :: R ++
        [Line.render ⟨k, "\x7d"⟩]) := by
  rw [emitFunction]
  have braced := emitBody_block_appends (head ++ "(" ++ ", ".intercalate definition.params ++ ")")
    inner
  simpa only [String.append_assoc, show ")" ++ " \x7b" = ") \x7b" from rfl] using braced

theorem emitClass_appends (name : String) {methods : List (FunctionDef Stmt)}
    (inner : Appends (k + 1) (emitMethods methods) R) :
    Appends k (emitClass name methods)
      (Line.render ⟨k, "class " ++ name ++ " \x7b"⟩ :: R ++ [Line.render ⟨k, "\x7d"⟩]) := by
  rw [emitClass]
  exact braced_appends _ inner

theorem emitIf_none_appends {test : Expr} {consequent : Stmt}
    (governed : Appends k (emitBody ("if (" ++ test.render ++ ")") consequent) R) :
    Appends k (emitIf test consequent none) R := by
  rw [emitIf]
  simpa only [List.append_nil] using governed.bind appends_pure

/-- An alternative takes back the last line of its consequent and continues it. -/
theorem emitIf_some_appends {test : Expr} {consequent alternate : Stmt} {front : List String}
    {last : String}
    (governed : Appends k (emitBody ("if (" ++ test.render ++ ")") consequent) (front ++ [last]))
    (otherwise : Appends k (emitBody (dropLeadingSpaces last ++ " else") alternate) R) :
    Appends k (emitIf test consequent (some alternate)) (front ++ R) := by
  intro before
  rw [emitIf, run_bind_of_run (governed before), ← List.append_assoc,
    run_bind_of_run (popLine_run (before ++ front) last), otherwise (before ++ front),
    List.append_assoc]

end Steps

section Frame

/-- What the emitter does with a statement at level `k`, on its own and as the body of any
header: it appends lines of its own, at least one, and returns to level `k`. -/
structure Emits (k : Nat) (s : Stmt) : Prop where
  alone : ∃ R, R ≠ [] ∧ Appends k (emitStmt s) R
  governed : ∀ header, ∃ front last, Appends k (emitBody header s) (front ++ [last])

theorem Emits.of_alone {k : Nat} {s : Stmt} (inline : ∀ body, s ≠ .block body)
    (alone : ∃ R, R ≠ [] ∧ Appends k (emitStmt s) R) : Emits k s where
  alone := alone
  governed header := by
    obtain ⟨R, filled, appends⟩ := alone
    obtain ⟨first, rest, rfl⟩ := List.exists_cons_of_ne_nil filled
    have governed := emitBody_inline_appends header inline appends
    rw [← List.dropLast_concat_getLast (List.cons_ne_nil _ rest)] at governed
    exact ⟨_, _, governed⟩

theorem line_appends (k : Nat) (text : String) :
    ∃ R, R ≠ [] ∧ Appends k (emitLine text) R :=
  ⟨_, List.cons_ne_nil _ _, emitLine_appends text⟩

/-- A body written under a header appends at least its last line. -/
theorem Emits.governs {k : Nat} {s : Stmt} (inner : Emits k s) (header : String) :
    ∃ R, R ≠ [] ∧ Appends k (emitBody header s) R := by
  obtain ⟨front, last, governed⟩ := inner.governed header
  exact ⟨front ++ [last], by simp, governed⟩

mutual

/-- Every statement is written, at every level, by appending lines of its own. -/
theorem emits : (s : Stmt) → (k : Nat) → Emits k s
  | .expr value, k => Emits.of_alone (by simp) (by rw [emitStmt]; exact line_appends k _)
  | .letDecl name value, k => Emits.of_alone (by simp) (by rw [emitStmt]; exact line_appends k _)
  | .ret value, k => Emits.of_alone (by simp) (by rw [emitStmt]; exact line_appends k _)
  | .block body, k => by
    obtain ⟨R, inner⟩ := emitStmts_appends body (k + 1)
    refine ⟨⟨_, List.cons_ne_nil _ _, emitStmt_block_appends inner⟩, fun header => ?_⟩
    exact ⟨_, _, emitBody_block_appends header inner⟩
  | .function ⟨name, params, body⟩, k => by
    obtain ⟨R, inner⟩ := emitStmts_appends body (k + 1)
    exact Emits.of_alone (by simp)
      ⟨_, List.cons_ne_nil _ _, by rw [emitStmt]; exact emitFunction_appends _ _ inner⟩
  | .classDecl name methods, k => by
    obtain ⟨R, inner⟩ := emitMethods_appends methods (k + 1)
    exact Emits.of_alone (by simp)
      ⟨_, List.cons_ne_nil _ _, by rw [emitStmt]; exact emitClass_appends name inner⟩
  | .ifElse test consequent none, k => by
    obtain ⟨R, filled, governed⟩ := (emits consequent k).governs ("if (" ++ test.render ++ ")")
    exact Emits.of_alone (by simp) ⟨R, filled, by rw [emitStmt]; exact emitIf_none_appends governed⟩
  | .ifElse test consequent (some alternate), k => by
    obtain ⟨front, last, governed⟩ := (emits consequent k).governed ("if (" ++ test.render ++ ")")
    -- the alternative continues the consequent's last line, whatever that line is
    obtain ⟨front', last', otherwise⟩ :=
      (emits alternate k).governed (dropLeadingSpaces last ++ " else")
    refine Emits.of_alone (by simp) ⟨front ++ (front' ++ [last']), by simp, ?_⟩
    rw [emitStmt]
    exact emitIf_some_appends governed otherwise
  | .whileLoop test body, k =>
    Emits.of_alone (by simp) (by rw [emitStmt]; exact (emits body k).governs _)
  | .forEach element collection body, k =>
    Emits.of_alone (by simp) (by rw [emitStmt]; exact (emits body k).governs _)

theorem emitStmts_appends : (ss : List Stmt) → (k : Nat) → ∃ R, Appends k (emitStmts ss) R
  | [], _ => ⟨[], emitStmts_nil_appends⟩
  | s :: ss, k => by
    obtain ⟨R, -, first⟩ := (emits s k).alone
    obtain ⟨R', rest⟩ := emitStmts_appends ss k
    exact ⟨R ++ R', first.emitStmts_cons rest⟩

theorem emitMethods_appends :
    (methods : List (FunctionDef Stmt)) → (k : Nat) → ∃ R, Appends k (emitMethods methods) R
  | [], _ => ⟨[], emitMethods_nil_appends⟩
  | ⟨name, params, body⟩ :: ms, k => by
    obtain ⟨R, inner⟩ := emitStmts_appends body (k + 1)
    obtain ⟨R', rest⟩ := emitMethods_appends ms k
    exact ⟨_, (emitFunction_appends _ _ inner).emitMethods_cons rest⟩

end

/-- Writing a statement from any buffer at any level `k` appends lines of its own, at least
one, that depend on the statement and `k` alone, and ends at level `k`. Rendering it into a
buffer of its own hands back those lines and leaves the buffer it found as it was. Written as
the body of any header, it appends lines too, so taking back a line afterwards gives the last
of them and leaves the lines before. -/
theorem emitStmt_appends_own_lines (s : Stmt) (k : Nat) :
    ∃ R, R ≠ [] ∧
      (∀ before, (emitStmt s).run ⟨before, k⟩ = .ok ((), ⟨before ++ R, k⟩)) ∧
      (∀ before, (renderStmt s).run ⟨before, k⟩ = .ok (R, ⟨before, k⟩)) ∧
      ∀ header, ∃ front last,
        (∀ before, (emitBody header s).run ⟨before, k⟩ =
          .ok ((), ⟨before ++ front ++ [last], k⟩)) ∧
        ∀ before, (do emitBody header s; popLine).run ⟨before, k⟩ =
          .ok (last, ⟨before ++ front, k⟩) := by
  obtain ⟨⟨R, filled, alone⟩, governed⟩ := emits s k
  refine ⟨R, filled, alone, renderStmt_run alone, fun header => ?_⟩
  obtain ⟨front, last, appends⟩ := governed header
  refine ⟨front, last, fun before => ?_, fun before => ?_⟩
  · rw [appends before, List.append_assoc]
  · rw [run_bind_of_run (appends before), ← List.append_assoc]
    exact popLine_run (before ++ front) last

end Frame

end Emitter

section Unspaced

/-- A text that starts with a character other than a space. -/
def StartsUnspaced (text : String) : Prop :=
  ∃ c ∈ text.toList.head?, c ≠ ' '

variable {t u : String} {level : Nat} {lines : List Line}

theorem StartsUnspaced.append (first : StartsUnspaced t) : StartsUnspaced (t ++ u) := by
  obtain ⟨c, found, notSpace⟩ := first
  exact ⟨c, by simp [String.toList_append, List.head?_append, Option.mem_def.mp found], notSpace⟩

/-- A text with no leading space, possibly empty, before one that starts unspaced. -/
theorem startsUnspaced_of_head (first : ∀ c ∈ t.toList.head?, c ≠ ' ')
    (second : StartsUnspaced u) : StartsUnspaced (t ++ u) := by
  cases start : t.toList with
  | nil => simpa [StartsUnspaced, String.toList_append, start] using second
  | cons c rest => exact ⟨c, by simp [String.toList_append, start], first c (by simp [start])⟩

/-- Taking the leading spaces off a line whose text starts unspaced takes off its indentation
and nothing more. -/
theorem Emitter.dropLeadingSpaces_render (unspaced : StartsUnspaced t) (level : Nat) :
    Emitter.dropLeadingSpaces (Line.render ⟨level, t⟩) = t := by
  obtain ⟨c, found, notSpace⟩ := unspaced
  obtain ⟨rest, whole⟩ : ∃ rest, t.toList = c :: rest := by
    cases start : t.toList with
    | nil => simp [start] at found
    | cons d rest =>
      rw [start, List.head?_cons, Option.mem_def, Option.some.injEq] at found
      exact ⟨rest, by rw [found]⟩
  have spaces : ∀ d ∈ List.replicate (2 * level) ' ', (d == ' ') = true := by
    intro d mem
    rw [List.eq_of_mem_replicate mem]
    rfl
  rw [Emitter.dropLeadingSpaces, Line.render_toList, indentation,
    List.dropWhile_append_of_pos spaces, whole,
    List.dropWhile_cons_of_neg (by simpa using notSpace), ← whole, String.ofList_toList]

theorem StartsUnspaced.attach {header : Option String} (headed : ∀ t ∈ header, StartsUnspaced t)
    (all : ∀ line ∈ lines, StartsUnspaced line.text) :
    ∀ line ∈ attach level header lines, StartsUnspaced line.text := by
  rcases header with _ | header
  · exact all
  cases lines with
  | nil =>
    intro line mem
    rw [VieCompiler.attach, List.mem_singleton] at mem
    subst mem
    exact headed header rfl
  | cons first rest =>
    intro line mem
    rw [VieCompiler.attach, List.mem_cons] at mem
    rcases mem with rfl | mem
    · exact (headed header rfl).append.append
    · exact all line (List.mem_cons_of_mem _ mem)

theorem StartsUnspaced.blockLines {header : String} {body : List Line}
    (opening : StartsUnspaced (header ++ "\x7b"))
    (inner : ∀ line ∈ body, StartsUnspaced line.text) :
    ∀ line ∈ blockLines level header body, StartsUnspaced line.text := by
  intro line mem
  simp only [VieCompiler.blockLines, List.cons_append, List.mem_cons, List.mem_append,
    List.not_mem_nil, or_false] at mem
  rcases mem with rfl | mem | rfl
  · exact opening
  · exact inner line mem
  · simp [StartsUnspaced]

theorem StartsUnspaced.elseLines {alternate : String → List Line}
    (consequent : ∀ line ∈ lines, StartsUnspaced line.text)
    (alternates : ∀ t, StartsUnspaced t → ∀ line ∈ alternate t, StartsUnspaced line.text) :
    ∀ line ∈ elseLines lines alternate, StartsUnspaced line.text := by
  unfold VieCompiler.elseLines
  split
  · rename_i last found
    intro line mem
    rcases List.mem_append.mp mem with mem | mem
    · exact consequent line (List.dropLast_subset _ mem)
    · exact alternates _ (consequent last (List.mem_of_getLast? found)).append line mem
  · exact alternates "else" (by simp [StartsUnspaced])

/-- The header of a conditional or a loop starts with its keyword. -/
theorem startsUnspaced_guard {opening : String} (keyword : StartsUnspaced opening)
    (middle : String) : StartsUnspaced (opening ++ middle ++ ")") :=
  keyword.append.append

mutual

/-- Every line of a statement whose names are the lexer's starts with no space, under a header
that starts with none. -/
theorem Stmt.emitWith_startsUnspaced (level : Nat) (header : Option String)
    (headed : ∀ t ∈ header, StartsUnspaced t) :
    (s : Stmt) → s.WellFormed Leaves.lexical →
      ∀ line ∈ Stmt.emitWith level header s, StartsUnspaced line.text
  | .block body, good => by
    rw [Stmt.emitWith]
    refine StartsUnspaced.blockLines ?_ (Stmt.emitList_startsUnspaced (level + 1) body good)
    cases header with
    | none => simp [StartsUnspaced]
    | some t => exact (headed t rfl).append.append
  | .expr value, good => by
    rw [Stmt.emitWith]
    exact StartsUnspaced.attach headed (List.forall_mem_singleton.mpr
      (startsUnspaced_of_head (Expr.render_starts good) (by simp [StartsUnspaced])))
  | .letDecl name value, _ => by
    rw [Stmt.emitWith]
    refine StartsUnspaced.attach headed (List.forall_mem_singleton.mpr ?_)
    exact (show StartsUnspaced "let " by simp [StartsUnspaced]).append.append.append.append
  | .ret value, _ => by
    rw [Stmt.emitWith]
    refine StartsUnspaced.attach headed (List.forall_mem_singleton.mpr ?_)
    exact (show StartsUnspaced "return " by simp [StartsUnspaced]).append.append
  | .function ⟨name, params, body⟩, good => by
    rw [Stmt.emitWith]
    exact StartsUnspaced.attach headed (Stmt.emitRoutine_startsUnspaced level _
      (by simp [String.toList_append]) ⟨name, params, body⟩ good)
  | .classDecl name methods, ⟨_, good⟩ => by
    rw [Stmt.emitWith]
    refine StartsUnspaced.attach headed (StartsUnspaced.blockLines ?_
      (Stmt.emitMethods_startsUnspaced (level + 1) methods good))
    exact (show StartsUnspaced "class " by simp [StartsUnspaced]).append.append.append
  | .ifElse test consequent none, ⟨_, good⟩ => by
    rw [Stmt.emitWith]
    exact StartsUnspaced.attach headed (Stmt.emitWith_startsUnspaced level _
      (forall_mem_some (startsUnspaced_guard (by simp [StartsUnspaced]) _)) consequent good)
  | .ifElse test consequent (some alternate), ⟨_, good, otherwise⟩ => by
    rw [Stmt.emitWith]
    -- the alternative's header is the consequent's last line, which starts with no space
    exact StartsUnspaced.attach headed (StartsUnspaced.elseLines
      (Stmt.emitWith_startsUnspaced level _
        (forall_mem_some (startsUnspaced_guard (by simp [StartsUnspaced]) _)) consequent good)
      fun t continued =>
        Stmt.emitWith_startsUnspaced level (some t) (forall_mem_some continued) alternate otherwise)
  | .whileLoop test body, ⟨_, good⟩ => by
    rw [Stmt.emitWith]
    exact StartsUnspaced.attach headed (Stmt.emitWith_startsUnspaced level _
      (forall_mem_some (startsUnspaced_guard (by simp [StartsUnspaced]) _)) body good)
  | .forEach element collection body, ⟨_, _, good⟩ => by
    rw [Stmt.emitWith]
    refine StartsUnspaced.attach headed (Stmt.emitWith_startsUnspaced level _
      (forall_mem_some ?_) body good)
    exact (show StartsUnspaced "for (const " by simp [StartsUnspaced]).append.append.append.append

theorem Stmt.emitList_startsUnspaced (level : Nat) :
    (ss : List Stmt) → Stmt.ListWellFormed Leaves.lexical ss →
      ∀ line ∈ Stmt.emitList level ss, StartsUnspaced line.text
  | [], _ => by simp [Stmt.emitList]
  | s :: ss, ⟨good, rest⟩ => by
    rw [Stmt.emitList]
    intro line mem
    rcases List.mem_append.mp mem with mem | mem
    · exact Stmt.emitWith_startsUnspaced level none (by simp) s good line mem
    · exact Stmt.emitList_startsUnspaced level ss rest line mem

theorem Stmt.emitRoutine_startsUnspaced (level : Nat) (head : String)
    (first : ∀ c ∈ head.toList.head?, c ≠ ' ') :
    (definition : FunctionDef Stmt) → Stmt.RoutineWellFormed Leaves.lexical definition →
      ∀ line ∈ Stmt.emitRoutine level head definition, StartsUnspaced line.text
  | ⟨name, params, body⟩, ⟨_, _, good⟩ => by
    rw [Stmt.emitRoutine]
    refine StartsUnspaced.blockLines ?_ (Stmt.emitList_startsUnspaced (level + 1) body good)
    simp only [String.append_assoc]
    exact startsUnspaced_of_head first (show StartsUnspaced "(" by simp [StartsUnspaced]).append

theorem Stmt.emitMethods_startsUnspaced (level : Nat) :
    (methods : List (FunctionDef Stmt)) → Stmt.MethodsWellFormed Leaves.lexical methods →
      ∀ line ∈ Stmt.emitMethods level methods, StartsUnspaced line.text
  | [], _ => by simp [Stmt.emitMethods]
  | ⟨name, params, body⟩ :: ms, ⟨good, rest⟩ => by
    rw [Stmt.emitMethods]
    intro line mem
    rcases List.mem_append.mp mem with mem | mem
    · exact Stmt.emitRoutine_startsUnspaced level _ (methodName_starts good.1) _ good line mem
    · exact Stmt.emitMethods_startsUnspaced level ms rest line mem

end

end Unspaced

namespace Emitter

section Agreement

/-- For a statement at level `k`, the machine writes the lines of `Stmt.emitWith`: on its own,
and as the body of any header. -/
structure WritesLines (k : Nat) (s : Stmt) : Prop where
  alone : Appends k (emitStmt s) ((Stmt.emit k s).map Line.render)
  governed : ∀ header,
    Appends k (emitBody header s) ((Stmt.emitWith k (some header) s).map Line.render)

/-- A statement that is no block and whose lines start unspaced is written as a body by
joining its first line to the header, as `attach` does. -/
theorem WritesLines.of_alone {k : Nat} {s : Stmt} (inline : ∀ body, s ≠ .block body)
    (good : s.WellFormed Leaves.lexical)
    (alone : Appends k (emitStmt s) ((Stmt.emit k s).map Line.render)) : WritesLines k s where
  alone := alone
  governed header := by
    obtain ⟨⟨first, rest, whole⟩, -⟩ := emitWith_framed k none s
    have listed : (⟨k, first⟩ : Line) ∈ Stmt.emitWith k none s := by
      rw [whole]
      exact List.mem_cons_self
    have unspaced : StartsUnspaced first :=
      Stmt.emitWith_startsUnspaced k none (by simp) s good ⟨k, first⟩ listed
    rw [Stmt.emit, whole, List.map_cons] at alone
    have governed := emitBody_inline_appends header inline alone
    rw [dropLeadingSpaces_render unspaced] at governed
    rw [emitWith_some, whole]
    exact governed

mutual

/-- The machine writes the lines of `Stmt.emitWith` for every statement whose names are the
lexer's. -/
theorem writesLines : (s : Stmt) → s.WellFormed Leaves.lexical → (k : Nat) → WritesLines k s
  | .expr value, good, k => WritesLines.of_alone (by simp) good (by
      rw [emitStmt]
      exact emitLine_appends _)
  | .letDecl name value, good, k => WritesLines.of_alone (by simp) good (by
      rw [emitStmt]
      exact emitLine_appends _)
  | .ret value, good, k => WritesLines.of_alone (by simp) good (by
      rw [emitStmt]
      exact emitLine_appends _)
  | .block body, good, k => by
    have inner := emitStmts_writes body good (k + 1)
    refine ⟨?_, fun header => ?_⟩
    · simpa [Stmt.emit, Stmt.emitWith, blockLines] using emitStmt_block_appends inner
    · simpa [Stmt.emitWith, blockLines, String.append_assoc] using
        emitBody_block_appends header inner
  | .function ⟨name, params, body⟩, good, k => by
    have inner := emitStmts_writes body good.2.2 (k + 1)
    refine WritesLines.of_alone (by simp) good ?_
    rw [emitStmt]
    simpa [Stmt.emit, Stmt.emitWith, attach, Stmt.emitRoutine, blockLines,
      String.append_assoc] using
      emitFunction_appends ("function " ++ name) ⟨name, params, body⟩ inner
  | .classDecl name methods, good, k => by
    have inner := emitMethods_writes methods good.2 (k + 1)
    refine WritesLines.of_alone (by simp) good ?_
    rw [emitStmt]
    simpa [Stmt.emit, Stmt.emitWith, attach, blockLines, String.append_assoc] using
      emitClass_appends name inner
  | .ifElse test consequent none, good, k => by
    have governed := (writesLines consequent good.2 k).governed ("if (" ++ test.render ++ ")")
    refine WritesLines.of_alone (by simp) good ?_
    rw [emitStmt, Stmt.emit, Stmt.emitWith, attach]
    exact emitIf_none_appends governed
  | .ifElse test consequent (some alternate), good, k => by
    have governed := (writesLines consequent good.2.1 k).governed ("if (" ++ test.render ++ ")")
    -- the consequent ends with a line that starts unspaced, so taking it back takes off only
    -- its indentation
    obtain ⟨-, front, last, whole⟩ := emitWith_framed k (some ("if (" ++ test.render ++ ")"))
      consequent
    have unspaced : StartsUnspaced last :=
      Stmt.emitWith_startsUnspaced k (some ("if (" ++ test.render ++ ")"))
        (forall_mem_some (startsUnspaced_guard (by simp [StartsUnspaced]) _)) consequent good.2.1
        ⟨k, last⟩ (by rw [whole]; simp)
    rw [whole, List.map_append, List.map_singleton] at governed
    have otherwise := (writesLines alternate good.2.2 k).governed
      (dropLeadingSpaces (Line.render ⟨k, last⟩) ++ " else")
    have written := emitIf_some_appends governed otherwise
    rw [dropLeadingSpaces_render unspaced] at written
    refine WritesLines.of_alone (by simp) good ?_
    rw [emitStmt, Stmt.emit, Stmt.emitWith, attach, whole]
    simpa [elseLines] using written
  | .whileLoop test body, good, k => by
    have governed := (writesLines body good.2 k).governed ("while (" ++ test.render ++ ")")
    refine WritesLines.of_alone (by simp) good ?_
    rw [emitStmt, Stmt.emit, Stmt.emitWith, attach]
    exact governed
  | .forEach element collection body, good, k => by
    have governed := (writesLines body good.2.2 k).governed
      ("for (const " ++ element ++ " of " ++ collection.render ++ ")")
    refine WritesLines.of_alone (by simp) good ?_
    rw [emitStmt, Stmt.emit, Stmt.emitWith, attach]
    exact governed

theorem emitStmts_writes : (ss : List Stmt) → Stmt.ListWellFormed Leaves.lexical ss →
    (k : Nat) → Appends k (emitStmts ss) ((Stmt.emitList k ss).map Line.render)
  | [], _, _ => emitStmts_nil_appends
  | s :: ss, ⟨good, rest⟩, k => by
    rw [Stmt.emitList, List.map_append]
    exact (writesLines s good k).alone.emitStmts_cons (emitStmts_writes ss rest k)

theorem emitMethods_writes : (methods : List (FunctionDef Stmt)) →
    Stmt.MethodsWellFormed Leaves.lexical methods →
    (k : Nat) → Appends k (emitMethods methods) ((Stmt.emitMethods k methods).map Line.render)
  | [], _, _ => emitMethods_nil_appends
  | ⟨name, params, body⟩ :: ms, ⟨good, rest⟩, k => by
    have inner := emitStmts_writes body good.2.2 (k + 1)
    rw [Stmt.emitMethods, List.map_append]
    refine Appends.emitMethods_cons ?_ (emitMethods_writes ms rest k)
    simpa [Stmt.emitRoutine, blockLines, String.append_assoc] using
      emitFunction_appends (methodName name) ⟨name, params, body⟩ inner

end

end Agreement

section Programs

/-- A program whose statements append `lines` is generated as those lines, joined. -/
theorem generate_of_appends {program : Program} {lines : List String}
    (appends : Appends 0 (emitStmts program.body) lines) :
    Emitter.generate program = .ok ("\n".intercalate lines) := by
  rw [Emitter.generate, emitProgram, StateT.run'_eq, StateT.run_bind, StateT.run_set, pure_bind,
    run_bind_of_run (appends [])]
  rfl

/-- The machine generates every program: it never finds a rendering without a first line or a
buffer without a last line to take back. -/
theorem generate_ok (program : Program) : ∃ code, Emitter.generate program = .ok code := by
  obtain ⟨lines, appends⟩ := emitStmts_appends program.body 0
  exact ⟨_, generate_of_appends appends⟩

/-- On every program read from a source text, the machine generates exactly the code of
`Program.generate`. -/
theorem generate_of_source {active : Nat} {source : String} {program : Program}
    (read : Program.ofSourceAt active source = .ok program) :
    Emitter.generate program = .ok program.generate := by
  rw [generate_of_appends (emitStmts_writes program.body (Program.ofSourceAt_lexical read) 0)]
  rfl

end Programs

end Emitter

end VieCompiler
