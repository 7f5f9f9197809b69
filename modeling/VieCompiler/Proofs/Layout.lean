import VieCompiler.Code.Emit
import Mathlib

/-!
# The layout of generated code

The lines that `Stmt.emitWith` writes for a statement, joined by line breaks, are one text:
`Stmt.code` gives it from the statement's first character on, as a function of the
statement and its level alone. Every line of a statement's code except the first is indented
by its own level, so a header placed before the statement only extends the first line, and
an alternative after a consequent only extends the last one. Both facts rest on the first and
last lines of a statement being of the statement's level (`Line.Framed`).

`Line.follow` writes lines each after a line break; it is `Line.join` with one more line break
in front, and it distributes over the concatenation of lines.
-/

namespace VieCompiler

/-- The indentation of a line of `level`: two spaces a level. -/
def indentation (level : Nat) : List Char :=
  List.replicate (2 * level) ' '

/-- The text that a header puts before the statement it governs, with its space. -/
def headerText (header : Option String) : String :=
  (header.map (· ++ " ")).getD ""

/-- The closing brace of a block of `level`, on a line of its own. -/
def closingLine (level : Nat) : List Char :=
  '\n' :: (indentation level ++ ['\x7d'])

mutual

/-- The text of a statement of `level` from its first character on, as its lines spell it. -/
def Stmt.code (level : Nat) : Stmt → List Char
  | .block body => '\x7b' :: (Stmt.codeList (level + 1) body ++ closingLine level)
  | .expr value => (value.render ++ ";").toList
  | .letDecl name value => ("let " ++ name ++ " = " ++ value.render ++ ";").toList
  | .ret value => ("return " ++ value.render ++ ";").toList
  | .function definition => Stmt.routineCode level ("function " ++ definition.name) definition
  | .classDecl name methods =>
    ("class " ++ name ++ " \x7b").toList ++ Stmt.methodsCode (level + 1) methods ++
      closingLine level
  | .ifElse test consequent none => ("if (" ++ test.render ++ ") ").toList ++ consequent.code level
  | .ifElse test consequent (some alternate) =>
    ("if (" ++ test.render ++ ") ").toList ++ consequent.code level ++ " else ".toList ++
      alternate.code level
  | .whileLoop test body => ("while (" ++ test.render ++ ") ").toList ++ body.code level
  | .forEach element collection body =>
    ("for (const " ++ element ++ " of " ++ collection.render ++ ") ").toList ++ body.code level

/-- The text of statements of `level`, each on new lines. -/
def Stmt.codeList (level : Nat) : List Stmt → List Char
  | [] => []
  | s :: ss => '\n' :: (indentation level ++ s.code level ++ Stmt.codeList level ss)

/-- The text of a function of `level` whose header starts with `head`. -/
def Stmt.routineCode (level : Nat) (head : String) : FunctionDef Stmt → List Char
  | ⟨_, params, body⟩ =>
    (head ++ "(" ++ ", ".intercalate params ++ ") \x7b").toList ++
      Stmt.codeList (level + 1) body ++ closingLine level

/-- The text of the methods of a class, each on new lines. -/
def Stmt.methodsCode (level : Nat) : List (FunctionDef Stmt) → List Char
  | [] => []
  | m :: ms =>
    '\n' :: (indentation level ++ Stmt.routineCode level (methodName m.name) m ++
      Stmt.methodsCode level ms)

end

namespace Line

/-- Lines as written, each after a line break. -/
def follow (lines : List Line) : List Char :=
  lines.flatMap fun line => '\n' :: line.render.toList

/-- The first and the last of the lines are of `level`. -/
def Framed (level : Nat) (lines : List Line) : Prop :=
  (∃ text rest, lines = ⟨level, text⟩ :: rest) ∧ ∃ front text, lines = front ++ [⟨level, text⟩]

@[simp]
theorem render_toList (line : Line) :
    line.render.toList = indentation line.level ++ line.text.toList := by
  simp [render, indentation]

@[simp]
theorem follow_nil : follow [] = [] := rfl

@[simp]
theorem follow_cons (line : Line) (lines : List Line) :
    follow (line :: lines) = '\n' :: (line.render.toList ++ follow lines) := by
  simp [follow]

@[simp]
theorem follow_append (lines more : List Line) :
    follow (lines ++ more) = follow lines ++ follow more := by
  simp [follow]

theorem follow_eq_join {lines : List Line} (filled : lines ≠ []) :
    follow lines = '\n' :: (join lines).toList := by
  induction lines with
  | nil => exact absurd rfl filled
  | cons line more ih =>
    cases more with
    | nil => simp [join]
    | cons next rest =>
      rw [follow_cons, ih (List.cons_ne_nil next rest)]
      simp [join]

end Line

section Framing

variable {level : Nat} {lines : List Line}

theorem Line.Framed.ne_nil (framed : Line.Framed level lines) : lines ≠ [] := by
  obtain ⟨⟨text, rest, rfl⟩, -⟩ := framed
  exact List.cons_ne_nil _ _

theorem blockLines_framed (header : String) (body : List Line) :
    Line.Framed level (blockLines level header body) :=
  ⟨⟨_, _, rfl⟩, ⟨⟨level, header ++ "\x7b"⟩ :: body, "\x7d", by simp [blockLines]⟩⟩

theorem attach_framed (header : Option String) (framed : Line.Framed level lines) :
    Line.Framed level (attach level header lines) := by
  obtain ⟨⟨first, rest, rfl⟩, front, last, whole⟩ := framed
  cases header with
  | none => exact ⟨⟨first, rest, rfl⟩, front, last, whole⟩
  | some header =>
    refine ⟨⟨_, rest, rfl⟩, ?_⟩
    -- the last line is the first one, extended, or lies in `rest`
    cases rest with
    | nil => exact ⟨[], _, rfl⟩
    | cons next more =>
      obtain ⟨front', rfl⟩ : ∃ front', front = ⟨level, first⟩ :: front' := by
        cases front with
        | nil => simp at whole
        | cons line front' =>
          simp only [List.cons_append, List.cons.injEq] at whole
          exact ⟨front', by rw [whole.1]⟩
      simp only [List.cons_append, List.cons.injEq, true_and] at whole
      exact ⟨⟨level, header ++ " " ++ first⟩ :: front', last, by simp [attach, whole]⟩

theorem elseLines_framed {alternate : String → List Line} (framed : Line.Framed level lines)
    (alternates : ∀ continued, Line.Framed level (alternate continued)) :
    Line.Framed level (elseLines lines alternate) := by
  obtain ⟨⟨first, rest, whole⟩, front, last, rfl⟩ := framed
  obtain ⟨⟨altFirst, altRest, altWhole⟩, altFront, altLast, altEnd⟩ :=
    alternates (last ++ " else")
  simp only [elseLines, List.getLast?_append, List.getLast?_singleton, Option.some_or,
    List.dropLast_concat]
  refine ⟨?_, front ++ altFront, altLast, by simp [altEnd]⟩
  -- the first line is that of the consequent, unless the consequent is one line
  cases front with
  | nil => exact ⟨altFirst, altRest, by simp [altWhole]⟩
  | cons line front' =>
    simp only [List.cons_append, List.cons.injEq] at whole
    exact ⟨first, front' ++ alternate (last ++ " else"), by simp [whole.1]⟩

theorem emitWith_framed (level : Nat) : (header : Option String) → (s : Stmt) →
    Line.Framed level (Stmt.emitWith level header s)
  | header, .block body => by
    rw [Stmt.emitWith]
    exact blockLines_framed _ _
  | header, .expr value => by
    rw [Stmt.emitWith]
    exact attach_framed header ⟨⟨_, [], rfl⟩, [], _, rfl⟩
  | header, .letDecl name value => by
    rw [Stmt.emitWith]
    exact attach_framed header ⟨⟨_, [], rfl⟩, [], _, rfl⟩
  | header, .ret value => by
    rw [Stmt.emitWith]
    exact attach_framed header ⟨⟨_, [], rfl⟩, [], _, rfl⟩
  | header, .function ⟨name, params, body⟩ => by
    rw [Stmt.emitWith, Stmt.emitRoutine]
    exact attach_framed header (blockLines_framed _ _)
  | header, .classDecl name methods => by
    rw [Stmt.emitWith]
    exact attach_framed header (blockLines_framed _ _)
  | header, .ifElse test consequent none => by
    rw [Stmt.emitWith]
    exact attach_framed header (emitWith_framed level _ consequent)
  | header, .ifElse test consequent (some alternate) => by
    rw [Stmt.emitWith]
    exact attach_framed header (elseLines_framed (emitWith_framed level _ consequent)
      fun continued => emitWith_framed level (some continued) alternate)
  | header, .whileLoop test body => by
    rw [Stmt.emitWith]
    exact attach_framed header (emitWith_framed level _ body)
  | header, .forEach element collection body => by
    rw [Stmt.emitWith]
    exact attach_framed header (emitWith_framed level _ body)

end Framing

section Follow

variable {level : Nat} {lines : List Line} {code : List Char}

/-- A header extends the first line of a statement. -/
theorem follow_attach (header : Option String) (framed : Line.Framed level lines)
    (text : Line.follow lines = '\n' :: (indentation level ++ code)) :
    Line.follow (attach level header lines) =
      '\n' :: (indentation level ++ (headerText header).toList ++ code) := by
  cases header with
  | none => simpa [attach, headerText] using text
  | some header =>
    obtain ⟨⟨first, rest, rfl⟩, -⟩ := framed
    simp only [Line.follow_cons, Line.render_toList, List.cons.injEq, true_and,
      List.append_assoc, List.append_cancel_left_eq] at text
    simp [attach, headerText, text]

/-- An alternative extends the last line of the consequent. -/
theorem follow_elseLines {alternate : String → List Line} (framed : Line.Framed level lines)
    (alternates : ∀ continued, Line.follow (alternate continued) =
      '\n' :: (indentation level ++ (continued ++ " ").toList ++ code)) :
    Line.follow (elseLines lines alternate) = Line.follow lines ++ " else ".toList ++ code := by
  obtain ⟨-, front, last, rfl⟩ := framed
  simp [elseLines, alternates]

end Follow

mutual

theorem follow_emitWith (level : Nat) : (header : Option String) → (s : Stmt) →
    Line.follow (Stmt.emitWith level header s) =
      '\n' :: (indentation level ++ (headerText header).toList ++ s.code level)
  | header, .block body => by
    simp [Stmt.emitWith, Stmt.code, blockLines, follow_emitList (level + 1) body, headerText,
      closingLine]
  | header, .expr value => by
    rw [Stmt.emitWith, Stmt.code]
    exact follow_attach header ⟨⟨_, [], rfl⟩, [], _, rfl⟩ (by simp)
  | header, .letDecl name value => by
    rw [Stmt.emitWith, Stmt.code]
    exact follow_attach header ⟨⟨_, [], rfl⟩, [], _, rfl⟩ (by simp)
  | header, .ret value => by
    rw [Stmt.emitWith, Stmt.code]
    exact follow_attach header ⟨⟨_, [], rfl⟩, [], _, rfl⟩ (by simp)
  | header, .function ⟨name, params, body⟩ => by
    rw [Stmt.emitWith, Stmt.code]
    exact follow_attach header (by rw [Stmt.emitRoutine]; exact blockLines_framed _ _)
      (follow_emitRoutine level _ ⟨name, params, body⟩)
  | header, .classDecl name methods => by
    rw [Stmt.emitWith, Stmt.code]
    exact follow_attach header (blockLines_framed _ _)
      (by simp [blockLines, follow_emitMethods (level + 1) methods, closingLine])
  | header, .ifElse test consequent none => by
    rw [Stmt.emitWith, Stmt.code]
    exact follow_attach header (emitWith_framed level _ consequent)
      (by simp [follow_emitWith level _ consequent, headerText])
  | header, .ifElse test consequent (some alternate) => by
    rw [Stmt.emitWith, Stmt.code]
    refine follow_attach header (elseLines_framed (emitWith_framed level _ consequent)
      fun continued => emitWith_framed level (some continued) alternate) ?_
    rw [follow_elseLines (emitWith_framed level _ consequent)
      fun continued => follow_emitWith level (some continued) alternate]
    simp [follow_emitWith level _ consequent, headerText]
  | header, .whileLoop test body => by
    rw [Stmt.emitWith, Stmt.code]
    exact follow_attach header (emitWith_framed level _ body)
      (by simp [follow_emitWith level _ body, headerText])
  | header, .forEach element collection body => by
    rw [Stmt.emitWith, Stmt.code]
    exact follow_attach header (emitWith_framed level _ body)
      (by simp [follow_emitWith level _ body, headerText])

theorem follow_emitList (level : Nat) : (ss : List Stmt) →
    Line.follow (Stmt.emitList level ss) = Stmt.codeList level ss
  | [] => rfl
  | s :: ss => by
    simp [Stmt.emitList, Stmt.codeList, follow_emitWith level none s, follow_emitList level ss,
      headerText]

theorem follow_emitRoutine (level : Nat) (head : String) : (d : FunctionDef Stmt) →
    Line.follow (Stmt.emitRoutine level head d) =
      '\n' :: (indentation level ++ Stmt.routineCode level head d)
  | ⟨name, params, body⟩ => by
    simp [Stmt.emitRoutine, Stmt.routineCode, blockLines, follow_emitList (level + 1) body,
      closingLine]

theorem follow_emitMethods (level : Nat) : (ms : List (FunctionDef Stmt)) →
    Line.follow (Stmt.emitMethods level ms) = Stmt.methodsCode level ms
  | [] => rfl
  | m :: ms => by
    simp [Stmt.emitMethods, Stmt.methodsCode, follow_emitRoutine level _ m,
      follow_emitMethods level ms]

end

/-- The generated code of a program, after a line break, is the code of its statements. -/
theorem generate_toList {program : Program} (filled : program.body ≠ []) :
    '\n' :: program.generate.toList = Stmt.codeList 0 program.body := by
  obtain ⟨s, ss, whole⟩ := List.exists_cons_of_ne_nil filled
  have lines : Stmt.emitList 0 program.body ≠ [] := by
    rw [whole, Stmt.emitList]
    exact List.append_ne_nil_of_left_ne_nil (emitWith_framed 0 none s).ne_nil _
  rw [Program.generate, Program.emit, ← Line.follow_eq_join lines, follow_emitList]

theorem generate_of_empty {program : Program} (empty : program.body = []) :
    program.generate = "" := by
  simp [Program.generate, Program.emit, empty, Stmt.emitList, Line.join]

end VieCompiler
