import VieCompiler.Proofs.Rendering
import VieCompiler.Proofs.LexicalGrammar
import VieCompiler.Proofs.Statements

/-!
# Indentation follows the braces

Every line of generated code is indented by two spaces for each brace left open before it,
outside string literals, one level less when it starts with a closing brace; the braces all
close by the end; and no line starts or ends with a space (`generate_indentation`).

The lines come from one counter, the level, raised by blocks, class bodies and function
bodies, while inline bodies join their header's line and an alternative joins the last line
of its consequent. Three invariants of `Stmt.emitWith` carry the law through every nesting:

* the lines of the bare tree (`Stmt.bare`, with its string literals emptied) are
  `Balanced`: each at the brace depth before it, less one when it starts with `}`, and
  back at the statement's level after the last one;
* the lines of the tree itself are `Line.Clean`: no line break in them, and no space at
  either end;
* both have the same levels and start with `}` at the same places (`Line.shape`).
-/

namespace VieCompiler

/-- How much a text raises the brace depth: its opening braces less its closing ones. -/
def braceBalance (text : List Char) : Int :=
  (text.count '\x7b' : Int) - text.count '\x7d'

/-- Whether a text starts with a closing brace. -/
def startsClosed (text : String) : Bool :=
  text.toList.head? == some '\x7d'

/-- One level less for a line that starts with a closing brace. -/
def closingStep (text : String) : Int :=
  if startsClosed text then 1 else 0

/-- Whether a character leaves the layout of a line alone: it is no line break and no
brace. -/
def isPlainChar (c : Char) : Bool :=
  c != '\n' && c != '\x7b' && c != '\x7d'

/-- A text with no line break and no brace. -/
def Plain (text : String) : Prop :=
  ∀ c ∈ text.toList, isPlainChar c

namespace Line

/-- The brace depth after `lines`, from `depth` before them. -/
def depthAfter (depth : Int) (lines : List Line) : Int :=
  depth + (lines.map fun line => braceBalance line.text.toList).sum

/-- Each of the lines is at the brace depth before it, one level less when it starts with a
closing brace. -/
def Indented : Int → List Line → Prop
  | _, [] => True
  | depth, line :: rest =>
    (line.level : Int) = depth - closingStep line.text ∧
      Indented (depth + braceBalance line.text.toList) rest

/-- The level of a line and whether it starts with a closing brace. -/
def shape (line : Line) : Nat × Bool :=
  (line.level, startsClosed line.text)

end Line

section Texts

variable {t u : String}

theorem braceBalance_append (a b : List Char) :
    braceBalance (a ++ b) = braceBalance a + braceBalance b := by
  simp only [braceBalance, List.count_append]
  omega

theorem braceBalance_plain (plain : Plain t) : braceBalance t.toList = 0 := by
  have opening : '\x7b' ∉ t.toList := fun mem => by simpa [isPlainChar] using plain _ mem
  have closing : '\x7d' ∉ t.toList := fun mem => by simpa [isPlainChar] using plain _ mem
  simp [braceBalance, List.count_eq_zero_of_not_mem opening,
    List.count_eq_zero_of_not_mem closing]

theorem startsClosed_plain (plain : Plain t) : startsClosed t = false := by
  cases first : t.toList with
  | nil => simp [startsClosed, first]
  | cons c rest =>
    have := plain c (by simp [first])
    simp only [isPlainChar, bne_iff_ne, ne_eq, Bool.and_eq_true] at this
    simp [startsClosed, first, this.2]

/-- Text after a space does not change whether a line starts with a closing brace. -/
theorem startsClosed_append_spaced (spaced : u.toList.head? = some ' ') :
    startsClosed (t ++ u) = startsClosed t := by
  cases first : t.toList with
  | nil => simp [startsClosed, first, spaced]
  | cons c rest => simp [startsClosed, first]

/-- Joining two texts with a space keeps the start of the first. -/
theorem startsClosed_spaced : startsClosed (t ++ " " ++ u) = startsClosed t := by
  rw [String.append_assoc]
  exact startsClosed_append_spaced (by simp [String.toList_append])

theorem braceBalance_spaced :
    braceBalance (t ++ " " ++ u).toList = braceBalance t.toList + braceBalance u.toList := by
  have space : braceBalance " ".toList = 0 := by decide
  simp only [String.toList_append, braceBalance_append, space, Int.add_zero]

theorem newline_not_mem_spaced (first : '\n' ∉ t.toList) (second : '\n' ∉ u.toList) :
    '\n' ∉ (t ++ " " ++ u).toList := by
  have space : '\n' ∉ " ".toList := by decide
  simp only [String.toList_append, List.mem_append, not_or]
  exact ⟨⟨first, space⟩, second⟩

theorem plain_append (first : Plain t) (second : Plain u) : Plain (t ++ u) := by
  intro c mem
  rw [String.toList_append, List.mem_append] at mem
  rcases mem with mem | mem
  · exact first c mem
  · exact second c mem

theorem plain_append_iff : Plain (t ++ u) ↔ Plain t ∧ Plain u := by
  simp only [Plain, String.toList_append, List.forall_mem_append]

/-- What holds of a text holds of every header that is that text. -/
theorem forall_mem_some {P : String → Prop} (holds : P t) : ∀ u ∈ some t, P u := by
  rintro u ⟨⟩
  exact holds

theorem plain_of_all (all : t.toList.all isPlainChar) : Plain t :=
  List.all_eq_true.mp all

end Texts

namespace Line

theorem indented_append (depth : Int) (front back : List Line) :
    Indented depth (front ++ back) ↔ Indented depth front ∧ Indented (depthAfter depth front) back := by
  induction front generalizing depth with
  | nil => simp [Indented, depthAfter]
  | cons line front ih =>
    simp only [List.cons_append, Indented, ih, depthAfter, List.map_cons, List.sum_cons, and_assoc]
    rw [Int.add_assoc]

theorem depthAfter_cons (depth : Int) (line : Line) (rest : List Line) :
    depthAfter depth (line :: rest) = depthAfter (depth + braceBalance line.text.toList) rest := by
  simp only [depthAfter, List.map_cons, List.sum_cons]
  omega

theorem depthAfter_append (depth : Int) (front back : List Line) :
    depthAfter depth (front ++ back) = depthAfter (depthAfter depth front) back := by
  simp only [depthAfter, List.map_append, List.sum_append]
  omega

end Line

/-- The lines of a statement of `level` in the tree with its string literals emptied: each
at the brace depth before it, less one when it starts with a closing brace, back at `level`
after the last, the first not a closing one, and none with a line break. -/
structure Balanced (level : Nat) (lines : List Line) : Prop where
  indented : Line.Indented level lines
  closes : Line.depthAfter level lines = level
  opens : ∀ first ∈ lines.head?, startsClosed first.text = false
  oneLine : ∀ line ∈ lines, '\n' ∉ line.text.toList

section Balance

variable {level : Nat} {lines : List Line}

theorem balanced_nil : Balanced level [] where
  indented := trivial
  closes := by simp [Line.depthAfter]
  opens := by simp
  oneLine := by simp

theorem Balanced.append {more : List Line} (first : Balanced level lines)
    (second : Balanced level more) : Balanced level (lines ++ more) where
  indented := by
    rw [Line.indented_append, first.closes]
    exact ⟨first.indented, second.indented⟩
  closes := by rw [Line.depthAfter_append, first.closes, second.closes]
  opens := by
    cases lines with
    | nil => exact second.opens
    | cons line rest => exact first.opens
  oneLine := by
    intro line mem
    rcases List.mem_append.mp mem with mem | mem
    · exact first.oneLine line mem
    · exact second.oneLine line mem

theorem balanced_single {text : String} (plain : Plain text) : Balanced level [⟨level, text⟩] where
  indented := by simp [Line.Indented, closingStep, startsClosed_plain plain]
  closes := by simp [Line.depthAfter, braceBalance_plain plain]
  opens := by simp [startsClosed_plain plain]
  oneLine := by
    intro line mem
    rw [List.mem_singleton] at mem
    subst mem
    intro newline
    simpa [isPlainChar] using plain _ newline

theorem startsClosed_opening {header : String} (plain : Plain header) :
    startsClosed (header ++ "\x7b") = false := by
  cases first : header.toList with
  | nil => simp [startsClosed, first]
  | cons c rest =>
    have := startsClosed_plain plain
    simp_all [startsClosed]

/-- A block opens on its header's line and closes on a line of its own, at the level of the
header. -/
theorem balanced_blockLines {header : String} {body : List Line} (plain : Plain header)
    (inner : Balanced (level + 1) body) : Balanced level (blockLines level header body) where
  indented := by
    have opening : braceBalance (header ++ "\x7b").toList = 1 := by
      rw [String.toList_append, braceBalance_append, braceBalance_plain plain]
      rfl
    have innerIndented := inner.indented
    have innerCloses := inner.closes
    push_cast at innerIndented innerCloses
    simp only [blockLines, List.cons_append, Line.Indented]
    refine ⟨by simp [closingStep, startsClosed_opening plain], ?_⟩
    rw [opening, Line.indented_append, innerCloses]
    exact ⟨innerIndented, by simp [Line.Indented, closingStep, startsClosed]⟩
  closes := by
    have innerCloses := inner.closes
    push_cast at innerCloses
    simp only [blockLines, Line.depthAfter, List.map_cons, List.map_append, List.sum_cons,
      List.sum_append] at innerCloses ⊢
    rw [String.toList_append, braceBalance_append, braceBalance_plain plain]
    have : braceBalance "\x7b".toList = 1 := by decide
    have : braceBalance "\x7d".toList = -1 := by decide
    simp only [List.map_nil, List.sum_nil]
    omega
  opens := by simp [blockLines, startsClosed_opening plain]
  oneLine := by
    intro line mem
    simp only [blockLines, List.mem_cons, List.mem_append, List.not_mem_nil, or_false] at mem
    rcases mem with (rfl | mem) | rfl
    · intro newline
      rw [String.toList_append, List.mem_append] at newline
      rcases newline with inHeader | inBrace
      · simpa [isPlainChar] using plain _ inHeader
      · simp at inBrace
    · exact inner.oneLine line mem
    · simp

/-- Two neighbouring lines may become one at the level of the first, when it keeps the start of
the first and the braces of both. -/
theorem Balanced.merge {front rest : List Line} {first second merged : Line}
    (balanced : Balanced level (front ++ first :: second :: rest))
    (sameLevel : merged.level = first.level)
    (sameStart : startsClosed merged.text = startsClosed first.text)
    (sameBraces : braceBalance merged.text.toList =
      braceBalance first.text.toList + braceBalance second.text.toList)
    (oneLine : '\n' ∉ merged.text.toList) : Balanced level (front ++ merged :: rest) where
  indented := by
    have indented := balanced.indented
    rw [Line.indented_append] at indented ⊢
    obtain ⟨before, firstAt, -, after⟩ := indented
    refine ⟨before, ?_, ?_⟩
    · rw [sameLevel, firstAt, closingStep, closingStep, sameStart]
    · rwa [sameBraces, ← Int.add_assoc]
  closes := by
    have closes := balanced.closes
    rw [Line.depthAfter_append, Line.depthAfter_cons, Line.depthAfter_cons] at closes
    rwa [Line.depthAfter_append, Line.depthAfter_cons, sameBraces, ← Int.add_assoc]
  opens := by
    cases front with
    | nil =>
      intro line found
      cases found
      rw [sameStart]
      exact balanced.opens first rfl
    | cons line front => exact balanced.opens
  oneLine := by
    intro line mem
    rcases List.mem_append.mp mem with mem | mem
    · exact balanced.oneLine line (List.mem_append_left _ mem)
    rcases List.mem_cons.mp mem with rfl | mem
    · exact oneLine
    · exact balanced.oneLine line (by simp [mem])

/-- A header joins the first line of the statement it governs. -/
theorem Balanced.attach {header : Option String} (plain : ∀ t ∈ header, Plain t)
    (balanced : Balanced level lines) : Balanced level (attach level header lines) := by
  rcases header with _ | header
  · exact balanced
  have headerLine : Balanced level [⟨level, header⟩] := balanced_single (plain header rfl)
  cases lines with
  | nil => exact headerLine
  | cons line rest =>
    have joined : Balanced level ([] ++ ⟨level, header⟩ :: line :: rest) := headerLine.append balanced
    refine joined.merge rfl startsClosed_spaced braceBalance_spaced ?_
    refine newline_not_mem_spaced (fun newline => ?_) (balanced.oneLine line List.mem_cons_self)
    simpa [isPlainChar] using plain header rfl _ newline

/-- An alternative joins the last line of its consequent, after `else`. -/
theorem Balanced.elseLines {more : List Line} (consequent : Balanced level lines)
    (framed : Line.Framed level lines) (alternate : Balanced level more) (filled : more ≠ []) :
    Balanced level (VieCompiler.elseLines lines fun continued =>
      VieCompiler.attach level (some continued) more) := by
  obtain ⟨-, front, last, rfl⟩ := framed
  obtain ⟨line, rest, rfl⟩ := List.exists_cons_of_ne_nil filled
  have joined : Balanced level (front ++ ⟨level, last⟩ :: line :: rest) := by
    simpa using consequent.append alternate
  have elseWord : braceBalance " else".toList = 0 := by decide
  have lastLine : '\n' ∉ last.toList := consequent.oneLine ⟨level, last⟩ (by simp)
  simp only [VieCompiler.elseLines, List.getLast?_append, List.getLast?_singleton,
    Option.some_or, List.dropLast_concat, VieCompiler.attach]
  refine joined.merge rfl ?_ ?_ ?_
  · rw [startsClosed_spaced]
    exact startsClosed_append_spaced (by decide)
  · rw [braceBalance_spaced, String.toList_append, braceBalance_append, elseWord, Int.add_zero]
  · refine newline_not_mem_spaced ?_ (alternate.oneLine line List.mem_cons_self)
    simpa [String.toList_append] using lastLine

end Balance

section Names

variable {p : Char → Prop}

theorem isWord_wordChars {chars : List Char} (word : isWord chars) :
    ∀ c ∈ chars, isWordChar c := by
  cases chars with
  | nil => cases word
  | cons first rest =>
    simp only [isWord, Bool.and_eq_true, List.all_eq_true] at word
    intro c mem
    rcases List.mem_cons.mp mem with rfl | mem
    · exact isWordChar_of_isWordStart word.1
    · exact word.2 c mem

/-- The characters of the names the lexer reads: a lone `!`, or word characters, which pass
every test the lexer makes for marks. -/
theorem lexical_name_chars {n : String} (named : Leaves.lexical.name n) :
    ∀ c ∈ n.toList, c = '!' ∨ PassesMarks c := by
  rcases named with rfl | ⟨word, -⟩
  · intro c mem
    left
    simpa using mem
  · exact fun c mem => .inr (wordChar_passes (isWord_wordChars word c mem))

/-- A property of characters holds of all that the text of an expression over the lexer's
leaves holds outside its string literals once it holds of `!`, of the characters that pass
the tests for marks, and of the fixed pieces. -/
theorem charsOutside_lexical (bang : p '!') (marks : ∀ c, PassesMarks c → p c)
    (code : ∀ c ∈ codeChars, p c) : CharsOutside p Leaves.lexical where
  digit c isDigit := marks c (wordChar_passes (isWordChar_of_isDigit isDigit))
  code := code
  name n named c mem := by
    rcases lexical_name_chars named c mem with rfl | passes
    · exact bang
    · exact marks c passes

theorem passesMarks_plain {c : Char} (marks : PassesMarks c) : isPlainChar c := by
  have opening : c ≠ '\x7b' := by
    rintro rfl
    cases marks.single
  have closing : c ≠ '\x7d' := by
    rintro rfl
    cases marks.single
  simp [isPlainChar, marks.newline, opening, closing]

theorem plainChars : CharsOutside (fun c => isPlainChar c) Leaves.lexical :=
  charsOutside_lexical (by decide) (fun _ => passesMarks_plain)
    (forall_mem_of_all_decide (by decide))

theorem lexical_empty : Leaves.lexical.string "" :=
  .inl (by simp)

theorem plain_bare_render {e : Expr} (good : e.WellFormed Leaves.lexical) : Plain e.bare.render :=
  Expr.bare_render_chars plainChars lexical_empty good

theorem plain_lexical_name {n : String} (named : Leaves.lexical.name n) : Plain n :=
  plainChars.name n named

theorem intercalate_params_chars (comma : p ',') (space : p ' ') {params : List String}
    (all : ∀ q ∈ params, ∀ c ∈ q.toList, p c) : ∀ c ∈ (", ".intercalate params).toList, p c := by
  cases params with
  | nil => simp
  | cons first rest =>
    rw [intercalate_params_toList]
    intro c mem
    simp only [List.mem_append, List.mem_flatMap, List.mem_cons] at mem
    rcases mem with mem | ⟨q, listed, rfl | rfl | mem⟩
    · exact all first List.mem_cons_self c mem
    · exact comma
    · exact space
    · exact all q (List.mem_cons_of_mem _ listed) c mem

end Names

section Emit

theorem emitWith_some (level : Nat) (text : String) (s : Stmt) :
    Stmt.emitWith level (some text) s = attach level (some text) (Stmt.emitWith level none s) := by
  cases s with
  | block body => simp [Stmt.emitWith, blockLines, attach, String.append_assoc]
  | ifElse test consequent alternate => cases alternate <;> simp [Stmt.emitWith, attach]
  | _ => simp [Stmt.emitWith, attach]

/-- A routine's header holds no brace and no line break when its name and parameters do not. -/
theorem plain_routineHeader {head : String} {params : List String} (plainHead : Plain head)
    (named : ∀ q ∈ params, Leaves.lexical.name q) :
    Plain (head ++ "(" ++ ", ".intercalate params ++ ") ") := by
  have listed : Plain (", ".intercalate params) :=
    intercalate_params_chars (by decide) (by decide) fun q mem => plain_lexical_name (named q mem)
  simp only [plain_append_iff]
  exact ⟨⟨⟨plainHead, plain_of_all (by decide)⟩, listed⟩, plain_of_all (by decide)⟩

/-- The header of a conditional or a loop: an opening, the bare test, and a parenthesis. -/
theorem plain_guard {opening : String} {test : Expr} (plainOpening : Plain opening)
    (tested : test.WellFormed Leaves.lexical) : Plain (opening ++ test.bare.render ++ ")") := by
  simp only [plain_append_iff]
  exact ⟨⟨plainOpening, plain_bare_render tested⟩, plain_of_all (by decide)⟩

mutual

/-- The lines of a statement with its string literals emptied are balanced, under a header
with no brace and no line break. -/
theorem Stmt.bare_balanced (level : Nat) (header : Option String)
    (plain : ∀ t ∈ header, Plain t) :
    (s : Stmt) → s.WellFormed Leaves.lexical → Balanced level (Stmt.emitWith level header s.bare)
  | .block body, good => by
    rw [Stmt.bare, Stmt.emitWith]
    refine balanced_blockLines ?_ (Stmt.bareList_balanced (level + 1) body good)
    cases header with
    | none => exact plain_of_all (by decide)
    | some t => exact plain_append (plain t rfl) (plain_of_all (by decide))
  | .expr value, good => by
    rw [Stmt.bare, Stmt.emitWith]
    refine (balanced_single ?_).attach plain
    exact plain_append (plain_bare_render good) (plain_of_all (by decide))
  | .letDecl name value, ⟨named, good⟩ => by
    rw [Stmt.bare, Stmt.emitWith]
    refine (balanced_single ?_).attach plain
    simp only [plain_append_iff]
    refine ⟨⟨⟨⟨?_, plain_lexical_name named⟩, ?_⟩, plain_bare_render good⟩, ?_⟩
    all_goals exact plain_of_all (by decide)
  | .ret value, good => by
    rw [Stmt.bare, Stmt.emitWith]
    refine (balanced_single ?_).attach plain
    simp only [plain_append_iff]
    exact ⟨⟨plain_of_all (by decide), plain_bare_render good⟩, plain_of_all (by decide)⟩
  | .function ⟨name, params, body⟩, good => by
    rw [Stmt.bare, Stmt.emitWith]
    refine (Stmt.bareRoutine_balanced level _ ?_ ⟨name, params, body⟩ good).attach plain
    exact plain_append (plain_of_all (by decide)) (plain_lexical_name good.1)
  | .classDecl name methods, ⟨named, good⟩ => by
    rw [Stmt.bare, Stmt.emitWith]
    refine (balanced_blockLines ?_ (Stmt.bareMethods_balanced (level + 1) methods good)).attach
      plain
    simp only [plain_append_iff]
    exact ⟨⟨plain_of_all (by decide), plain_lexical_name named⟩, plain_of_all (by decide)⟩
  | .ifElse test consequent none, ⟨tested, good⟩ => by
    rw [Stmt.bare, Stmt.emitWith]
    have ifHeader : Plain ("if (" ++ test.bare.render ++ ")") :=
      plain_guard (plain_of_all (by decide)) tested
    exact (Stmt.bare_balanced level _ (forall_mem_some ifHeader) consequent good).attach plain
  | .ifElse test consequent (some alternate), ⟨tested, good, otherwise⟩ => by
    rw [Stmt.bare, Stmt.emitWith]
    have ifHeader : Plain ("if (" ++ test.bare.render ++ ")") :=
      plain_guard (plain_of_all (by decide)) tested
    have consequentLines :=
      Stmt.bare_balanced level _ (forall_mem_some ifHeader) consequent good
    -- the alternative joins the consequent's last line
    simp only [emitWith_some level _ alternate.bare]
    exact (consequentLines.elseLines (emitWith_framed level _ _)
      (Stmt.bare_balanced level none (by simp) alternate otherwise)
      (emitWith_framed level none _).ne_nil).attach plain
  | .whileLoop test body, ⟨tested, good⟩ => by
    rw [Stmt.bare, Stmt.emitWith]
    have whileHeader : Plain ("while (" ++ test.bare.render ++ ")") :=
      plain_guard (plain_of_all (by decide)) tested
    exact (Stmt.bare_balanced level _ (forall_mem_some whileHeader) body good).attach plain
  | .forEach element collection body, ⟨named, listed, good⟩ => by
    rw [Stmt.bare, Stmt.emitWith]
    have opening : Plain ("for (const " ++ element ++ " of ") := by
      simp only [plain_append_iff]
      exact ⟨⟨plain_of_all (by decide), plain_lexical_name named⟩, plain_of_all (by decide)⟩
    have forHeader := plain_guard opening listed
    exact (Stmt.bare_balanced level _ (forall_mem_some forHeader) body good).attach plain

theorem Stmt.bareList_balanced (level : Nat) :
    (ss : List Stmt) → Stmt.ListWellFormed Leaves.lexical ss →
      Balanced level (Stmt.emitList level (Stmt.bareList ss))
  | [], _ => balanced_nil
  | s :: ss, ⟨good, rest⟩ => by
    rw [Stmt.bareList, Stmt.emitList]
    exact (Stmt.bare_balanced level none (by simp) s good).append
      (Stmt.bareList_balanced level ss rest)

theorem Stmt.bareRoutine_balanced (level : Nat) (head : String) (plainHead : Plain head) :
    (definition : FunctionDef Stmt) → Stmt.RoutineWellFormed Leaves.lexical definition →
      Balanced level (Stmt.emitRoutine level head (Stmt.bareRoutine definition))
  | ⟨name, params, body⟩, ⟨_, named, good⟩ => by
    rw [Stmt.bareRoutine, Stmt.emitRoutine]
    exact balanced_blockLines (plain_routineHeader plainHead named)
      (Stmt.bareList_balanced (level + 1) body good)

theorem Stmt.bareMethods_balanced (level : Nat) :
    (methods : List (FunctionDef Stmt)) → Stmt.MethodsWellFormed Leaves.lexical methods →
      Balanced level (Stmt.emitMethods level (Stmt.bareMethods methods))
  | [], _ => balanced_nil
  | m :: ms, ⟨good, rest⟩ => by
    rw [Stmt.bareMethods, Stmt.emitMethods]
    have plainName : Plain (methodName (Stmt.bareRoutine m).name) := by
      obtain ⟨name, params, body⟩ := m
      unfold methodName
      split
      · exact plain_of_all (by decide)
      · exact plain_lexical_name good.1
    exact (Stmt.bareRoutine_balanced level _ plainName m good).append
      (Stmt.bareMethods_balanced level ms rest)

end

end Emit

/-- A text as a line of generated code holds it: no line break, and a first and a last
character that are no space. -/
structure Clean (text : String) : Prop where
  oneLine : '\n' ∉ text.toList
  first : ∃ c ∈ text.toList.head?, c ≠ ' '
  last : ∃ c ∈ text.toList.getLast?, c ≠ ' '

/-- No string literal of the expressions holds a line break. -/
def LiteralsOneLine (exprs : List Expr) : Prop :=
  ∀ e ∈ exprs, ∀ v ∈ e.stringLiterals, '\n' ∉ v.toList

section Clean

variable {t u : String} {level : Nat} {lines : List Line}

theorem clean_spaced (first : Clean t) (second : Clean u) : Clean (t ++ " " ++ u) where
  oneLine := newline_not_mem_spaced first.oneLine second.oneLine
  first := by
    obtain ⟨c, found, notSpace⟩ := first.first
    exact ⟨c, by simp [String.toList_append, List.head?_append, Option.mem_def.mp found],
      notSpace⟩
  last := by
    obtain ⟨c, found, notSpace⟩ := second.last
    rw [String.toList_append, List.getLast?_append, Option.mem_def.mp found]
    exact ⟨c, rfl, notSpace⟩

/-- A text that starts with no space stays clean when a clean mark ends it: the brace that
opens a block, the semicolon of a statement, the parenthesis of a test. -/
theorem clean_marked (oneLine : '\n' ∉ t.toList) (first : ∀ c ∈ t.toList.head?, c ≠ ' ')
    (mark : Clean u) : Clean (t ++ u) where
  oneLine := by simp [String.toList_append, oneLine, mark.oneLine]
  first := by
    cases start : t.toList with
    | nil => simpa [String.toList_append, start] using mark.first
    | cons c rest =>
      exact ⟨c, by simp [String.toList_append, start], first c (by simp [start])⟩
  last := by
    obtain ⟨c, found, notSpace⟩ := mark.last
    rw [String.toList_append, List.getLast?_append, Option.mem_def.mp found]
    exact ⟨c, rfl, notSpace⟩

theorem clean_closing : Clean "\x7d" where
  oneLine := by decide
  first := by simp
  last := by simp

theorem Clean.attach {header : Option String} (clean : ∀ t ∈ header, Clean t)
    (lines_clean : ∀ line ∈ lines, Clean line.text) :
    ∀ line ∈ attach level header lines, Clean line.text := by
  rcases header with _ | header
  · exact lines_clean
  cases lines with
  | nil =>
    intro line mem
    rw [VieCompiler.attach, List.mem_singleton] at mem
    subst mem
    exact clean header rfl
  | cons first rest =>
    intro line mem
    rw [VieCompiler.attach, List.mem_cons] at mem
    rcases mem with rfl | mem
    · exact clean_spaced (clean header rfl) (lines_clean first List.mem_cons_self)
    · exact lines_clean line (List.mem_cons_of_mem _ mem)

theorem Clean.blockLines {header : String} {body : List Line} (oneLine : '\n' ∉ header.toList)
    (first : ∀ c ∈ header.toList.head?, c ≠ ' ') (inner : ∀ line ∈ body, Clean line.text) :
    ∀ line ∈ blockLines level header body, Clean line.text := by
  intro line mem
  simp only [VieCompiler.blockLines, List.cons_append, List.mem_cons, List.mem_append,
    List.not_mem_nil, or_false] at mem
  rcases mem with rfl | mem | rfl
  · exact clean_marked oneLine first ⟨by decide, by simp, by simp⟩
  · exact inner line mem
  · exact clean_closing

/-- The word that continues the last line of a consequent keeps it clean. -/
theorem clean_else (clean : Clean t) : Clean (t ++ " else") where
  oneLine := by simp [String.toList_append, clean.oneLine]
  first := by
    obtain ⟨c, found, notSpace⟩ := clean.first
    exact ⟨c, by simp [String.toList_append, List.head?_append, Option.mem_def.mp found],
      notSpace⟩
  last := by simp [String.toList_append, List.getLast?_append]

theorem Clean.elseLines {alternate : String → List Line}
    (consequent : ∀ line ∈ lines, Clean line.text)
    (alternates : ∀ t, Clean t → ∀ line ∈ alternate t, Clean line.text) :
    ∀ line ∈ elseLines lines alternate, Clean line.text := by
  unfold VieCompiler.elseLines
  split
  · rename_i last found
    intro line mem
    rcases List.mem_append.mp mem with mem | mem
    · exact consequent line (List.dropLast_subset _ mem)
    · exact alternates _ (clean_else (consequent last (List.mem_of_getLast? found))) line mem
  · exact alternates "else" ⟨by decide, by simp, by simp⟩

@[simp]
theorem literalsOneLine_append {exprs more : List Expr} :
    LiteralsOneLine (exprs ++ more) ↔ LiteralsOneLine exprs ∧ LiteralsOneLine more :=
  List.forall_mem_append

@[simp]
theorem literalsOneLine_cons {e : Expr} {exprs : List Expr} :
    LiteralsOneLine (e :: exprs) ↔
      (∀ v ∈ e.stringLiterals, '\n' ∉ v.toList) ∧ LiteralsOneLine exprs :=
  List.forall_mem_cons

theorem lineChars : CharsOutside (· ≠ '\n') Leaves.lexical :=
  charsOutside_lexical (by decide) (fun _ marks => marks.newline)
    (forall_mem_of_all_decide (by decide))

theorem Expr.render_oneLine {e : Expr} (good : e.WellFormed Leaves.lexical)
    (literals : ∀ v ∈ e.stringLiterals, '\n' ∉ v.toList) : '\n' ∉ e.render.toList :=
  fun mem => Expr.render_chars lineChars e good
    (fun v listed _ inside same => literals v listed (same ▸ inside)) '\n' mem rfl

theorem passesMarks_startsLine {c : Char} (marks : PassesMarks c) : startsLine c := by
  have space : c ≠ ' ' := fun same => marks.blank (.inl same)
  have closing : c ≠ '\x7d' := by
    rintro rfl
    cases marks.single
  simp [startsLine, space, closing]

theorem lexical_startsLine (n : String) (named : Leaves.lexical.name n) :
    ∀ c ∈ n.toList.head?, startsLine c := by
  intro c found
  rcases lexical_name_chars named c (List.mem_of_mem_head? found) with rfl | marks
  · decide
  · exact passesMarks_startsLine marks

theorem Expr.render_starts {e : Expr} (good : e.WellFormed Leaves.lexical) :
    ∀ c ∈ e.render.toList.head?, c ≠ ' ' := fun c found => by
  have starts := Expr.render_head lexical_startsLine e good c found
  simp only [startsLine, bne_iff_ne, ne_eq, Bool.and_eq_true] at starts
  exact starts.1

theorem name_oneLine {n : String} (named : Leaves.lexical.name n) : '\n' ∉ n.toList :=
  fun mem => lineChars.name n named '\n' mem rfl

theorem starts_append (first : ∃ c ∈ t.toList.head?, c ≠ ' ') :
    ∀ d ∈ (t ++ u).toList.head?, d ≠ ' ' := by
  obtain ⟨c, found, notSpace⟩ := first
  intro d starts
  rw [String.toList_append, List.head?_append, Option.mem_def.mp found] at starts
  cases starts
  exact notSpace

/-- The header of a conditional or a loop: an opening, the test, and a parenthesis. -/
theorem clean_guard {opening : String} {test : Expr} (oneLine : '\n' ∉ opening.toList)
    (first : ∃ c ∈ opening.toList.head?, c ≠ ' ') (tested : '\n' ∉ test.render.toList) :
    Clean (opening ++ test.render ++ ")") := by
  refine clean_marked ?_ (starts_append first) ⟨by decide, by simp, by simp⟩
  simp [String.toList_append, oneLine, tested]

theorem routineHeader_oneLine {head : String} {params : List String}
    (oneLine : '\n' ∉ head.toList) (named : ∀ q ∈ params, Leaves.lexical.name q) :
    '\n' ∉ (head ++ "(" ++ ", ".intercalate params ++ ") ").toList := by
  have listed : '\n' ∉ (", ".intercalate params).toList := fun mem =>
    intercalate_params_chars (p := fun c => c ≠ '\n') (by decide) (by decide)
      (fun q listed => lineChars.name q (named q listed)) '\n' mem rfl
  simp only [String.toList_append, List.mem_append, not_or]
  exact ⟨⟨⟨oneLine, by decide⟩, listed⟩, by decide⟩

theorem methodName_oneLine {name : String} (named : Leaves.lexical.name name) :
    '\n' ∉ (methodName name).toList := by
  unfold methodName
  split
  · decide
  · exact name_oneLine named

/-- A routine's head, `function` and its name or the name of a method, starts with no
space. -/
theorem methodName_starts {name : String} (named : Leaves.lexical.name name) :
    ∀ c ∈ (methodName name).toList.head?, c ≠ ' ' := by
  unfold methodName
  split
  · simp
  · intro c found
    have starts := lexical_startsLine name named c found
    simp only [startsLine, bne_iff_ne, ne_eq, Bool.and_eq_true] at starts
    exact starts.1

mutual

/-- Every line of a statement is clean under a clean header, when no string literal of the
statement holds a line break. -/
theorem Stmt.emitWith_clean (level : Nat) (header : Option String)
    (clean : ∀ t ∈ header, Clean t) :
    (s : Stmt) → s.WellFormed Leaves.lexical → LiteralsOneLine s.exprs →
      ∀ line ∈ Stmt.emitWith level header s, Clean line.text
  | .block body, good, literals => by
    rw [Stmt.emitWith]
    rw [Stmt.exprs] at literals
    refine Clean.blockLines ?_ ?_ (Stmt.emitList_clean (level + 1) body good literals)
    · cases header with
      | none => simp
      | some t => simp [String.toList_append, (clean t rfl).oneLine]
    · cases header with
      | none => simp
      | some t => exact starts_append (clean t rfl).first
  | .expr value, good, literals => by
    rw [Stmt.emitWith]
    simp only [Stmt.exprs, literalsOneLine_cons] at literals
    refine Clean.attach clean (List.forall_mem_singleton.mpr ?_)
    exact clean_marked (Expr.render_oneLine good literals.1) (Expr.render_starts good)
      ⟨by decide, by simp, by simp⟩
  | .letDecl name value, ⟨named, good⟩, literals => by
    rw [Stmt.emitWith]
    simp only [Stmt.exprs, literalsOneLine_cons] at literals
    refine Clean.attach clean (List.forall_mem_singleton.mpr ?_)
    refine clean_marked ?_ (by simp [String.toList_append]) ⟨by decide, by simp, by simp⟩
    simp [String.toList_append, name_oneLine named, Expr.render_oneLine good literals.1]
  | .ret value, good, literals => by
    rw [Stmt.emitWith]
    simp only [Stmt.exprs, literalsOneLine_cons] at literals
    refine Clean.attach clean (List.forall_mem_singleton.mpr ?_)
    refine clean_marked ?_ (by simp [String.toList_append]) ⟨by decide, by simp, by simp⟩
    simp [String.toList_append, Expr.render_oneLine good literals.1]
  | .function ⟨name, params, body⟩, good, literals => by
    rw [Stmt.emitWith]
    rw [Stmt.exprs] at literals
    refine Clean.attach clean (Stmt.emitRoutine_clean level _ ?_ (by simp [String.toList_append])
      ⟨name, params, body⟩ good literals)
    simp [String.toList_append, name_oneLine good.1]
  | .classDecl name methods, ⟨named, good⟩, literals => by
    rw [Stmt.emitWith]
    rw [Stmt.exprs] at literals
    refine Clean.attach clean (Clean.blockLines ?_ (by simp [String.toList_append])
      (Stmt.emitMethods_clean (level + 1) methods good literals))
    simp [String.toList_append, name_oneLine named]
  | .ifElse test consequent none, ⟨tested, good⟩, literals => by
    rw [Stmt.emitWith]
    simp only [Stmt.exprs, literalsOneLine_cons] at literals
    have ifHeader : Clean ("if (" ++ test.render ++ ")") :=
      clean_guard (by decide) (by simp) (Expr.render_oneLine tested literals.1)
    exact Clean.attach clean
      (Stmt.emitWith_clean level _ (forall_mem_some ifHeader) consequent good literals.2)
  | .ifElse test consequent (some alternate), ⟨tested, good, otherwise⟩, literals => by
    rw [Stmt.emitWith]
    simp only [Stmt.exprs, literalsOneLine_cons, literalsOneLine_append] at literals
    have ifHeader : Clean ("if (" ++ test.render ++ ")") :=
      clean_guard (by decide) (by simp) (Expr.render_oneLine tested literals.1)
    -- the alternative continues the consequent's last line, which is clean
    exact Clean.attach clean (Clean.elseLines
      (Stmt.emitWith_clean level _ (forall_mem_some ifHeader) consequent good literals.2.1)
      fun t continued =>
        Stmt.emitWith_clean level (some t) (forall_mem_some continued) alternate otherwise
          literals.2.2)
  | .whileLoop test body, ⟨tested, good⟩, literals => by
    rw [Stmt.emitWith]
    simp only [Stmt.exprs, literalsOneLine_cons] at literals
    have whileHeader : Clean ("while (" ++ test.render ++ ")") :=
      clean_guard (by decide) (by simp) (Expr.render_oneLine tested literals.1)
    exact Clean.attach clean
      (Stmt.emitWith_clean level _ (forall_mem_some whileHeader) body good literals.2)
  | .forEach element collection body, ⟨named, listed, good⟩, literals => by
    rw [Stmt.emitWith]
    simp only [Stmt.exprs, literalsOneLine_cons] at literals
    have forHeader : Clean ("for (const " ++ element ++ " of " ++ collection.render ++ ")") :=
      clean_guard (by simp [String.toList_append, name_oneLine named]) (by simp)
        (Expr.render_oneLine listed literals.1)
    exact Clean.attach clean
      (Stmt.emitWith_clean level _ (forall_mem_some forHeader) body good literals.2)

theorem Stmt.emitList_clean (level : Nat) :
    (ss : List Stmt) → Stmt.ListWellFormed Leaves.lexical ss → LiteralsOneLine (Stmt.exprsList ss) →
      ∀ line ∈ Stmt.emitList level ss, Clean line.text
  | [], _, _ => by simp [Stmt.emitList]
  | s :: ss, ⟨good, rest⟩, literals => by
    rw [Stmt.exprsList, literalsOneLine_append] at literals
    rw [Stmt.emitList]
    intro line mem
    rcases List.mem_append.mp mem with mem | mem
    · exact Stmt.emitWith_clean level none (by simp) s good literals.1 line mem
    · exact Stmt.emitList_clean level ss rest literals.2 line mem

theorem Stmt.emitRoutine_clean (level : Nat) (head : String) (oneLine : '\n' ∉ head.toList)
    (first : ∀ c ∈ head.toList.head?, c ≠ ' ') :
    (definition : FunctionDef Stmt) → Stmt.RoutineWellFormed Leaves.lexical definition →
      LiteralsOneLine (Stmt.routineExprs definition) →
      ∀ line ∈ Stmt.emitRoutine level head definition, Clean line.text
  | ⟨name, params, body⟩, ⟨_, named, good⟩, literals => by
    rw [Stmt.routineExprs] at literals
    rw [Stmt.emitRoutine]
    refine Clean.blockLines (routineHeader_oneLine oneLine named) ?_
      (Stmt.emitList_clean (level + 1) body good literals)
    cases start : head.toList with
    | nil => simp [String.toList_append, start]
    | cons c rest =>
      intro d found
      simp only [String.toList_append, start, List.cons_append, List.head?_cons,
        Option.mem_def, Option.some.injEq] at found
      exact found ▸ first c (by simp [start])

theorem Stmt.emitMethods_clean (level : Nat) :
    (methods : List (FunctionDef Stmt)) → Stmt.MethodsWellFormed Leaves.lexical methods →
      LiteralsOneLine (Stmt.methodExprs methods) →
      ∀ line ∈ Stmt.emitMethods level methods, Clean line.text
  | [], _, _ => by simp [Stmt.emitMethods]
  | m :: ms, ⟨good, rest⟩, literals => by
    rw [Stmt.methodExprs, literalsOneLine_append] at literals
    rw [Stmt.emitMethods]
    have named : Leaves.lexical.name m.name := by
      obtain ⟨name, params, body⟩ := m
      exact good.1
    intro line mem
    rcases List.mem_append.mp mem with mem | mem
    · exact Stmt.emitRoutine_clean level _ (methodName_oneLine named) (methodName_starts named) m
        good literals.1 line mem
    · exact Stmt.emitMethods_clean level ms rest literals.2 line mem

end

end Clean

section Shapes

variable {level : Nat} {lines lines' : List Line}

theorem shape_attach {header header' : Option String}
    (headers : header.map startsClosed = header'.map startsClosed)
    (shapes : lines.map Line.shape = lines'.map Line.shape) :
    (attach level header lines).map Line.shape = (attach level header' lines').map Line.shape := by
  rcases header with _ | t <;> rcases header' with _ | t'
  · exact shapes
  · cases headers
  · cases headers
  have same : startsClosed t = startsClosed t' := Option.some.inj headers
  cases lines <;> cases lines'
  · simp [VieCompiler.attach, Line.shape, same]
  · cases shapes
  · cases shapes
  · simp only [List.map_cons, List.cons.injEq] at shapes
    simp [VieCompiler.attach, Line.shape, startsClosed_spaced, same, shapes.2]

theorem shape_blockLines {header header' : String} {body body' : List Line}
    (opens : startsClosed (header ++ "\x7b") = startsClosed (header' ++ "\x7b"))
    (shapes : body.map Line.shape = body'.map Line.shape) :
    (blockLines level header body).map Line.shape =
      (blockLines level header' body').map Line.shape := by
  simp [VieCompiler.blockLines, Line.shape, opens, shapes]

theorem shape_elseLines {alternate alternate' : String → List Line}
    (shapes : lines.map Line.shape = lines'.map Line.shape)
    (alternates : ∀ t t', startsClosed t = startsClosed t' →
      (alternate t).map Line.shape = (alternate' t').map Line.shape) :
    (elseLines lines alternate).map Line.shape = (elseLines lines' alternate').map Line.shape := by
  have lasts : lines.getLast?.map Line.shape = lines'.getLast?.map Line.shape := by
    rw [← List.getLast?_map, ← List.getLast?_map, shapes]
  have fronts : lines.dropLast.map Line.shape = lines'.dropLast.map Line.shape := by
    rw [List.map_dropLast, List.map_dropLast, shapes]
  unfold VieCompiler.elseLines
  cases found : lines.getLast? <;> cases found' : lines'.getLast? <;>
    rw [found, found'] at lasts <;> simp only [Option.map_none, Option.map_some,
      reduceCtorEq, Option.some.injEq] at lasts
  · exact alternates "else" "else" rfl
  · rename_i last last'
    have same : startsClosed last.text = startsClosed last'.text := congrArg Prod.snd lasts
    have continued : startsClosed (last.text ++ " else") = startsClosed (last'.text ++ " else") := by
      rw [startsClosed_append_spaced (by decide), startsClosed_append_spaced (by decide), same]
    simp only [List.map_append, fronts, alternates _ _ continued]

/-- Whether the line that opens a block starts with a closing brace is whether its header
does. -/
theorem startsClosed_blockHeader (header : Option String) :
    startsClosed ((header.map (· ++ " ")).getD "" ++ "\x7b") = (header.map startsClosed).getD false := by
  cases header with
  | none => decide
  | some t =>
    simp only [Option.map_some, Option.getD_some]
    rw [String.append_assoc]
    exact startsClosed_append_spaced (by simp)

/-- An expression statement does not start with a closing brace. -/
theorem startsClosed_render {e : Expr} (good : e.WellFormed Leaves.lexical) :
    startsClosed (e.render ++ ";") = false := by
  cases start : e.render.toList with
  | nil => simp [startsClosed, String.toList_append, start]
  | cons c rest =>
    have starts := Expr.render_head lexical_startsLine e good c (by simp [start])
    simp only [startsLine, bne_iff_ne, ne_eq, Bool.and_eq_true] at starts
    simp [startsClosed, String.toList_append, start, starts.2]

mutual

/-- The lines of a statement and of the statement with its string literals emptied have the
same levels and start with a closing brace at the same places, under headers that agree on
starting with one. -/
theorem Stmt.emitWith_shapes (level : Nat) {header header' : Option String}
    (headers : header.map startsClosed = header'.map startsClosed) :
    (s : Stmt) → s.WellFormed Leaves.lexical →
      (Stmt.emitWith level header s).map Line.shape =
        (Stmt.emitWith level header' s.bare).map Line.shape
  | .block body, good => by
    rw [Stmt.bare, Stmt.emitWith, Stmt.emitWith]
    refine shape_blockLines ?_ (Stmt.emitList_shapes (level + 1) body good)
    rw [startsClosed_blockHeader, startsClosed_blockHeader, headers]
  | .expr value, good => by
    rw [Stmt.bare, Stmt.emitWith, Stmt.emitWith]
    refine shape_attach headers ?_
    have bareGood := Expr.bare_wellFormed lexical_empty value good
    simp [Line.shape, startsClosed_render good, startsClosed_render bareGood]
  | .letDecl name value, _ => by
    rw [Stmt.bare, Stmt.emitWith, Stmt.emitWith]
    exact shape_attach headers (by simp [Line.shape, startsClosed, String.toList_append])
  | .ret value, _ => by
    rw [Stmt.bare, Stmt.emitWith, Stmt.emitWith]
    exact shape_attach headers (by simp [Line.shape, startsClosed, String.toList_append])
  | .function ⟨name, params, body⟩, ⟨_, _, good⟩ => by
    rw [Stmt.bare, Stmt.emitWith, Stmt.emitWith, Stmt.bareRoutine, Stmt.emitRoutine,
      Stmt.emitRoutine]
    exact shape_attach headers (shape_blockLines rfl (Stmt.emitList_shapes (level + 1) body good))
  | .classDecl name methods, ⟨_, good⟩ => by
    rw [Stmt.bare, Stmt.emitWith, Stmt.emitWith]
    exact shape_attach headers
      (shape_blockLines rfl (Stmt.emitMethods_shapes (level + 1) methods good))
  | .ifElse test consequent none, ⟨_, good⟩ => by
    rw [Stmt.bare, Stmt.emitWith, Stmt.emitWith]
    exact shape_attach headers (Stmt.emitWith_shapes level
      (by simp [startsClosed, String.toList_append]) consequent good)
  | .ifElse test consequent (some alternate), ⟨_, good, otherwise⟩ => by
    rw [Stmt.bare, Stmt.emitWith, Stmt.emitWith]
    refine shape_attach headers (shape_elseLines (Stmt.emitWith_shapes level
      (by simp [startsClosed, String.toList_append]) consequent good) ?_)
    intro t t' same
    exact Stmt.emitWith_shapes level (by simp [same]) alternate otherwise
  | .whileLoop test body, ⟨_, good⟩ => by
    rw [Stmt.bare, Stmt.emitWith, Stmt.emitWith]
    exact shape_attach headers (Stmt.emitWith_shapes level
      (by simp [startsClosed, String.toList_append]) body good)
  | .forEach element collection body, ⟨_, _, good⟩ => by
    rw [Stmt.bare, Stmt.emitWith, Stmt.emitWith]
    exact shape_attach headers (Stmt.emitWith_shapes level
      (by simp [startsClosed, String.toList_append]) body good)

theorem Stmt.emitList_shapes (level : Nat) :
    (ss : List Stmt) → Stmt.ListWellFormed Leaves.lexical ss →
      (Stmt.emitList level ss).map Line.shape =
        (Stmt.emitList level (Stmt.bareList ss)).map Line.shape
  | [], _ => rfl
  | s :: ss, ⟨good, rest⟩ => by
    rw [Stmt.bareList, Stmt.emitList, Stmt.emitList, List.map_append, List.map_append,
      Stmt.emitWith_shapes level rfl s good, Stmt.emitList_shapes level ss rest]

theorem Stmt.emitMethods_shapes (level : Nat) :
    (methods : List (FunctionDef Stmt)) → Stmt.MethodsWellFormed Leaves.lexical methods →
      (Stmt.emitMethods level methods).map Line.shape =
        (Stmt.emitMethods level (Stmt.bareMethods methods)).map Line.shape
  | [], _ => rfl
  | ⟨name, params, body⟩ :: ms, ⟨⟨_, _, good⟩, rest⟩ => by
    rw [Stmt.bareMethods, Stmt.emitMethods, Stmt.emitMethods, List.map_append, List.map_append,
      Stmt.bareRoutine, Stmt.emitRoutine, Stmt.emitRoutine,
      shape_blockLines rfl (Stmt.emitList_shapes (level + 1) body good),
      Stmt.emitMethods_shapes level ms rest]

end

end Shapes

/-- The brace depth that lines of text leave: their opening braces less their closing ones. -/
def braceDepth (lines : List (List Char)) : Int :=
  (lines.map braceBalance).sum

/-- One for a line of text whose first character other than a space is a closing brace. -/
def closingMark (line : List Char) : Int :=
  if (line.dropWhile (· == ' ')).head? = some '\x7d' then 1 else 0

/-- The lines of a program's generated code: its text split at the line breaks. -/
def Program.codeLines (program : Program) : List (List Char) :=
  Diagnostic.splitOn '\n' program.generate.toList

section Text

theorem Diagnostic.splitOn_eq_splitOn (separator : Char) (chars : List Char) :
    Diagnostic.splitOn separator chars = chars.splitOn separator := by
  induction chars with
  | nil => exact (List.splitOn_nil separator).symm
  | cons c rest ih =>
    rw [List.splitOn_cons_eq_if_modifyHead, ← ih]
    by_cases same : c = separator
    · simp [Diagnostic.splitOn, same]
    · cases pieces : Diagnostic.splitOn separator rest with
      | nil =>
        -- splitting always gives a piece
        have filled := List.splitOn_ne_nil separator rest
        rw [← ih, pieces] at filled
        contradiction
      | cons piece pieces => simp [Diagnostic.splitOn, same, pieces]

theorem newline_not_mem_indentation (level : Nat) : '\n' ∉ indentation level := by
  simp [indentation, List.mem_replicate]

/-- Splitting lines joined by line breaks gives back the lines, when none holds a break. -/
theorem splitOn_join {lines : List Line} (filled : lines ≠ [])
    (oneLine : ∀ line ∈ lines, '\n' ∉ line.text.toList) :
    Diagnostic.splitOn '\n' (Line.join lines).toList = lines.map fun line => line.render.toList := by
  have newline : "\n".toList = ['\n'] := by decide
  rw [Diagnostic.splitOn_eq_splitOn, Line.join, String.toList_intercalate, newline, List.map_map]
  apply List.splitOn_intercalate
  · intro piece listed
    obtain ⟨line, mem, rfl⟩ := List.mem_map.mp listed
    simp [newline_not_mem_indentation, oneLine line mem]
  · simpa using filled

theorem braceBalance_render (line : Line) :
    braceBalance line.render.toList = braceBalance line.text.toList := by
  have spaces : braceBalance (indentation line.level) = 0 := by
    simp [braceBalance, indentation, List.count_replicate]
  rw [Line.render_toList, braceBalance_append, spaces, Int.zero_add]

theorem braceDepth_render (lines : List Line) :
    braceDepth (lines.map fun line => line.render.toList) = Line.depthAfter 0 lines := by
  simp only [braceDepth, Line.depthAfter, List.map_map, Int.zero_add]
  congr 1
  exact List.map_congr_left fun line _ => braceBalance_render line

theorem render_clean {line : Line} (clean : Clean line.text) :
    ∃ c rest, line.render.toList = indentation line.level ++ c :: rest ∧
      line.text.toList = c :: rest ∧ c ≠ ' ' := by
  obtain ⟨c, found, notSpace⟩ := clean.first
  obtain ⟨rest, start⟩ : ∃ rest, line.text.toList = c :: rest := by
    cases start : line.text.toList with
    | nil => simp [start] at found
    | cons d rest =>
      simp only [start, List.head?_cons, Option.mem_def, Option.some.injEq] at found
      exact ⟨rest, by rw [found]⟩
  exact ⟨c, rest, by rw [Line.render_toList, start], start, notSpace⟩

theorem closingMark_render {line : Line} (clean : Clean line.text) :
    closingMark line.render.toList = closingStep line.text := by
  obtain ⟨c, rest, written, start, notSpace⟩ := render_clean clean
  have spaces : ∀ d ∈ indentation line.level, (d == ' ') = true := by
    simp [indentation, List.mem_replicate]
  rw [written, closingMark, List.dropWhile_append_of_pos spaces,
    List.dropWhile_cons_of_neg (by simpa using notSpace)]
  simp [closingStep, startsClosed, start]

theorem render_ends {line : Line} (clean : Clean line.text) :
    line.render.toList.getLast? ≠ some ' ' := by
  obtain ⟨c, found, notSpace⟩ := clean.last
  rw [Line.render_toList, List.getLast?_append, Option.mem_def.mp found]
  simpa using notSpace

end Text

/-- Each line at the depth before it: the indexed form of `Line.Indented`. -/
theorem Line.Indented.level_eq {depth : Int} {lines : List Line} (indented : Line.Indented depth lines)
    (i : Nat) (within : i < lines.length) :
    (lines[i].level : Int) = Line.depthAfter depth (lines.take i) - closingStep lines[i].text := by
  induction lines generalizing depth i with
  | nil => cases within
  | cons line rest ih =>
    obtain ⟨first, later⟩ := indented
    cases i with
    | zero => simpa [Line.depthAfter] using first
    | succ i =>
      rw [List.take_succ_cons, Line.depthAfter_cons]
      exact ih later i (by simpa using within)

theorem emitList_ne_nil {level : Nat} {ss : List Stmt} (filled : ss ≠ []) :
    Stmt.emitList level ss ≠ [] := by
  obtain ⟨s, rest, rfl⟩ := List.exists_cons_of_ne_nil filled
  rw [Stmt.emitList]
  exact fun empty => (emitWith_framed level none s).ne_nil (List.append_eq_nil_iff.mp empty).1

/-- Lines are indented by the brace depth before each, counted on the lines with their string
literals emptied, when those are balanced, the lines themselves are clean, and the two agree
in shape. -/
theorem indented_lines {real bare : List Line} (balanced : Balanced 0 bare)
    (clean : ∀ line ∈ real, Clean line.text) (shapes : real.map Line.shape = bare.map Line.shape)
    (i : Nat) (within : i < real.length) :
    ∃ (indent : Nat) (c : Char) (rest : List Char),
      (indent : Int) = braceDepth ((bare.map fun line => line.render.toList).take i) -
        closingMark real[i].render.toList ∧
      real[i].render.toList = List.replicate (2 * indent) ' ' ++ c :: rest ∧ c ≠ ' ' := by
  have lengths : real.length = bare.length := by simpa using congrArg List.length shapes
  have bareWithin : i < bare.length := lengths ▸ within
  have same : real[i].shape = bare[i].shape := by
    have atIndex := congrArg (·[i]?) shapes
    simpa [within, bareWithin] using atIndex
  simp only [Line.shape, Prod.mk.injEq] at same
  have cleanLine := clean real[i] (List.getElem_mem within)
  obtain ⟨c, rest, written, -, notSpace⟩ := render_clean cleanLine
  refine ⟨real[i].level, c, rest, ?_, written, notSpace⟩
  have level := balanced.indented.level_eq i bareWithin
  rw [closingMark_render cleanLine, ← List.map_take, braceDepth_render, same.1, closingStep,
    same.2, ← closingStep]
  simpa using level

/-- The law of indentation for a program's generated code. Its lines and the lines of the code
of the program with its string literals emptied correspond one to one, so that the braces
before a line, outside string literals, are those on the lines of the latter before it. Each
line starts with two spaces for each brace left open before it, one level less when its first
character other than a space is a closing brace, and then a character other than a space; the
braces all close by the end; and no line ends with a space. -/
structure Program.IndentedByBraces (program : Program) : Prop where
  lengths : program.bare.codeLines.length = program.codeLines.length
  indented : ∀ i (within : i < program.codeLines.length),
    ∃ (indent : Nat) (c : Char) (rest : List Char),
      (indent : Int) = braceDepth (program.bare.codeLines.take i) -
        closingMark program.codeLines[i] ∧
      program.codeLines[i] = List.replicate (2 * indent) ' ' ++ c :: rest ∧ c ≠ ' '
  closes : braceDepth program.bare.codeLines = 0
  ends : ∀ line ∈ program.codeLines, line.getLast? ≠ some ' '

/-- The generated code of every program read from a source text is indented by its braces,
when the program has a statement and none of its string literals holds a line break. -/
theorem generate_indentation {active : Nat} {source : String} {program : Program}
    (parsed : Program.ofSourceAt active source = .ok program) (filled : program.body ≠ [])
    (literals : LiteralsOneLine (Stmt.exprsList program.body)) : program.IndentedByBraces := by
  have good := Program.ofSourceAt_lexical parsed
  have balanced := Stmt.bareList_balanced 0 program.body good
  have clean := Stmt.emitList_clean 0 program.body good literals
  have shapes := Stmt.emitList_shapes 0 program.body good
  have realFilled : Stmt.emitList 0 program.body ≠ [] := emitList_ne_nil filled
  have bareFilled : Stmt.emitList 0 (Stmt.bareList program.body) ≠ [] := by
    intro empty
    rw [empty, List.map_nil, List.map_eq_nil_iff] at shapes
    exact realFilled shapes
  -- no line holds a line break, so splitting the code gives back the lines
  have realLines : program.codeLines =
      (Stmt.emitList 0 program.body).map fun line => line.render.toList :=
    splitOn_join realFilled fun line mem => (clean line mem).oneLine
  have bareLines : program.bare.codeLines =
      (Stmt.emitList 0 (Stmt.bareList program.body)).map fun line => line.render.toList :=
    splitOn_join bareFilled balanced.oneLine
  constructor
  · rw [realLines, bareLines]
    simpa using (congrArg List.length shapes).symm
  · intro i within
    simp only [realLines, bareLines, List.getElem_map]
    exact indented_lines balanced clean shapes i (by simpa [realLines] using within)
  · rw [bareLines, braceDepth_render]
    exact_mod_cast balanced.closes
  · intro line mem
    rw [realLines] at mem
    obtain ⟨emitted, listed, rfl⟩ := List.mem_map.mp mem
    exact render_ends (clean emitted listed)

/-- A function whose body holds a loop over a block and a call of the printing function on a
string: its code, nested two braces deep, is indented by its braces. -/
theorem nested_function_indented :
    Program.ofSourceAt requestDepth "hàm f(a) \x7b\n  khi (a < 3) \x7b\n    a = a * 2\n  \x7d\n  in(\"xong\")\n\x7d" =
        .ok ⟨[.function ⟨"f", ["a"],
          [.whileLoop (.binary (.ident "a") .less (.number (Binary64.ofNat 3)))
            (.block [.expr (.assign (.ident "a")
              (.binary (.ident "a") .mul (.number (Binary64.ofNat 2))))]),
          .expr (.call (.ident "in") [.string "xong"])]⟩]⟩ ∧
      ([.function ⟨"f", ["a"],
          [.whileLoop (.binary (.ident "a") .less (.number (Binary64.ofNat 3)))
            (.block [.expr (.assign (.ident "a")
              (.binary (.ident "a") .mul (.number (Binary64.ofNat 2))))]),
          .expr (.call (.ident "in") [.string "xong"])]⟩] : List Stmt) ≠ [] ∧
      LiteralsOneLine (Stmt.exprsList [.function ⟨"f", ["a"],
          [.whileLoop (.binary (.ident "a") .less (.number (Binary64.ofNat 3)))
            (.block [.expr (.assign (.ident "a")
              (.binary (.ident "a") .mul (.number (Binary64.ofNat 2))))]),
          .expr (.call (.ident "in") [.string "xong"])]⟩]) ∧
      (⟨[.function ⟨"f", ["a"],
          [.whileLoop (.binary (.ident "a") .less (.number (Binary64.ofNat 3)))
            (.block [.expr (.assign (.ident "a")
              (.binary (.ident "a") .mul (.number (Binary64.ofNat 2))))]),
          .expr (.call (.ident "in") [.string "xong"])]⟩]⟩ : Program).IndentedByBraces := by
  have parsed : Program.ofSourceAt requestDepth "hàm f(a) \x7b\n  khi (a < 3) \x7b\n    a = a * 2\n  \x7d\n  in(\"xong\")\n\x7d" =
      .ok ⟨[.function ⟨"f", ["a"],
          [.whileLoop (.binary (.ident "a") .less (.number (Binary64.ofNat 3)))
            (.block [.expr (.assign (.ident "a")
              (.binary (.ident "a") .mul (.number (Binary64.ofNat 2))))]),
          .expr (.call (.ident "in") [.string "xong"])]⟩]⟩ := by
    cbv
  have filled : ([.function ⟨"f", ["a"],
          [.whileLoop (.binary (.ident "a") .less (.number (Binary64.ofNat 3)))
            (.block [.expr (.assign (.ident "a")
              (.binary (.ident "a") .mul (.number (Binary64.ofNat 2))))]),
          .expr (.call (.ident "in") [.string "xong"])]⟩] : List Stmt) ≠ [] := List.cons_ne_nil _ _
  have literals : LiteralsOneLine (Stmt.exprsList [.function ⟨"f", ["a"],
          [.whileLoop (.binary (.ident "a") .less (.number (Binary64.ofNat 3)))
            (.block [.expr (.assign (.ident "a")
              (.binary (.ident "a") .mul (.number (Binary64.ofNat 2))))]),
          .expr (.call (.ident "in") [.string "xong"])]⟩]) := by
    simp only [LiteralsOneLine, Stmt.exprsList, Stmt.exprs, Stmt.routineExprs, List.append_nil,
      List.nil_append, List.cons_append, List.mem_cons, List.not_mem_nil, or_false,
      forall_eq_or_imp, forall_eq]
    decide
  exact ⟨parsed, filled, literals, generate_indentation parsed filled literals⟩

end VieCompiler
