import VieCompiler.Proofs.WellFormed
import VieCompiler.Proofs.Lowering

/-!
# What the text of an expression is made of

The text of an expression is made of fixed pieces (parentheses, operators, `this`, `new `,
`console.log`, the quotes of string literals), of the names and numbers it holds, and of the
contents of its string literals. `Expr.render_chars` says that a property of characters that
holds of all three holds of the whole text, and `Expr.render_head` that the text never starts
with a space or a closing brace when its names do not.

`Expr.bare` empties every string literal of an expression, and `Stmt.bare` of a statement:
the code generated for the bare tree is the code generated for the tree with the contents of
its string literals cut out, so that its braces are those outside string literals.
-/

namespace VieCompiler

mutual

/-- The values of the string literals of an expression. -/
def Expr.stringLiterals : Expr → List String
  | .string value => [value]
  | .array elements => Expr.listStringLiterals elements
  | .binary left _ right => left.stringLiterals ++ right.stringLiterals
  | .field object _ => object.stringLiterals
  | .index object key => object.stringLiterals ++ key.stringLiterals
  | .assign target value => target.stringLiterals ++ value.stringLiterals
  | .call callee args => callee.stringLiterals ++ Expr.listStringLiterals args
  | .new _ args => Expr.listStringLiterals args
  | .ident _ | .self | .number _ | .bool _ | .null => []

/-- The values of the string literals of a list of expressions. -/
def Expr.listStringLiterals : List Expr → List String
  | [] => []
  | e :: es => e.stringLiterals ++ Expr.listStringLiterals es

end

mutual

/-- The expression with every string literal emptied. -/
def Expr.bare : Expr → Expr
  | .string _ => .string ""
  | .array elements => .array (Expr.bareList elements)
  | .binary left op right => .binary left.bare op right.bare
  | .field object name => .field object.bare name
  | .index object key => .index object.bare key.bare
  | .assign target value => .assign target.bare value.bare
  | .call callee args => .call callee.bare (Expr.bareList args)
  | .new className args => .new className (Expr.bareList args)
  | .ident name => .ident name
  | .self => .self
  | .number value => .number value
  | .bool value => .bool value
  | .null => .null

/-- The expressions with every string literal emptied. -/
def Expr.bareList : List Expr → List Expr
  | [] => []
  | e :: es => e.bare :: Expr.bareList es

end

mutual

/-- The statement with every string literal emptied. -/
def Stmt.bare : Stmt → Stmt
  | .expr value => .expr value.bare
  | .letDecl name value => .letDecl name value.bare
  | .function definition => .function (Stmt.bareRoutine definition)
  | .classDecl name methods => .classDecl name (Stmt.bareMethods methods)
  | .ret value => .ret value.bare
  | .block body => .block (Stmt.bareList body)
  | .ifElse test consequent none => .ifElse test.bare consequent.bare none
  | .ifElse test consequent (some alternate) =>
    .ifElse test.bare consequent.bare (some alternate.bare)
  | .whileLoop test body => .whileLoop test.bare body.bare
  | .forEach element collection body => .forEach element collection.bare body.bare

/-- The statements with every string literal emptied. -/
def Stmt.bareList : List Stmt → List Stmt
  | [] => []
  | s :: ss => s.bare :: Stmt.bareList ss

/-- The function with every string literal of its body emptied. -/
def Stmt.bareRoutine : FunctionDef Stmt → FunctionDef Stmt
  | ⟨name, params, body⟩ => ⟨name, params, Stmt.bareList body⟩

/-- The methods with every string literal of their bodies emptied. -/
def Stmt.bareMethods : List (FunctionDef Stmt) → List (FunctionDef Stmt)
  | [] => []
  | m :: ms => Stmt.bareRoutine m :: Stmt.bareMethods ms

end

/-- The program with every string literal emptied. -/
def Program.bare (program : Program) : Program :=
  ⟨Stmt.bareList program.body⟩

/-- The characters of written numbers besides digits. -/
def numberChars : List Char :=
  "-+.eNaIfinty".toList

/-- The characters of the fixed pieces of expression texts and of written numbers. -/
def codeChars : List Char :=
  "()[], .=+-*/<>!&|\"\\thisruefalnwcogNIy".toList

section Numbers

/-- Every character of the text is one that a written number can hold. -/
def NumberText (text : List Char) : Prop :=
  ∀ c ∈ text, c.isDigit ∨ c ∈ numberChars

theorem numberText_append {a b : List Char} : NumberText (a ++ b) ↔ NumberText a ∧ NumberText b :=
  List.forall_mem_append

theorem numberText_cons {c : Char} {text : List Char} :
    NumberText (c :: text) ↔ (c.isDigit ∨ c ∈ numberChars) ∧ NumberText text :=
  List.forall_mem_cons

theorem numberText_nil : NumberText [] := List.forall_mem_nil _

theorem NumberText.take {text : List Char} (code : NumberText text) (n : Nat) :
    NumberText (text.take n) :=
  fun c mem => code c (List.mem_of_mem_take mem)

theorem NumberText.drop {text : List Char} (code : NumberText text) (n : Nat) :
    NumberText (text.drop n) :=
  fun c mem => code c (List.mem_of_mem_drop mem)

theorem numberText_toDigits (n : Nat) : NumberText (Nat.toDigits 10 n) := fun _ mem =>
  .inl (Nat.isDigit_of_mem_toDigits (by decide) (by decide) mem)

theorem numberText_zeros (k : Nat) : NumberText (NumberFormat.zeros k) := fun c mem => by
  rw [List.eq_of_mem_replicate (show c ∈ List.replicate k '0' from mem)]
  exact .inl rfl

theorem decimalText_number (format : NumberFormat) (d : Decimal) :
    NumberText (format.decimalText d) := by
  have digits : NumberText d.digitList := numberText_toDigits _
  simp only [NumberFormat.decimalText]
  split_ifs
  all_goals simp +decide only [numberText_append, numberText_cons, numberText_nil, digits, digits.take,
    digits.drop, numberText_zeros, numberText_toDigits]
  -- the fraction digits after the first one, behind a point
  all_goals
    split <;> simp +decide only [numberText_cons, numberText_nil, digits.drop, and_self]

theorem formatNumber_number (x : Binary64) : NumberText (formatNumber x).toList := by
  unfold formatNumber NumberFormat.render
  split
  · exact forall_mem_of_all_decide (by decide)
  · split <;> exact forall_mem_of_all_decide (by decide)
  · split
    · -- an integer written in full: its digits, after a minus when negative
      rw [Int.toString_eq_repr, Int.repr_eq_if]
      split
      · rw [Nat.toList_repr]
        exact numberText_toDigits _
      · rw [String.toList_append, Nat.toList_repr, numberText_append]
        exact ⟨forall_mem_of_all_decide (by decide), numberText_toDigits _⟩
    · rw [String.toList_ofList, numberText_append]
      refine ⟨?_, decimalText_number _ _⟩
      split <;> exact forall_mem_of_all_decide (by decide)

end Numbers

/-- A property of characters that holds of every character an expression's text can hold
outside its string literals, when its names are ones `L` allows: digits, the characters of
the fixed pieces, and those of the names. -/
structure CharsOutside (p : Char → Prop) (L : Leaves) : Prop where
  digit : ∀ c, c.isDigit → p c
  code : ∀ c ∈ codeChars, p c
  name : ∀ n, L.name n → ∀ c ∈ n.toList, p c

section Chars

variable {p : Char → Prop} {L : Leaves}

theorem CharsOutside.fixed (chars : CharsOutside p L) {piece : String}
    (sub : piece.toList ⊆ codeChars) : ∀ c ∈ piece.toList, p c :=
  fun c mem => chars.code c (sub mem)

theorem CharsOutside.number (chars : CharsOutside p L) (x : Binary64) :
    ∀ c ∈ (formatNumber x).toList, p c := fun c mem => by
  rcases formatNumber_number x c mem with digit | letter
  · exact chars.digit c digit
  · exact chars.code c ((by decide : numberChars ⊆ codeChars) letter)

theorem symbol_code (op : BinaryOp) : op.symbol.toList ⊆ codeChars := by
  cases op <;> decide

theorem quoteString_chars (chars : CharsOutside p L) {value : String}
    (inside : ∀ c ∈ value.toList, p c) : ∀ c ∈ (quoteString value).toList, p c := by
  intro c mem
  simp only [quoteString, String.toList_ofList, List.cons_append, List.mem_cons, List.mem_append,
    List.mem_flatMap, List.not_mem_nil, or_false] at mem
  rcases mem with rfl | ⟨d, inValue, escaped⟩ | rfl
  · exact chars.code _ (by decide)
  · -- a double quote of the value is written after a backslash
    split at escaped
    · simp only [List.mem_cons, List.not_mem_nil, or_false] at escaped
      rcases escaped with rfl | rfl <;> exact chars.code _ (by decide)
    · rw [List.mem_singleton] at escaped
      subst escaped
      exact inside c inValue
  · exact chars.code _ (by decide)

mutual

/-- Every character of an expression's text has a property that holds of the characters of
its fixed pieces, names and numbers, and of the contents of its string literals. -/
theorem Expr.render_chars (chars : CharsOutside p L) : (e : Expr) → e.WellFormed L →
    (∀ v ∈ e.stringLiterals, ∀ c ∈ v.toList, p c) → ∀ c ∈ e.render.toList, p c
  | .ident name, named, _ => by
    rw [Expr.render]
    exact chars.name name named
  | .self, _, _ => by
    rw [Expr.render]
    exact chars.fixed (by decide)
  | .number value, _, _ => by
    rw [Expr.render]
    exact chars.number value
  | .string value, _, inside => by
    rw [Expr.render]
    exact quoteString_chars chars (inside value List.mem_cons_self)
  | .bool true, _, _ => by
    rw [Expr.render]
    exact chars.fixed (by decide)
  | .bool false, _, _ => by
    rw [Expr.render]
    exact chars.fixed (by decide)
  | .null, _, _ => by
    rw [Expr.render]
    exact chars.fixed (by decide)
  | .array elements, good, inside => by
    rw [Expr.render]
    simp only [String.toList_append, List.forall_mem_append, and_assoc]
    exact ⟨chars.fixed (by decide), Expr.renderList_chars chars elements good inside,
      chars.fixed (by decide)⟩
  | .assign target value, ⟨_, targetGood, valueGood⟩, inside => by
    rw [Expr.stringLiterals, List.forall_mem_append] at inside
    rw [Expr.render]
    simp only [String.toList_append, List.forall_mem_append, and_assoc]
    exact ⟨chars.fixed (by decide), Expr.render_chars chars target targetGood inside.1,
      chars.fixed (by decide), Expr.render_chars chars value valueGood inside.2,
      chars.fixed (by decide)⟩
  | .binary left op right, ⟨leftGood, rightGood⟩, inside => by
    rw [Expr.stringLiterals, List.forall_mem_append] at inside
    rw [Expr.render]
    simp only [String.toList_append, List.forall_mem_append, and_assoc]
    exact ⟨chars.fixed (by decide), Expr.render_chars chars left leftGood inside.1,
      chars.fixed (by decide), chars.fixed (symbol_code op), chars.fixed (by decide),
      Expr.render_chars chars right rightGood inside.2, chars.fixed (by decide)⟩
  | .call callee args, ⟨calleeGood, argsGood⟩, inside => by
    rw [Expr.stringLiterals, List.forall_mem_append] at inside
    have arguments := Expr.renderList_chars chars args argsGood inside.2
    -- a call of a bare name may print through a function of the target
    cases callee
    case ident name =>
      rw [Expr.render]
      simp only [String.toList_append, List.forall_mem_append, and_assoc]
      refine ⟨?_, chars.fixed (by decide), arguments, chars.fixed (by decide)⟩
      unfold builtinCallee?
      split
      · exact chars.fixed (by decide)
      · exact chars.name name calleeGood
    all_goals
      rw [Expr.render]
      · simp only [String.toList_append, List.forall_mem_append, and_assoc]
        exact ⟨Expr.render_chars chars _ calleeGood inside.1, chars.fixed (by decide), arguments,
          chars.fixed (by decide)⟩
      · intro name same
        cases same
  | .field object name, ⟨objectGood, named⟩, inside => by
    rw [Expr.stringLiterals] at inside
    rw [Expr.render]
    simp only [String.toList_append, List.forall_mem_append, and_assoc]
    exact ⟨Expr.render_chars chars object objectGood inside, chars.fixed (by decide),
      chars.name name named⟩
  | .index object key, ⟨objectGood, keyGood⟩, inside => by
    rw [Expr.stringLiterals, List.forall_mem_append] at inside
    rw [Expr.render]
    simp only [String.toList_append, List.forall_mem_append, and_assoc]
    exact ⟨Expr.render_chars chars object objectGood inside.1, chars.fixed (by decide),
      Expr.render_chars chars key keyGood inside.2, chars.fixed (by decide)⟩
  | .new className args, ⟨named, argsGood⟩, inside => by
    rw [Expr.stringLiterals] at inside
    rw [Expr.render]
    simp only [String.toList_append, List.forall_mem_append, and_assoc]
    exact ⟨chars.fixed (by decide), chars.name className named, chars.fixed (by decide),
      Expr.renderList_chars chars args argsGood inside, chars.fixed (by decide)⟩

theorem Expr.renderList_chars (chars : CharsOutside p L) : (es : List Expr) →
    Expr.ListWellFormed L es → (∀ v ∈ Expr.listStringLiterals es, ∀ c ∈ v.toList, p c) →
      ∀ c ∈ (Expr.renderList es).toList, p c
  | [], _, _ => by
    rw [Expr.renderList]
    exact chars.fixed (by decide)
  | [e], ⟨good, _⟩, inside => by
    rw [Expr.listStringLiterals, List.forall_mem_append] at inside
    rw [Expr.renderList]
    exact Expr.render_chars chars e good inside.1
  | e :: f :: es, ⟨good, rest⟩, inside => by
    rw [Expr.listStringLiterals, List.forall_mem_append] at inside
    simp only [Expr.renderList, String.toList_append, List.forall_mem_append, and_assoc]
    exact ⟨Expr.render_chars chars e good inside.1, chars.fixed (by decide),
      Expr.renderList_chars chars (f :: es) rest inside.2⟩

end

end Chars

section Heads

/-- Whether a character may start a line: it is no space and no closing brace. -/
def startsLine (c : Char) : Bool :=
  c != ' ' && c != '\x7d'

theorem startsLine_append {a b : List Char} (first : ∀ c ∈ a.head?, startsLine c)
    (second : ∀ c ∈ b.head?, startsLine c) : ∀ c ∈ (a ++ b).head?, startsLine c := by
  cases a with
  | nil => exact second
  | cons c rest => exact first

theorem startsLine_front {a b : List Char} (first : ∀ c ∈ a.head?, startsLine c)
    (filled : a ≠ []) : ∀ c ∈ (a ++ b).head?, startsLine c := by
  cases a with
  | nil => exact absurd rfl filled
  | cons c rest => exact first

/-- The first character of a fixed text starts a line, checked on that one character. -/
theorem startsLine_of_head {text : List Char} (first : text.head?.all startsLine = true) :
    ∀ c ∈ text.head?, startsLine c := by
  intro c found
  rw [Option.mem_def] at found
  rw [found] at first
  exact first

theorem startsLine_number (x : Binary64) : ∀ c ∈ (formatNumber x).toList.head?, startsLine c := by
  intro c first
  rcases formatNumber_number x c (List.mem_of_mem_head? first) with digit | letter
  · have := Binary64.toNat_le_of_isDigit digit
    simp only [startsLine, bne_iff_ne, ne_eq, Bool.and_eq_true]
    constructor <;> rintro rfl <;> simp at this
  · have fixed : ∀ c ∈ numberChars, startsLine c := forall_mem_of_all_decide (by decide)
    exact fixed c letter

variable {L : Leaves}

/-- An expression's text starts with no space and no closing brace, when no name it holds
does. -/
theorem Expr.render_head (names : ∀ n, L.name n → ∀ c ∈ n.toList.head?, startsLine c) :
    (e : Expr) → e.WellFormed L → ∀ c ∈ e.render.toList.head?, startsLine c
  | .ident name, named => by
    rw [Expr.render]
    exact names name named
  | .self, _ | .bool true, _ | .bool false, _ | .null, _ => by
    rw [Expr.render]
    exact startsLine_of_head (by decide)
  | .string _, _ => by
    simp only [Expr.render, quoteString, String.toList_ofList, List.cons_append, List.head?_cons,
      Option.mem_def, Option.some.injEq]
    rintro c rfl
    rfl
  | .array _, _ | .assign _ _, _ | .binary _ _ _, _ | .new _ _, _ => by
    simp only [Expr.render, String.toList_append, List.append_assoc]
    exact startsLine_front (startsLine_of_head (by decide)) (by decide)
  | .number value, _ => by
    rw [Expr.render]
    exact startsLine_number value
  | .call callee args, ⟨calleeGood, _⟩ => by
    -- a call of a bare name may print through a function of the target
    cases callee
    case ident name =>
      simp only [Expr.render, String.toList_append, List.append_assoc]
      refine startsLine_append ?_ (startsLine_front (startsLine_of_head (by decide)) (by decide))
      unfold builtinCallee?
      split
      · exact startsLine_of_head (by decide)
      · exact names name calleeGood
    all_goals
      rw [Expr.render]
      · simp only [String.toList_append, List.append_assoc]
        exact startsLine_append (Expr.render_head names _ calleeGood)
          (startsLine_front (startsLine_of_head (by decide)) (by decide))
      · intro name same
        cases same
  | .field object name, ⟨objectGood, _⟩ => by
    simp only [Expr.render, String.toList_append, List.append_assoc]
    exact startsLine_append (Expr.render_head names object objectGood)
      (startsLine_front (startsLine_of_head (by decide)) (by decide))
  | .index object key, ⟨objectGood, _⟩ => by
    simp only [Expr.render, String.toList_append, List.append_assoc]
    exact startsLine_append (Expr.render_head names object objectGood)
      (startsLine_front (startsLine_of_head (by decide)) (by decide))

end Heads

section Bare

variable {L : Leaves}

theorem Expr.isTarget_bare (e : Expr) : e.bare.isTarget = e.isTarget := by
  cases e <;> rfl

mutual

/-- Emptying the string literals of a well-formed expression keeps it well formed, when the
empty string is allowed. -/
theorem Expr.bare_wellFormed (empty : L.string "") : (e : Expr) → e.WellFormed L →
    e.bare.WellFormed L
  | .string _, _ => empty
  | .array elements, good => Expr.bareList_wellFormed empty elements good
  | .binary left _ right, ⟨leftGood, rightGood⟩ =>
    ⟨Expr.bare_wellFormed empty left leftGood, Expr.bare_wellFormed empty right rightGood⟩
  | .field object _, ⟨objectGood, named⟩ => ⟨Expr.bare_wellFormed empty object objectGood, named⟩
  | .index object key, ⟨objectGood, keyGood⟩ =>
    ⟨Expr.bare_wellFormed empty object objectGood, Expr.bare_wellFormed empty key keyGood⟩
  | .assign target value, ⟨isTarget, targetGood, valueGood⟩ =>
    ⟨(Expr.isTarget_bare target).trans isTarget, Expr.bare_wellFormed empty target targetGood,
      Expr.bare_wellFormed empty value valueGood⟩
  | .call callee args, ⟨calleeGood, argsGood⟩ =>
    ⟨Expr.bare_wellFormed empty callee calleeGood, Expr.bareList_wellFormed empty args argsGood⟩
  | .new _ args, ⟨named, argsGood⟩ => ⟨named, Expr.bareList_wellFormed empty args argsGood⟩
  | .ident _, named => named
  | .self, good | .number _, good | .bool _, good | .null, good => good

theorem Expr.bareList_wellFormed (empty : L.string "") : (es : List Expr) →
    Expr.ListWellFormed L es → Expr.ListWellFormed L (Expr.bareList es)
  | [], _ => trivial
  | e :: es, ⟨good, rest⟩ =>
    ⟨Expr.bare_wellFormed empty e good, Expr.bareList_wellFormed empty es rest⟩

end

mutual

/-- The string literals of a bare expression are empty. -/
theorem Expr.bare_stringLiterals : (e : Expr) → ∀ v ∈ e.bare.stringLiterals, v = ""
  | .string _ => by simp [Expr.bare, Expr.stringLiterals]
  | .array elements => Expr.bareList_stringLiterals elements
  | .binary left _ right => by
    simp only [Expr.bare, Expr.stringLiterals, List.forall_mem_append]
    exact ⟨Expr.bare_stringLiterals left, Expr.bare_stringLiterals right⟩
  | .field object _ => Expr.bare_stringLiterals object
  | .index object key => by
    simp only [Expr.bare, Expr.stringLiterals, List.forall_mem_append]
    exact ⟨Expr.bare_stringLiterals object, Expr.bare_stringLiterals key⟩
  | .assign target value => by
    simp only [Expr.bare, Expr.stringLiterals, List.forall_mem_append]
    exact ⟨Expr.bare_stringLiterals target, Expr.bare_stringLiterals value⟩
  | .call callee args => by
    simp only [Expr.bare, Expr.stringLiterals, List.forall_mem_append]
    exact ⟨Expr.bare_stringLiterals callee, Expr.bareList_stringLiterals args⟩
  | .new _ args => Expr.bareList_stringLiterals args
  | .ident _ | .self | .number _ | .bool _ | .null => by simp [Expr.bare, Expr.stringLiterals]

theorem Expr.bareList_stringLiterals : (es : List Expr) →
    ∀ v ∈ Expr.listStringLiterals (Expr.bareList es), v = ""
  | [] => by simp [Expr.bareList, Expr.listStringLiterals]
  | e :: es => by
    simp only [Expr.bareList, Expr.listStringLiterals, List.forall_mem_append]
    exact ⟨Expr.bare_stringLiterals e, Expr.bareList_stringLiterals es⟩

end

/-- Every character of a bare expression's text has a property that holds of the characters
outside string literals. -/
theorem Expr.bare_render_chars {p : Char → Prop} (chars : CharsOutside p L) (empty : L.string "")
    {e : Expr} (good : e.WellFormed L) : ∀ c ∈ e.bare.render.toList, p c :=
  Expr.render_chars chars e.bare (Expr.bare_wellFormed empty e good) fun v mem => by
    rw [Expr.bare_stringLiterals e v mem]
    exact fun c none => absurd none List.not_mem_nil

end Bare

end VieCompiler
