/-!
# Tokens of Vie

The vocabulary of the lexer: the reserved words, the punctuation and operator kinds, and
the three classes of characters that words and numbers are made of.

Vie's reserved words are Vietnamese (`cho`, `hàm`, `nếu`, …) plus `this`; each `Keyword`
constructor is named after the word it stands for, without its accents. A word is a run of
*word characters* that starts with a letter: ASCII letters, the underscore, and the
lowercase Vietnamese letters with diacritics listed in `accentedLetters`. Matching a word
against the reserved words is exact, so `Cho` is an ordinary name.
-/

namespace VieCompiler

/-- The reserved words of Vie. -/
inductive Keyword where
  /-- The word `cho`, which opens a variable declaration. -/
  | cho
  /-- The word `hàm`, which opens a function or method. -/
  | ham
  /-- The word `lớp`, which opens a class. -/
  | lop
  /-- The word `mới`, which constructs an object. -/
  | moi
  /-- The word `nếu`, which opens a conditional. -/
  | neu
  /-- The word `còn_nếu`, a one-word `else if`. -/
  | conNeu
  /-- The word `ngược_lại`, the `else` of a conditional. -/
  | nguocLai
  /-- The word `khi`, which opens a while loop. -/
  | khi
  /-- The word `với_mỗi`, which opens a loop over the elements of a collection. -/
  | voiMoi
  /-- The word `trong`, which separates the loop variable from the collection. -/
  | trong
  /-- The word `trả_về`, which returns from a function. -/
  | traVe
  /-- The word `đúng`, the value true. -/
  | dung
  /-- The word `sai`, the value false. -/
  | sai
  /-- The word `rỗng`, the null value. -/
  | rong
  /-- The word `và`, logical and. -/
  | va
  /-- The word `hoặc`, logical or. -/
  | hoac
  /-- The word `this`, the receiver of a method. -/
  | self
deriving DecidableEq, Repr

namespace Keyword

/-- Every reserved word, in the order of the language's reference. -/
def all : List Keyword :=
  [cho, ham, lop, moi, neu, conNeu, nguocLai, khi, voiMoi, trong, traVe, dung, sai, rong, va,
    hoac, self]

/-- How the reserved word is written in source. -/
def spelling : Keyword → String
  | cho => "cho"
  | ham => "hàm"
  | lop => "lớp"
  | moi => "mới"
  | neu => "nếu"
  | conNeu => "còn_nếu"
  | nguocLai => "ngược_lại"
  | khi => "khi"
  | voiMoi => "với_mỗi"
  | trong => "trong"
  | traVe => "trả_về"
  | dung => "đúng"
  | sai => "sai"
  | rong => "rỗng"
  | va => "và"
  | hoac => "hoặc"
  | self => "this"

/-- The reserved word that `word` spells, if any. -/
def ofWord? (word : String) : Option Keyword :=
  all.find? fun k => k.spelling == word

/-- The name of the reserved word's token kind, as dumps show it. -/
def kindName : Keyword → String
  | cho => "CHO"
  | ham => "HAM"
  | lop => "LOP"
  | moi => "MOI"
  | neu => "NEU"
  | conNeu => "CON_NEU"
  | nguocLai => "NGUOC_LAI"
  | khi => "KHI"
  | voiMoi => "VOI_MOI"
  | trong => "TRONG"
  | traVe => "TRA_VE"
  | dung => "DUNG"
  | sai => "SAI"
  | rong => "RONG"
  | va => "VA"
  | hoac => "HOAC"
  | self => "THIS"

theorem mem_all (k : Keyword) : k ∈ all := by
  cases k <;> decide

/-- Reading a reserved word back from its spelling gives the word. -/
theorem ofWord?_spelling (k : Keyword) : ofWord? k.spelling = some k := by
  cases k <;> decide

end Keyword

/-- What a token is. -/
inductive Token.Kind where
  /-- A reserved word. -/
  | keyword (k : Keyword)
  /-- The opening parenthesis `(`. -/
  | lparen
  /-- The closing parenthesis `)`. -/
  | rparen
  /-- The opening curly brace. -/
  | lbrace
  /-- The closing curly brace. -/
  | rbrace
  /-- The opening bracket `[`. -/
  | lbracket
  /-- The closing bracket `]`. -/
  | rbracket
  /-- The comma `,`. -/
  | comma
  /-- The dot `.`. -/
  | dot
  /-- The plus sign `+`. -/
  | plus
  /-- The minus sign `-`. -/
  | minus
  /-- The star `*`. -/
  | star
  /-- The slash `/`. -/
  | slash
  /-- The assignment sign `=`. -/
  | equal
  /-- The equality test `==`. -/
  | eqEq
  /-- The inequality test `!=`. -/
  | notEq
  /-- The comparison `<`. -/
  | lt
  /-- The comparison `<=`. -/
  | le
  /-- The comparison `>`. -/
  | gt
  /-- The comparison `>=`. -/
  | ge
  /-- A name; a lone `!` is one too. -/
  | ident
  /-- A run of decimal digits. -/
  | number
  /-- A quoted text; the lexeme is what stands between the quotes. -/
  | string
  /-- The end of the input. -/
  | eof
deriving DecidableEq, Repr

namespace Token.Kind

/-- The name of the kind, as dumps show it. -/
def name : Token.Kind → String
  | keyword k => k.kindName
  | lparen => "LPAREN"
  | rparen => "RPAREN"
  | lbrace => "LBRACE"
  | rbrace => "RBRACE"
  | lbracket => "LBRACKET"
  | rbracket => "RBRACKET"
  | comma => "COMMA"
  | dot => "DOT"
  | plus => "PLUS"
  | minus => "MINUS"
  | star => "STAR"
  | slash => "SLASH"
  | equal => "EQUAL"
  | eqEq => "EQ_EQ"
  | notEq => "NOT_EQ"
  | lt => "LT"
  | le => "LTE"
  | gt => "GT"
  | ge => "GTE"
  | ident => "IDENT"
  | number => "NUMBER"
  | string => "STRING"
  | eof => "EOF"

/-- The kind of a one-character token, for the characters that always stand alone. -/
def ofSingle? : Char → Option Token.Kind
  | '(' => some lparen
  | ')' => some rparen
  | '{' => some lbrace
  | '}' => some rbrace
  | '[' => some lbracket
  | ']' => some rbracket
  | ',' => some comma
  | '.' => some dot
  | '+' => some plus
  | '-' => some minus
  | '*' => some star
  | '/' => some slash
  | _ => none

/-- For the characters that may take a following `=`: the kind with the `=`, and the kind
without it. A lone `!` is a name, since Vie has no negation operator. -/
def ofCompound? : Char → Option (Token.Kind × Token.Kind)
  | '=' => some (eqEq, equal)
  | '!' => some (notEq, ident)
  | '<' => some (le, lt)
  | '>' => some (ge, gt)
  | _ => none

end Token.Kind

/-- A token: its kind, the source text it stands for, and the line it starts on. -/
structure Token where
  /-- What the token is. -/
  kind : Token.Kind
  /-- The source text; for a string, the text between the quotes. -/
  lexeme : String
  /-- The line, counted from 1, on which the token starts. -/
  line : Nat
deriving DecidableEq, Repr

/-- The lowercase Vietnamese letters with diacritics that may appear in words. -/
def accentedLetters : List Char :=
  "àáâãèéêìíòóôõùúăđĩũơưạảấầẩẫậắằẳẵặẹẻẽếềểễệỉịọỏốồổỗộớờởỡợụủứừửữựỳỵỷỹ".toList

/-- Whether `c` may start a word: an ASCII letter, the underscore or an accented letter. -/
def isWordStart (c : Char) : Bool :=
  c.isAlpha || c == '_' || accentedLetters.contains c

/-- Whether `c` may continue a word: a character that may start one, or an ASCII digit. -/
def isWordChar (c : Char) : Bool :=
  isWordStart c || c.isDigit

theorem accentedLetters_length : accentedLetters.length = 66 := by
  cbv

theorem accentedLetters_nodup : accentedLetters.Nodup := by
  decide_cbv

/-- The accented letters lie in two blocks: from `à` to `ư` in Latin-1 and Latin Extended-A
and -B, and from `ạ` to `ỹ` in Latin Extended Additional. -/
theorem accentedLetters_blocks {c : Char} (accented : c ∈ accentedLetters) :
    0xE0 ≤ c.toNat ∧ c.toNat ≤ 0x1B0 ∨ 0x1EA1 ≤ c.toNat ∧ c.toNat ≤ 0x1EF9 := by
  have blocks : accentedLetters.all (fun x => 0xE0 ≤ x.toNat && x.toNat ≤ 0x1B0 ||
      0x1EA1 ≤ x.toNat && x.toNat ≤ 0x1EF9) = true := by
    cbv
  simpa using List.all_eq_true.mp blocks c accented

/-- No character below `à` or above `ỹ` is an accented letter. -/
theorem not_mem_accentedLetters {c : Char} (outside : c.toNat < 0xE0 ∨ 0x1EF9 < c.toNat) :
    c ∉ accentedLetters := fun accented => by
  have := accentedLetters_blocks accented
  omega

/-- Outside the blocks of the accented letters, a word character is an ASCII letter or digit
or the underscore. -/
theorem isWordChar_of_outside {c : Char} (outside : c.toNat < 0xE0 ∨ 0x1EF9 < c.toNat) :
    isWordChar c = (c.isAlpha || c == '_' || c.isDigit) := by
  simp [isWordChar, isWordStart, not_mem_accentedLetters outside]

/-- A property of each member of a list, decided member by member, so that deciding it never
ranges over every character. -/
theorem forall_mem_of_all_decide {α : Type} {l : List α} {P : α → Prop} [DecidablePred P]
    (all : (l.all fun x => decide (P x)) = true) : ∀ x ∈ l, P x :=
  fun x mem => of_decide_eq_true (List.all_eq_true.mp all x mem)

end VieCompiler
