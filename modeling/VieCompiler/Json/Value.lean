/-!
# JSON documents

The command line prints tokens and trees as JSON documents. `JsonValue` is such a document
with its fields in the order they are written. `JsonValue.render` writes it the way the
dumps show it: two spaces of indentation per level, one item or field per line, `[]` and
`\x7b\x7d` for empty arrays and objects, and `": "` between a key and its value. A string
is written between double quotes with the quote, the backslash and the control characters
escaped; every other character stands for itself.

Numbers are kept as the text to write, since the dumps also write the non-finite numbers,
as `Infinity`, `-Infinity` and `NaN`.
-/

namespace VieCompiler

/-- A JSON document whose object fields keep their order. -/
inductive JsonValue where
  /-- The value `null`. -/
  | null
  /-- A truth value, `true` or `false`. -/
  | bool (value : Bool)
  /-- A number, as the text that writes it. -/
  | number (text : String)
  /-- A string. -/
  | string (value : String)
  /-- An array of values. -/
  | array (items : List JsonValue)
  /-- An object: its keys and values, in order. -/
  | object (fields : List (String × JsonValue))
deriving Repr

namespace JsonValue

/-- The four lowercase hexadecimal digits of a code point below `0x10000`. -/
def hex4 (n : Nat) : List Char :=
  let digits := Nat.toDigits 16 n
  List.replicate (4 - digits.length) '0' ++ digits

/-- How a character is written inside a string. -/
def escapeChar (c : Char) : List Char :=
  if c = '"' then ['\\', '"']
  else if c = '\\' then ['\\', '\\']
  else if c = '\n' then ['\\', 'n']
  else if c = '\r' then ['\\', 'r']
  else if c = '\t' then ['\\', 't']
  else if c = '\x08' then ['\\', 'b']
  else if c = '\x0c' then ['\\', 'f']
  else if c.toNat < 0x20 then '\\' :: 'u' :: hex4 c.toNat
  else [c]

/-- A string literal. -/
def quote (s : String) : String :=
  String.ofList ('"' :: s.toList.flatMap escapeChar ++ ['"'])

/-- The indentation of nesting level `level`. -/
def indentation (level : Nat) : String :=
  String.ofList (List.replicate (2 * level) ' ')

mutual

/-- The text of a value at nesting level `level`, its first line not indented. -/
def render (level : Nat) : JsonValue → String
  | null => "null"
  | bool true => "true"
  | bool false => "false"
  | number text => text
  | string value => quote value
  | array [] => "[]"
  | array (item :: items) =>
    "[\n" ++ renderItems (level + 1) (item :: items) ++ "\n" ++ indentation level ++ "]"
  | object [] => "\x7b\x7d"
  | object (field :: fields) =>
    "\x7b\n" ++ renderFields (level + 1) (field :: fields) ++ "\n" ++ indentation level ++ "\x7d"

/-- The items of an array, one per line at nesting level `level`. -/
def renderItems (level : Nat) : List JsonValue → String
  | [] => ""
  | [item] => indentation level ++ render level item
  | item :: items => indentation level ++ render level item ++ ",\n" ++ renderItems level items

/-- The fields of an object, one per line at nesting level `level`. -/
def renderFields (level : Nat) : List (String × JsonValue) → String
  | [] => ""
  | [(key, value)] => indentation level ++ quote key ++ ": " ++ render level value
  | (key, value) :: fields =>
    indentation level ++ quote key ++ ": " ++ render level value ++ ",\n" ++
      renderFields level fields

end

example : (object [("a", array [number "1", null]), ("b", object [])]).render 0 =
    "\x7b\n  \"a\": [\n    1,\n    null\n  ],\n  \"b\": \x7b\x7d\n\x7d" := by
  decide +kernel

example : quote "a\"\\\n\x01é" = "\"a\\\"\\\\\\n\\u0001é\"" := by
  decide +kernel

end JsonValue

end VieCompiler
