import VieCompiler.Json.Value

/-!
# How deeply dumping a document nests

A dump is made in two walks, each by recursion: the tree is first turned into a document,
and the document is then written. The calls each walk has open at once are bounded, like
those of code generation, so these measures say how many a document takes.

* `JsonValue.buildDepth`: building a value opens one call for it; a leaf takes one more to
  be recognised (none for `null`), an array two around its deepest item (its own loop is a
  call of its own), and an object one, or two to look up its fields.
* `JsonValue.writeDepth`: writing an indented document opens one call for each array and
  object, which makes one more for its bookkeeping; within it a string is written by one
  call and a number by two, while `null` and truth values take none.
-/

namespace VieCompiler

namespace JsonValue

mutual

/-- The calls that building a value has open at once, its own included. -/
def buildDepth : JsonValue → Nat
  | null => 1
  | bool _ | number _ | string _ => 2
  | array items => 2 + buildDepthItems items
  | object fields => 1 + max 2 (buildDepthFields fields)

/-- The greatest build depth of the items of an array, 0 for none. -/
def buildDepthItems : List JsonValue → Nat
  | [] => 0
  | item :: items => max item.buildDepth (buildDepthItems items)

/-- The greatest build depth of the values of an object's fields, 0 for none. -/
def buildDepthFields : List (String × JsonValue) → Nat
  | [] => 0
  | (_, value) :: fields => max value.buildDepth (buildDepthFields fields)

end

mutual

/-- The calls that writing a value opens within the container that holds it: for an array
or an object, its own call and those below it. -/
def writeDepth : JsonValue → Nat
  | null | bool _ => 0
  | string _ => 1
  | number _ => 2
  | array [] => 1
  | array (item :: items) => 1 + max 1 (writeDepthItems (item :: items))
  | object [] => 1
  | object (field :: fields) => 1 + max 1 (writeDepthFields (field :: fields))

/-- The greatest write depth of the items of an array, 0 for none. -/
def writeDepthItems : List JsonValue → Nat
  | [] => 0
  | item :: items => max item.writeDepth (writeDepthItems items)

/-- The greatest write depth of the values of an object's fields, 0 for none. -/
def writeDepthFields : List (String × JsonValue) → Nat
  | [] => 0
  | (_, value) :: fields => max value.writeDepth (writeDepthFields fields)

end

example : (object [("a", array [number "1", null])]).buildDepth = 5 := by decide

example : (object [("a", array [number "1", null])]).writeDepth = 4 := by decide

end JsonValue

end VieCompiler
