/-!
# The runtime prelude

Every compiled program starts with three helper functions that Vie programs may call
without declaring them: `độ_dài` (the length of a string or array), `kiểu_của` (the type of
a value, `rỗng` for null) and `thành_chuỗi` (a value as a string). The program itself runs
inside an asynchronous function that is called at once, so that a `trả_về` at the top level
is legal JavaScript.
-/

namespace VieCompiler

/-- The lines of the prelude. -/
def preludeLines : List String :=
  [ "function độ_dài(obj) \x7b",
    "  if (typeof obj === 'string' || Array.isArray(obj)) \x7b",
    "    return obj.length;",
    "  \x7d",
    "  console.error(\"Lỗi: độ_dài() chỉ áp dụng cho chuỗi hoặc mảng.\");",
    "  return null;",
    "\x7d",
    "",
    "function kiểu_của(value) \x7b",
    "  if (value === null) return \"rỗng\";",
    "  return typeof value;",
    "\x7d",
    "",
    "function thành_chuỗi(value) \x7b",
    "  return String(value);",
    "\x7d" ]

/-- The prelude, each of its lines ended by a line break. -/
def prelude : String :=
  String.join (preludeLines.map (· ++ "\n"))

/-- A complete program: the prelude, then the generated code run inside an asynchronous
function. -/
def wrapProgram (code : String) : String :=
  prelude ++ "\n// Compiled Vie program\n(async () => \x7b\n" ++ code ++ "\n\x7d)();\n"

end VieCompiler
