/-!
The languages bindings are written in, and their reserved words.

Declared names are compared with the tables without regard to case. A hit is never an error:
the name will need escaping in the languages that reserve it.
-/

namespace BindingSchema

inductive Language where
  | python
  | go
  | csharp
  | rust
  | cpp
  | zig
  deriving DecidableEq

namespace Language

/-- Every language, in the order of reports. -/
def all : List Language := [python, go, csharp, rust, cpp, zig]

def text : Language → String
  | python => "python"
  | go => "go"
  | csharp => "csharp"
  | rust => "rust"
  | cpp => "cpp"
  | zig => "zig"

/-! ## Reserved words -/

def pythonWords : List String :=
  ["false", "none", "true", "and", "as", "assert", "async", "await", "break", "class", "continue",
   "def", "del", "elif", "else", "except", "finally", "for", "from", "global", "if", "import",
   "in", "is", "lambda", "nonlocal", "not", "or", "pass", "raise", "return", "try", "while",
   "with", "yield"]

def goWords : List String :=
  ["break", "default", "func", "interface", "select", "case", "defer", "go", "map", "struct",
   "chan", "else", "goto", "package", "switch", "const", "fallthrough", "if", "range", "type",
   "continue", "for", "import", "return", "var"]

def csharpWords : List String :=
  ["abstract", "as", "base", "bool", "break", "byte", "case", "catch", "char", "checked", "class",
   "const", "continue", "decimal", "default", "delegate", "do", "double", "else", "enum", "event",
   "explicit", "extern", "false", "finally", "fixed", "float", "for", "foreach", "goto", "if",
   "implicit", "in", "int", "interface", "internal", "is", "lock", "long", "namespace", "new",
   "null", "object", "operator", "out", "override", "params", "private", "protected", "public",
   "readonly", "ref", "return", "sbyte", "sealed", "short", "sizeof", "stackalloc", "static",
   "string", "struct", "switch", "this", "throw", "true", "try", "typeof", "uint", "ulong",
   "unchecked", "unsafe", "ushort", "using", "virtual", "void", "volatile", "while"]

def rustWords : List String :=
  ["as", "break", "const", "continue", "crate", "else", "enum", "extern", "false", "fn", "for",
   "if", "impl", "in", "let", "loop", "match", "mod", "move", "mut", "pub", "ref", "return",
   "self", "static", "struct", "super", "trait", "true", "type", "unsafe", "use", "where",
   "while", "async", "await", "dyn", "abstract", "become", "box", "do", "final", "macro",
   "override", "priv", "try", "typeof", "unsized", "virtual", "yield"]

def cppWords : List String :=
  ["alignas", "alignof", "and", "and_eq", "asm", "auto", "bitand", "bitor", "bool", "break",
   "case", "catch", "char", "char8_t", "char16_t", "char32_t", "class", "compl", "concept",
   "const", "consteval", "constexpr", "constinit", "const_cast", "continue", "co_await",
   "co_return", "co_yield", "decltype", "default", "delete", "do", "double", "dynamic_cast",
   "else", "enum", "explicit", "export", "extern", "false", "float", "for", "friend", "goto",
   "if", "inline", "int", "long", "mutable", "namespace", "new", "noexcept", "not", "not_eq",
   "nullptr", "operator", "or", "or_eq", "private", "protected", "public", "register",
   "reinterpret_cast", "requires", "return", "short", "signed", "sizeof", "static",
   "static_assert", "static_cast", "struct", "switch", "template", "this", "thread_local",
   "throw", "true", "try", "typedef", "typeid", "typename", "union", "unsigned", "using",
   "virtual", "void", "volatile", "wchar_t", "while", "xor", "xor_eq"]

def zigWords : List String :=
  ["addrspace", "align", "allowzero", "and", "anyframe", "anytype", "asm", "async", "await",
   "break", "callconv", "catch", "comptime", "const", "continue", "defer", "else", "enum",
   "errdefer", "error", "export", "extern", "fn", "for", "if", "inline", "linksection", "noalias",
   "noinline", "nosuspend", "opaque", "or", "orelse", "packed", "pub", "resume", "return",
   "struct", "suspend", "switch", "test", "threadlocal", "try", "union", "unreachable",
   "usingnamespace", "var", "volatile", "while"]

def words : Language → List String
  | python => pythonWords
  | go => goWords
  | csharp => csharpWords
  | rust => rustWords
  | cpp => cppWords
  | zig => zigWords

/-- Lower case as far as reserved words can tell. The words are ASCII, and the Kelvin sign is the
only letter outside ASCII whose lower case is inside. -/
def lowerChar (c : Char) : Char := if c = '\u212a' then 'k' else c.toLower

def lower (name : String) : String := String.ofList (name.toList.map lowerChar)

def reserves (language : Language) (name : String) : Bool := language.words.contains (lower name)

/-- The languages that reserve `name`, in the order of reports. -/
def reserving (name : String) : List Language := all.filter (·.reserves name)

end Language

end BindingSchema
