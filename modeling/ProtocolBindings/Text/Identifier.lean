import ProtocolBindings.Text.Casing

namespace ProtocolBindings.Text

def isIdentifierStart (c : Char) : Bool :=
  c.isAlpha || c = '_'

def isIdentifierChar (c : Char) : Bool :=
  c.isAlphanum || c = '_'

/-- An ASCII letter or underscore, then ASCII letters, digits and underscores. -/
def isIdentifier (text : String) : Bool :=
  match text.toList with
  | [] => false
  | c :: rest => isIdentifierStart c && rest.all isIdentifierChar

/-- The C++ keywords that a member may not be called. -/
def reservedWords : List String := [
  "alignas", "alignof", "and", "asm", "auto", "bool", "break", "case", "catch", "char", "class",
  "const", "constexpr", "continue", "default", "delete", "do", "double", "else", "enum",
  "explicit", "export", "extern", "false", "float", "for", "friend", "goto", "if", "inline", "int",
  "long", "mutable", "namespace", "new", "noexcept", "not", "nullptr", "operator", "or", "private",
  "protected", "public", "register", "return", "short", "signed", "sizeof", "static", "struct",
  "switch", "template", "this", "throw", "true", "try", "typedef", "typeid", "typename", "union",
  "unsigned", "using", "virtual", "void", "volatile", "while", "xor"]

/-- Reserved words get an underscore behind them; other names stay. -/
def escapeReserved (name : String) : String :=
  if name ∈ reservedWords then name ++ "_" else name

/-- The constant of an enumeration value: `k`, its first letter in upper case, the rest in lower. -/
def enumConstant (name : String) : String :=
  match name.toList with
  | [] => "k"
  | c :: rest => String.ofList ('k' :: (upperChar c ++ lower rest))

end ProtocolBindings.Text
