import ProtocolBindings.Text.Lines

namespace ProtocolBindings.Text

/-- Parts a slash from the star after it. -/
def breakOpeners : List Char → List Char
  | [] => []
  | '/' :: '*' :: rest => '/' :: '\\' :: '*' :: breakOpeners rest
  | c :: rest => c :: breakOpeners rest

/-- Parts a star from the slash after it. -/
def breakClosers : List Char → List Char
  | [] => []
  | '*' :: '/' :: rest => '*' :: '\\' :: '/' :: breakClosers rest
  | c :: rest => c :: breakClosers rest

def commentSafe (line : String) : String :=
  String.ofList (breakClosers (breakOpeners line.toList))

/-- One line of a comment: the mark alone for an empty line, else the mark, a blank and the text. -/
def commentLine (mark line : String) : String :=
  if line.isEmpty then mark else mark ++ " " ++ commentSafe line

/-- Documentation as the lines of one block comment. -/
def blockComment (text : String) : List String :=
  "/**" :: ((lines text).map (commentLine " *") ++ [" */"])

/-- Documentation as line comments. -/
def lineComments (text : String) : List String :=
  (lines text).map (commentLine "//")

end ProtocolBindings.Text
