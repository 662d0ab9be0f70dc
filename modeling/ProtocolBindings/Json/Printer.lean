import ProtocolBindings.Json.Value
import ProtocolBindings.Text.Quoted

namespace ProtocolBindings

/-- The text of a numeral. -/
def Numeral.text (n : Numeral) : String :=
  (if n.negative then "-" else "") ++ String.ofList n.whole ++
    (if n.fraction.isEmpty then "" else "." ++ String.ofList n.fraction) ++
    n.exponent.elim "" fun power => "e" ++ toString power

namespace Json

def newline (level : Nat) : String :=
  "\n" ++ String.ofList (List.replicate (2 * level) ' ')

/-- The parts of a container between its brackets; an empty one has nothing between them. -/
def bracketed (level : Nat) (opening closing : String) (parts : List String) : String :=
  if parts.isEmpty then opening ++ closing
  else
    opening ++ newline (level + 1) ++ ("," ++ newline (level + 1)).intercalate parts ++
      newline level ++ closing

mutual

/-- The text of a value that starts at a level. -/
def prettyAt (level : Nat) : Json → String
  | .null => "null"
  | .bool b => if b then "true" else "false"
  | .integer n => toString n
  | .decimal n => n.text
  | .string s => Text.quote s
  | .array elements => bracketed level "[" "]" (prettyElements (level + 1) elements)
  | .object fields => bracketed level "\x7b" "\x7d" (prettyFields (level + 1) fields)

def prettyElements (level : Nat) : List Json → List String
  | [] => []
  | v :: vs => prettyAt level v :: prettyElements level vs

def prettyFields (level : Nat) : List (String × Json) → List String
  | [] => []
  | (key, v) :: fields =>
    (Text.quote key ++ ": " ++ prettyAt level v) :: prettyFields level fields

end

def pretty (v : Json) : String :=
  prettyAt 0 v

end Json

end ProtocolBindings
