import ProtocolBindings.Json.Value
import ProtocolBindings.Text.Quoted

namespace ProtocolBindings

inductive GapKind where
  /-- An inline object type, which becomes an empty stand-in. -/
  | literal
  /-- A string constant, which becomes a plain string or is left out. -/
  | stringLiteral
  /-- A map among the alternatives of a union, whose accessor does nothing. -/
  | mapInUnion
  /-- A tuple among the alternatives of a union, which gets no accessor. -/
  | tupleInUnion
  /-- A literal among the alternatives of a union, which gets no accessor. -/
  | literalInUnion
  deriving DecidableEq, Repr

namespace GapKind

def word : GapKind → String
  | .literal => "literal"
  | .stringLiteral => "stringLiteral"
  | .mapInUnion => "mapInUnion"
  | .tupleInUnion => "tupleInUnion"
  | .literalInUnion => "literalInUnion"

def description : GapKind → String
  | .literal => "literal type"
  | .stringLiteral => "string literal type"
  | .mapInUnion => "map alternative in union"
  | .tupleInUnion => "tuple alternative in union"
  | .literalInUnion => "literal alternative in union"

end GapKind

/-- A stand-in, and the qualified name of the type or member it is in. -/
structure Gap where
  owner : String
  kind : GapKind
  deriving DecidableEq, Repr

namespace Gap

def message (gap : Gap) : String :=
  gap.kind.description ++ " in " ++ Text.quote gap.owner

def toJson (gap : Gap) : Json :=
  .object [("owner", .string gap.owner), ("kind", .string gap.kind.word)]

end Gap

end ProtocolBindings
