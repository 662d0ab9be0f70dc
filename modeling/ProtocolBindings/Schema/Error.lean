import ProtocolBindings.Text.Quoted

namespace ProtocolBindings

open Text (quote)

inductive SchemaError where
  | unknownBaseType (name owner : String)
  /-- A union or tuple without any item other than null markers. -/
  | emptyUnion (owner : String)
  | mixedEnum (name : String)
  | enumValueOutOfRange (name : String) (value : Int)
  | nameCollision (owner name : String)
  | invalidIdentifier (owner name : String)
  | duplicateDefinition (name : String)
  | unknownParent (struct parent : String)
  /-- A walk along parents that returns to its first name. -/
  | inheritanceCycle (names : List String)
  /-- A walk along dependencies that returns to its first name. -/
  | dependencyCycle (names : List String)
  /-- A union that has itself among its alternatives, so that its expansion has no end. -/
  | endlessUnion (owner : String)
  deriving DecidableEq, Repr

namespace SchemaError

/-- A walk as text. -/
def walk (names : List String) : String :=
  " -> ".intercalate (names.map quote)

def message : SchemaError → String
  | .unknownBaseType name owner => "Unknown base type " ++ quote name ++ " in " ++ quote owner
  | .emptyUnion owner => "Union with no live alternative in " ++ quote owner
  | .mixedEnum name => "Enumeration " ++ quote name ++ " mixes integer and string values"
  | .enumValueOutOfRange name value =>
    "Value " ++ toString value ++ " of enumeration " ++ quote name ++ " does not fit in 32 bits"
  | .nameCollision owner name =>
    "Name " ++ quote name ++ " is generated twice in " ++ quote owner
  | .invalidIdentifier owner name =>
    "Name " ++ quote name ++ " in " ++ quote owner ++ " is not a valid identifier"
  | .duplicateDefinition name => "The type " ++ quote name ++ " is defined twice"
  | .unknownParent struct parent =>
    "Structure " ++ quote struct ++ " inherits from " ++ quote parent ++
      ", which is not a structure"
  | .inheritanceCycle names => "Recursive inheritance between " ++ walk names
  | .dependencyCycle names => "Dependency cycle between " ++ walk names
  | .endlessUnion owner => "Union " ++ quote owner ++ " contains itself"

end SchemaError

end ProtocolBindings
