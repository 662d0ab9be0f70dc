namespace ProtocolBindings

mutual

/-- A type expression. -/
inductive TypeSpec where
  | base (name : String)
  | reference (name : String)
  | array (element : TypeSpec)
  | map (key value : TypeSpec)
  | or (items : List TypeSpec)
  | tuple (items : List TypeSpec)
  /-- An inline object type. -/
  | literal (properties : List Property)
  /-- A type with one string as its only value. -/
  | stringLiteral (value : String)

structure Property where
  name : String
  type : TypeSpec
  optional : Bool := false
  documentation : Option String := none

end

instance : Inhabited TypeSpec := ⟨.base ""⟩

/-- The form of a type expression. -/
inductive TypeKind where
  | base
  | reference
  | array
  | map
  | or
  | tuple
  | literal
  | stringLiteral
  deriving DecidableEq, Repr

namespace TypeKind

def all : List TypeKind :=
  [.base, .reference, .array, .map, .or, .tuple, .literal, .stringLiteral]

/-- The word by which a model names the form. -/
def word : TypeKind → String
  | .base => "base"
  | .reference => "reference"
  | .array => "array"
  | .map => "map"
  | .or => "or"
  | .tuple => "tuple"
  | .literal => "literal"
  | .stringLiteral => "stringLiteral"

def ofWord? (word : String) : Option TypeKind :=
  all.find? (·.word = word)

theorem ofWord?_word (k : TypeKind) : ofWord? k.word = some k := by
  cases k <;> decide

end TypeKind

namespace TypeSpec

def kind : TypeSpec → TypeKind
  | .base _ => .base
  | .reference _ => .reference
  | .array _ => .array
  | .map _ _ => .map
  | .or _ => .or
  | .tuple _ => .tuple
  | .literal _ => .literal
  | .stringLiteral _ => .stringLiteral

/-- The base type that marks a slot as optional and is no type of its own. -/
def null : TypeSpec := .base "null"

def isNull : TypeSpec → Bool
  | .base name => name = "null"
  | _ => false

/-- The items of an `or` or a `tuple` other than null markers. -/
def live (items : List TypeSpec) : List TypeSpec :=
  items.filter (!·.isNull)

end TypeSpec

structure Structure where
  name : String
  properties : List Property := []
  /-- The types that the structure extends. -/
  bases : List TypeSpec := []
  mixins : List TypeSpec := []
  documentation : Option String := none

/-- All parents, extended ones first. -/
def Structure.parents (s : Structure) : List TypeSpec :=
  s.bases ++ s.mixins

/-- What an enumeration value is on the wire. -/
inductive EnumLiteral where
  | integer (value : Int64)
  | string (value : String)
  deriving DecidableEq

structure EnumValue where
  name : String
  value : EnumLiteral
  documentation : Option String := none
  deriving DecidableEq

structure Enumeration where
  name : String
  type : Option TypeSpec := none
  values : List EnumValue
  supportsCustomValues : Bool := false
  documentation : Option String := none

structure TypeAlias where
  name : String
  type : TypeSpec
  documentation : Option String := none

structure MetaData where
  version : String
  deriving DecidableEq

structure Schema where
  metaData : Option MetaData := none
  structures : List Structure := []
  enumerations : List Enumeration := []
  aliases : List TypeAlias := []

/-- A named definition of a model. -/
inductive Entity where
  | struct (definition : Structure)
  | enumeration (definition : Enumeration)
  | alias (definition : TypeAlias)

def Entity.name : Entity → String
  | .struct s => s.name
  | .enumeration e => e.name
  | .alias a => a.name

namespace Schema

/-- The names defined, in the order structures, enumerations, aliases. -/
def definedNames (schema : Schema) : List String :=
  schema.structures.map (·.name) ++ schema.enumerations.map (·.name) ++
    schema.aliases.map (·.name)

def structure? (schema : Schema) (name : String) : Option Structure :=
  schema.structures.find? (·.name = name)

/-- The definition that a name stands for: the first one among the structures, or else among the
enumerations, or else among the aliases. -/
def lookup (schema : Schema) (name : String) : Option Entity :=
  match schema.structure? name with
  | some s => some (.struct s)
  | none =>
    match schema.enumerations.find? (·.name = name) with
    | some e => some (.enumeration e)
    | none => (schema.aliases.find? (·.name = name)).map .alias

def enumeration? (schema : Schema) (name : String) : Option Enumeration :=
  match schema.lookup name with
  | some (.enumeration e) => some e
  | _ => none

def alias? (schema : Schema) (name : String) : Option TypeAlias :=
  match schema.lookup name with
  | some (.alias a) => some a
  | _ => none

end Schema

end ProtocolBindings
