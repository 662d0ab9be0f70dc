import ProtocolBindings.Json.Record
import ProtocolBindings.Json.Shape
import ProtocolBindings.Schema.Basic

namespace ProtocolBindings

open Json (Part record? required withDefault nullable listOf string? bool?)

/-- A field that is left out when it has no value. -/
def optionalField (name : String) (value : Option Json) : List (String × Json) :=
  match value with
  | some v => [(name, v)]
  | none => []

mutual

def TypeSpec.toJson : TypeSpec → Json
  | .base name => .object [("kind", .string "base"), ("name", .string name)]
  | .reference name => .object [("kind", .string "reference"), ("name", .string name)]
  | .array element => .object [("kind", .string "array"), ("element", element.toJson)]
  | .map key value =>
    .object [("kind", .string "map"), ("key", key.toJson), ("value", value.toJson)]
  | .or items => .object [("kind", .string "or"), ("items", .array (TypeSpec.listToJson items))]
  | .tuple items =>
    .object [("kind", .string "tuple"), ("items", .array (TypeSpec.listToJson items))]
  | .literal properties =>
    .object [("kind", .string "literal"),
      ("value", .object [("properties", .array (Property.listToJson properties))])]
  | .stringLiteral value => .object [("kind", .string "stringLiteral"), ("value", .string value)]

def TypeSpec.listToJson : List TypeSpec → List Json
  | [] => []
  | t :: ts => t.toJson :: TypeSpec.listToJson ts

def Property.toJson : Property → Json
  | ⟨name, type, optional, documentation⟩ =>
    .object ([("name", .string name), ("type", type.toJson), ("optional", .bool optional)] ++
      optionalField "documentation" (documentation.map .string))

def Property.listToJson : List Property → List Json
  | [] => []
  | p :: ps => p.toJson :: Property.listToJson ps

end

namespace TypeKind

/-- The names of the fields beside the kind. -/
def fieldNames : TypeKind → List String
  | .base | .reference => ["name"]
  | .array => ["element"]
  | .map => ["key", "value"]
  | .or | .tuple => ["items"]
  | .literal | .stringLiteral => ["value"]

/-- The kind as a word or, inside another type expression, also as its number. -/
def ofJson? (nested : Bool) : Json → Option TypeKind
  | .string word => ofWord? word
  | .integer n => if nested && 0 ≤ n then all[n.toNat]? else none
  | _ => none

end TypeKind

/-- The kind of a type expression and its other fields. In an array the kind comes first. -/
def TypeSpec.tagged? {whole : Json} (nested : Bool) (v : Json) (h : sizeOf v ≤ sizeOf whole) :
    Option (TypeKind × (String → Option (Part whole))) :=
  match Json.fields? v h, Json.elements? v h with
  | some fields, _ => do
    guard (Json.unrepeated ["kind"] fields)
    let kind ← TypeKind.ofJson? nested (← fields.lookup "kind").1
    guard (Json.unrepeated kind.fieldNames fields)
    return (kind, (fields.lookup ·))
  | none, some (first :: rest) => do
    let kind ← TypeKind.ofJson? nested first.1
    guard (rest.length ≤ kind.fieldNames.length)
    return (kind, ((kind.fieldNames.zip rest).lookup ·))
  | _, _ => none

mutual

def TypeSpec.ofJson? (nested : Bool) (v : Json) : Option TypeSpec := do
  let (kind, field) ← TypeSpec.tagged? nested v (Nat.le_refl _)
  match kind with
  | .base => return .base (← required (field "name") (string? ·.1))
  | .reference => return .reference (← required (field "name") (string? ·.1))
  | .array => return .array (← required (field "element") fun p => TypeSpec.ofJson? true p.1)
  | .map =>
    return .map (← required (field "key") fun p => TypeSpec.ofJson? true p.1)
      (← required (field "value") fun p => TypeSpec.ofJson? true p.1)
  | .or =>
    return .or (← required (field "items") (listOf fun p => TypeSpec.ofJson? true p.1))
  | .tuple =>
    return .tuple (← required (field "items") (listOf fun p => TypeSpec.ofJson? true p.1))
  | .literal =>
    let value ← field "value"
    let field ← record? ["properties"] value.1 (Nat.le_of_lt value.2)
    return .literal
      (← withDefault [] (field "properties") (listOf fun p => Property.ofJson? true p.1))
  | .stringLiteral => return .stringLiteral (← required (field "value") (string? ·.1))
termination_by sizeOf v
decreasing_by all_goals exact p.2

def Property.ofJson? (nested : Bool) (v : Json) : Option Property := do
  let field ← record? ["name", "type", "optional", "documentation"] v (Nat.le_refl _)
  return {
    name := ← required (field "name") (string? ·.1)
    type := ← required (field "type") fun p => TypeSpec.ofJson? nested p.1
    optional := ← withDefault false (field "optional") (bool? ·.1)
    documentation := ← nullable (field "documentation") (string? ·.1) }
termination_by sizeOf v
decreasing_by all_goals exact p.2

end

namespace Structure

def toJson (s : Structure) : Json :=
  .object ([("name", .string s.name),
    ("properties", .array (Property.listToJson s.properties)),
    ("extends", .array (TypeSpec.listToJson s.bases)),
    ("mixins", .array (TypeSpec.listToJson s.mixins))] ++
    optionalField "documentation" (s.documentation.map .string))

def ofJson? (v : Json) : Option Structure := do
  let field ← record? ["name", "properties", "extends", "mixins", "documentation"] v
    (Nat.le_refl _)
  return {
    name := ← required (field "name") (string? ·.1)
    properties := ← withDefault [] (field "properties") (listOf (Property.ofJson? false ·.1))
    bases := ← withDefault [] (field "extends") (listOf (TypeSpec.ofJson? false ·.1))
    mixins := ← withDefault [] (field "mixins") (listOf (TypeSpec.ofJson? false ·.1))
    documentation := ← nullable (field "documentation") (string? ·.1) }

end Structure

namespace EnumLiteral

def toJson : EnumLiteral → Json
  | .integer value => .integer value.toInt
  | .string value => .string value

/-- An integer of 64 bits or a string. -/
def ofJson? : Json → Option EnumLiteral
  | .integer n =>
    if Int64.minValue.toInt ≤ n ∧ n ≤ Int64.maxValue.toInt then some (.integer (Int64.ofInt n))
    else none
  | .string text => some (.string text)
  | _ => none

end EnumLiteral

namespace EnumValue

def toJson (v : EnumValue) : Json :=
  .object ([("name", .string v.name), ("value", v.value.toJson)] ++
    optionalField "documentation" (v.documentation.map .string))

def ofJson? (v : Json) : Option EnumValue := do
  let field ← record? ["name", "value", "documentation"] v (Nat.le_refl _)
  return {
    name := ← required (field "name") (string? ·.1)
    value := ← required (field "value") (EnumLiteral.ofJson? ·.1)
    documentation := ← nullable (field "documentation") (string? ·.1) }

end EnumValue

namespace Enumeration

def toJson (e : Enumeration) : Json :=
  .object ([("name", .string e.name)] ++ optionalField "type" (e.type.map TypeSpec.toJson) ++
    [("values", .array (e.values.map EnumValue.toJson)),
      ("supportsCustomValues", .bool e.supportsCustomValues)] ++
    optionalField "documentation" (e.documentation.map .string))

def ofJson? (v : Json) : Option Enumeration := do
  let field ← record? ["name", "type", "values", "supportsCustomValues", "documentation"] v
    (Nat.le_refl _)
  return {
    name := ← required (field "name") (string? ·.1)
    type := ← nullable (field "type") (TypeSpec.ofJson? false ·.1)
    values := ← required (field "values") (listOf (EnumValue.ofJson? ·.1))
    supportsCustomValues := ← withDefault false (field "supportsCustomValues") (bool? ·.1)
    documentation := ← nullable (field "documentation") (string? ·.1) }

end Enumeration

namespace TypeAlias

def toJson (a : TypeAlias) : Json :=
  .object ([("name", .string a.name), ("type", a.type.toJson)] ++
    optionalField "documentation" (a.documentation.map .string))

def ofJson? (v : Json) : Option TypeAlias := do
  let field ← record? ["name", "type", "documentation"] v (Nat.le_refl _)
  return {
    name := ← required (field "name") (string? ·.1)
    type := ← required (field "type") (TypeSpec.ofJson? false ·.1)
    documentation := ← nullable (field "documentation") (string? ·.1) }

end TypeAlias

namespace MetaData

def toJson (m : MetaData) : Json :=
  .object [("version", .string m.version)]

def ofJson? (v : Json) : Option MetaData := do
  let field ← record? ["version"] v (Nat.le_refl _)
  return { version := ← required (field "version") (string? ·.1) }

end MetaData

namespace Schema

def toJson (s : Schema) : Json :=
  .object (optionalField "metaData" (s.metaData.map MetaData.toJson) ++
    [("structures", .array (s.structures.map Structure.toJson)),
      ("enumerations", .array (s.enumerations.map Enumeration.toJson)),
      ("typeAliases", .array (s.aliases.map TypeAlias.toJson))])

def ofJson? (v : Json) : Option Schema := do
  let field ← record? ["metaData", "structures", "enumerations", "typeAliases"] v (Nat.le_refl _)
  return {
    metaData := ← nullable (field "metaData") (MetaData.ofJson? ·.1)
    structures := ← withDefault [] (field "structures") (listOf (Structure.ofJson? ·.1))
    enumerations := ← withDefault [] (field "enumerations") (listOf (Enumeration.ofJson? ·.1))
    aliases := ← withDefault [] (field "typeAliases") (listOf (TypeAlias.ofJson? ·.1)) }

end Schema

/-- Of a type expression the kind is read by itself, and the rest as it is. -/
def TypeSpec.shape : Shape :=
  .tagged "kind" (fun v => (TypeKind.ofJson? false v).isSome)
    fun v => (TypeSpec.ofJson? false v).isSome

namespace Schema

def propertyShape : Shape :=
  .record [("name", .text), ("type", TypeSpec.shape), ("optional", .flag),
    ("documentation", .orNull .text)] ["name", "type"]

def structureShape : Shape :=
  .record [("name", .text), ("properties", .list propertyShape),
    ("extends", .list TypeSpec.shape), ("mixins", .list TypeSpec.shape),
    ("documentation", .orNull .text)] ["name"]

def enumValueShape : Shape :=
  .record [("name", .text), ("value", .whole fun v => (EnumLiteral.ofJson? v).isSome),
    ("documentation", .orNull .text)] ["name", "value"]

def enumerationShape : Shape :=
  .record [("name", .text), ("type", .orNull TypeSpec.shape), ("values", .list enumValueShape),
    ("supportsCustomValues", .flag), ("documentation", .orNull .text)] ["name", "values"]

def aliasShape : Shape :=
  .record [("name", .text), ("type", TypeSpec.shape), ("documentation", .orNull .text)]
    ["name", "type"]

def shape : Shape :=
  .record [("metaData", .orNull (.record [("version", .text)] ["version"])),
    ("structures", .list structureShape), ("enumerations", .list enumerationShape),
    ("typeAliases", .list aliasShape)] []

end Schema

def Schema.ofText (text : String) : Except DecodeError Schema :=
  Schema.shape.decode Schema.ofJson? text

def TypeSpec.ofText (text : String) : Except DecodeError TypeSpec :=
  TypeSpec.shape.decode (TypeSpec.ofJson? false) text

/-- Reads a list of type expressions. -/
def TypeSpec.listOfText (text : String) : Except DecodeError (List TypeSpec) :=
  (Shape.list TypeSpec.shape).decode
    (fun v => (Json.elements? v (Nat.le_refl _)).bind (·.mapM (TypeSpec.ofJson? false ·.1))) text

end ProtocolBindings
