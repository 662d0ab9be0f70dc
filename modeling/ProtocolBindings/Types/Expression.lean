import ProtocolBindings.Distinct
import ProtocolBindings.Draft
import ProtocolBindings.Gap
import ProtocolBindings.Schema.Basic
import ProtocolBindings.Types.CppType

namespace ProtocolBindings

/-- The C++ type of a base type. -/
def baseType (owner name : String) : Except SchemaError String :=
  match name with
  | "string" | "RegExp" | "DocumentUri" | "URI" => .ok "std::string_view"
  | "decimal" => .ok "double"
  | "integer" => .ok "std::int32_t"
  | "uinteger" => .ok "std::uint32_t"
  | "boolean" => .ok "bool"
  | _ => .error (.unknownBaseType name owner)

/-- The items of a union or tuple as one type: a single one stands for itself, and there has to be
one. -/
def collapse (owner wrapper : String) : List CppType → Except SchemaError CppType
  | [] => .error (.emptyUnion owner)
  | [single] => .ok single
  | items => .ok (.template wrapper items)

namespace TypeSpec

mutual

/-- The C++ type of a type in a slot of `owner`. -/
def expression (owner : String) : TypeSpec → Draft Gap CppType
  | .base name => .lift ((baseType owner name).map .plain)
  | .reference name => pure (.named name)
  | .array element => return .template "std::vector" [← element.expression owner]
  | .map key value =>
    return .template "std::unordered_map" [← key.expression owner, ← value.expression owner]
  | .or items => do .lift (collapse owner "std::variant" (← liveExpressions owner items))
  | .tuple items => do .lift (collapse owner "std::tuple" (← liveExpressions owner items))
  | .literal _ => do
    .write ⟨owner, .literal⟩
    return .standIn literalStub
  | .stringLiteral _ => do
    .write ⟨owner, .stringLiteral⟩
    return .standIn "std::string_view"

/-- The C++ types of all items but the null markers. -/
def liveExpressions (owner : String) : List TypeSpec → Draft Gap (List CppType)
  | [] => pure []
  | item :: items =>
    if item.isNull then liveExpressions owner items
    else return (← item.expression owner) :: (← liveExpressions owner items)

end

mutual

/-- Every mention of a named type, from left to right. -/
def mentions : TypeSpec → List String
  | .reference name => [name]
  | .array element => element.mentions
  | .map key value => key.mentions ++ value.mentions
  | .or items => mentionsAll items
  | .tuple items => mentionsAll items
  | .base _ | .literal _ | .stringLiteral _ => []

def mentionsAll : List TypeSpec → List String
  | [] => []
  | item :: items => item.mentions ++ mentionsAll items

end

/-- The named types that a type refers to, in the order of their first mention. -/
def references (t : TypeSpec) : List String :=
  distinctBy id t.mentions

/-- The text of the C++ type of a slot that may be optional. -/
def slotExpression (owner : String) (optional : Bool) (t : TypeSpec) : Draft Gap String := do
  let type ← t.expression owner
  return if optional then optionalOf type.text else type.text

end TypeSpec

end ProtocolBindings
