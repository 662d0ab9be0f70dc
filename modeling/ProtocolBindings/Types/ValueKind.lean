import ProtocolBindings.Options
import ProtocolBindings.Types.Expression

namespace ProtocolBindings

inductive ValueKind where
  /-- A scalar that is read and written in place. -/
  | primitive
  /-- A generated enumeration. -/
  | enumeration
  /-- Two or more alternatives. -/
  | union (alternatives : List TypeSpec)
  /-- A type with storage of its own: structure, array, map, tuple, or not defined by the model. -/
  | aggregate
  /-- The stand-in of an inline object type. -/
  | placeholder

namespace ValueKind

/-- Has the value storage of its own, to be set up before use? -/
def isAggregate : ValueKind → Bool
  | .union _ | .aggregate => true
  | .primitive | .enumeration | .placeholder => false

def isSettable : ValueKind → Bool
  | .primitive | .enumeration => true
  | .union _ | .aggregate | .placeholder => false

end ValueKind

namespace TypeSpec

mutual

/-- The type that is left when unions and tuples of a single item are taken for that item. -/
def core : TypeSpec → TypeSpec
  | .or items => (coreOfOnly items).getD (.or items)
  | .tuple items => (coreOfOnly items).getD (.tuple items)
  | .base name => .base name
  | .reference name => .reference name
  | .array element => .array element
  | .map key value => .map key value
  | .literal properties => .literal properties
  | .stringLiteral value => .stringLiteral value

/-- The core of the only item that is no null marker, if there is just one. -/
def coreOfOnly : List TypeSpec → Option TypeSpec
  | [] => none
  | item :: items =>
    if item.isNull then coreOfOnly items
    else if (live items).isEmpty then some item.core
    else none

end

end TypeSpec

/-- The model and the options under which its types are read. -/
structure Context where
  schema : Schema
  options : Options

namespace Context

/-- The aliases that have not been looked through. -/
def unfollowed (ctx : Context) (followed : List String) : List TypeAlias :=
  without TypeAlias.name followed ctx.schema.aliases

theorem mem_aliases_of_lookup {schema : Schema} {name : String} {a : TypeAlias}
    (h : schema.lookup name = some (.alias a)) : a ∈ schema.aliases ∧ a.name = name := by
  unfold Schema.lookup at h
  split at h
  · cases h
  · split at h
    · cases h
    · obtain ⟨b, hb, he⟩ := Option.map_eq_some_iff.mp h
      cases he
      have hn := List.find?_some hb
      exact ⟨List.mem_of_find?_eq_some hb, by simpa using hn⟩

/-- The kind of a type in a slot of `owner`, and the aliases looked through for it, added to those
before. An alias that comes up again is an aggregate. -/
def trace (ctx : Context) (owner : String) (followed : List String) (t : TypeSpec) :
    Except SchemaError (ValueKind × List String) :=
  match t.core with
  | .base name => (baseType owner name).map fun _ => (.primitive, followed)
  | .stringLiteral _ => .ok (.primitive, followed)
  | .literal _ => .ok (.placeholder, followed)
  | .array _ | .map _ _ => .ok (.aggregate, followed)
  | .or items =>
    match TypeSpec.live items with
    | [] => .error (.emptyUnion owner)
    | alternatives => .ok (.union alternatives, followed)
  | .tuple items =>
    match TypeSpec.live items with
    | [] => .error (.emptyUnion owner)
    | _ => .ok (.aggregate, followed)
  | .reference name =>
    if ctx.options.isBuiltin name then .ok (.aggregate, followed)
    else
      match _h : ctx.schema.lookup name with
      | some (.enumeration e) =>
        .ok (if ctx.options.isPassThrough e.name then .primitive else .enumeration, followed)
      | some (.alias a) =>
        if _hf : name ∈ followed then .ok (.aggregate, followed)
        else ctx.trace owner (followed ++ [name]) a.type
      | some (.struct _) | none => .ok (.aggregate, followed)
termination_by (ctx.unfollowed followed).length
decreasing_by
  have ha := mem_aliases_of_lookup _h
  exact length_without_lt ha.1 (ha.2 ▸ _hf) (by simp [ha.2])

/-- How values of a type are accessed in a slot of `owner`. -/
def classify (ctx : Context) (owner : String) (t : TypeSpec) : Except SchemaError ValueKind :=
  (ctx.trace owner [] t).map (·.1)

end Context

end ProtocolBindings
