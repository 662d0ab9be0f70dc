import ProtocolBindings.Code.Entry
import ProtocolBindings.Schema.Inheritance
import ProtocolBindings.Synthesis.Union
import ProtocolBindings.Text.Comment

namespace ProtocolBindings

/-- A field with what has been found out about it. -/
structure Field where
  property : Property
  kind : ValueKind
  /-- The position among the fields that have accessors. -/
  index : Nat

namespace Field

def accessor (f : Field) : String :=
  Text.escapeReserved f.property.name

/-- Is the field added with storage of its own when it is wanted? -/
def isAddable (f : Field) : Bool :=
  f.property.optional && f.kind.isAggregate

/-- Is the field part of every instance, with storage of its own? -/
def isSetUp (f : Field) : Bool :=
  !f.property.optional && f.kind.isAggregate

/-- The names that the field takes in the class. -/
def memberNames (f : Field) : List String :=
  [f.accessor] ++
    (if f.property.optional then ["has_" ++ f.accessor] else []) ++
    (if f.kind.isSettable then ["set_" ++ f.accessor]
      else if f.isAddable then ["add_" ++ f.accessor]
      else []) ++
    (match f.kind with
      | .union _ => [unionName f.index]
      | _ => [])

/-- The accessors of a field of class `scope`, where `type` is its type without the option. -/
def members (scope : String) (type : CppType) (f : Field) : List Fragment :=
  let key := f.property.name
  let optional := f.property.optional
  Fragment.member scope (.getter (if optional then type.optional else type) f.accessor)
      (.readField optional f.kind.access type key) ++
    (if optional then Fragment.member scope (.presence f.accessor) (.testField key) else []) ++
    (match f.kind with
      | .primitive => Fragment.member scope (.setter type f.accessor) (.writeField false key)
      | .enumeration => Fragment.member scope (.setter type f.accessor) (.writeField true key)
      | .union _ | .aggregate =>
        if optional then Fragment.member scope (.adder type f.accessor) (.addField type key)
        else []
      | .placeholder => [])

/-- The comment before a field, with a blank line above it unless it is the first. -/
def comment (property : Property) (index : Nat) : List Fragment :=
  match property.documentation with
  | some doc => (if index = 0 then [] else [.blank]) ++ (Text.lineComments doc).map .comment
  | none => []

end Field

/-- Adds names to those taken in a class; one that is taken already is a collision. -/
def claim (owner : String) (taken : List String) : List String → Except SchemaError (List String)
  | [] => .ok taken
  | name :: names =>
    if name ∈ taken then .error (.nameCollision owner name)
    else claim owner (taken ++ [name]) names

namespace Context

/-- Drafts the union that a field of class `scope` may hold, and gives the type of the field. -/
def fieldType (ctx : Context) (scope : String) (property : Property) (index : Nat)
    (followed : List String) : ValueKind → Draft Fragment CppType
  | .union alternatives => do
    ctx.union followed scope (unionName index) alternatives
    return .nested scope (unionName index)
  | _ => (property.type.expression (scope ++ "." ++ property.name)).mapWritten .gap

/-- Drafts a field of class `scope`. The result adds the names it takes to those before, and has the
type and key of the field if every instance sets it up. -/
def field (ctx : Context) (scope : String) (taken : List String) (index : Nat)
    (property : Property) : Draft Fragment (List String × List (CppType × String)) := do
  .writeAll (Field.comment property index)
  let (kind, followed) ← .lift (ctx.trace (scope ++ "." ++ property.name) [] property.type)
  let field : Field := { property, kind, index }
  let taken ← .lift (claim scope taken field.memberNames)
  let type ← ctx.fieldType scope property index followed kind
  .writeAll (field.members scope type)
  return (taken, if field.isSetUp then [(type, property.name)] else [])

/-- Drafts the fields of class `scope` from a position on, and gives the types and keys of those
that every instance sets up. Fields with one string as their only value are left out. -/
def fields (ctx : Context) (scope : String) (taken : List String) (index : Nat) :
    List Property → Draft Fragment (List (CppType × String))
  | [] => pure []
  | property :: rest =>
    match property.type with
    | .stringLiteral _ => do
      .write (.gap ⟨scope ++ "." ++ property.name, .stringLiteral⟩)
      ctx.fields scope taken index rest
    | _ => do
      let (taken, setUp) ← ctx.field scope taken index property
      let others ← ctx.fields scope taken (index + 1) rest
      return setUp ++ others

/-- Drafts the class of a structure. -/
def structureDraft (ctx : Context) (s : Structure) : Draft Fragment Unit := do
  let properties ← .lift (ctx.schema.flatten s)
  .writeAll ((s.documentation.elim [] Text.blockComment).map .comment)
  .write (.openClass s.name .struct)
  let setUp ← ctx.fields s.name [s.name, "init"] 0 properties
  .write .blank
  .writeAll (Fragment.member s.name .initializer (.setUp setUp))
  .write .closeClass

/-- The names that a structure has to come after: what its parents and its own properties refer
to. Inherited fields are covered by the parents. -/
def structureDependencies (s : Structure) : List String :=
  s.parents.flatMap TypeSpec.references ++ s.properties.flatMap (·.type.references)

/-- The code of a structure. -/
def structureEntry (ctx : Context) (s : Structure) : Draft Gap Entry :=
  let draft := ctx.structureDraft s
  { written := Fragment.gaps draft.written
    result := draft.result.map fun _ =>
      ({ name := s.name
         header := Fragment.header .empty draft.written
         implementation := Fragment.source .empty draft.written } : Entry).withDependencies
        (structureDependencies s) }

end Context

end ProtocolBindings
