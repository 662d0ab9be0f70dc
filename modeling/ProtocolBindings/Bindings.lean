import ProtocolBindings.Code.EmissionOrder
import ProtocolBindings.Path
import ProtocolBindings.Schema.Verify
import ProtocolBindings.Synthesis.Alias
import ProtocolBindings.Synthesis.Enumeration
import ProtocolBindings.Synthesis.Structure
import ProtocolBindings.Text.Blank

namespace ProtocolBindings

/-- What one run generates. Without a source the definitions are in the header. -/
structure Bindings where
  header : String
  source : Option String
  gaps : List Gap
  deriving DecidableEq

/-- The code of the definition that a name stands for. -/
def Context.entityEntry (ctx : Context) : Entity → Draft Gap Entry
  | .enumeration e => .lift (e.entry ctx.options)
  | .alias a => a.entry ctx.options
  | .struct s => ctx.structureEntry s

/-- All definitions: enumerations, then aliases, then structures, each as declared. -/
def Schema.entities (schema : Schema) : List Entity :=
  schema.enumerations.map .enumeration ++ schema.aliases.map .alias ++
    schema.structures.map .struct

/-- Adds the code of a definition to a registry. -/
def Context.register (ctx : Context) (r : Registry) (entity : Entity) : Draft Gap Registry := do
  .lift (r.insert (← ctx.entityEntry entity))

/-- The code of all definitions of a model that passes the checks. -/
def Context.registry (ctx : Context) : Draft Gap Registry := do
  .lift ctx.schema.verify
  ctx.schema.entities.foldlM ctx.register .empty

/-- The names of the generated types in the order of their emission. -/
def Context.emissionNames (ctx : Context) : Except SchemaError (List String) := do
  return (← (← ctx.registry.result).emissionOrder).map Entry.name

/-- Does a line at the outermost level begin a function definition? -/
def startsDefinition (line : String) : Bool :=
  match line.toList with
  | [] => false
  | c :: _ => !Text.isBlank c && c ≠ '}' && !line.startsWith "template"

/-- The same definitions fit for a header that is included more than once. -/
def inlined (implementation : Listing) : Listing :=
  Listing.empty.writeAll ((Text.lines implementation.text).map fun line =>
    if startsDefinition line then "inline " ++ line else line)

namespace Options

/-- The top of the header, up to the first generated type. -/
def headerTop (options : Options) : Listing :=
  let l := (Listing.empty.write "#pragma once").blank
  let l := (l.writeAll (options.includes.map fun name => "#include <" ++ name ++ ">")).blank
  let l := (l.write ("#include \"" ++ options.baseHeader ++ "\"")).blank
  let l := (l.write "// NOLINTBEGIN(readability-identifier-naming)").blank
  let l := (l.write ("namespace " ++ options.namespaceName ++ " \x7b")).blank
  let l := l.writeAll (options.builtins.map fun b =>
    "using " ++ b.name ++ " = " ++ b.definition ++ ";")
  (l.write ("struct " ++ literalStub ++ " \x7b\x7d;")).blank

def namespaceEnd (options : Options) : String :=
  "\x7d  // namespace " ++ options.namespaceName

/-- The header with the entries in their order; `appendices` follow after the namespace. -/
def header (options : Options) (order : List Entry) (appendices : List Listing) : Listing :=
  let definitions := if options.sourcePath.isSome then [] else order.map (inlined ·.implementation)
  let l := (order.map Entry.header ++ definitions).foldl Listing.append options.headerTop
  let l := (l.write options.namespaceEnd).blank
  let l := appendices.foldl (fun l appendix => (l.append appendix).blank) l
  l.write "// NOLINTEND(readability-identifier-naming)"

/-- The source file with the entries in their order. -/
def source (options : Options) (order : List Entry) : Listing :=
  let l := (Listing.empty.write ("#include \"" ++ Path.fileName options.headerPath ++ "\"")).blank
  let l := (l.write ("namespace " ++ options.namespaceName ++ " \x7b")).blank
  let l := (order.map Entry.implementation).foldl Listing.append l
  l.write options.namespaceEnd

end Options

/-- What follows after the namespace, in the order of insertion. -/
def Registry.appendices (r : Registry) : List Listing :=
  (r.entries.filter fun entry => !entry.external && !entry.appendix.isEmpty).map Entry.appendix

/-- Generates the bindings of a model. -/
def Context.compile (ctx : Context) : Except SchemaError Bindings := do
  let draft := ctx.registry
  let registry ← draft.result
  let order ← registry.emissionOrder
  return {
    header := (ctx.options.header order registry.appendices).text
    source := ctx.options.sourcePath.map fun _ => (ctx.options.source order).text
    gaps := draft.written }

end ProtocolBindings
