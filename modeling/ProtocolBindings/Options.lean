import ProtocolBindings.Json.Record
import ProtocolBindings.Json.Shape

namespace ProtocolBindings

open Json (record? required withDefault nullable listOf string?)

/-- A name that the frame of the header defines by itself. -/
structure Builtin where
  name : String
  definition : String
  deriving DecidableEq

structure Options where
  /-- The C++ namespace around every generated declaration. -/
  namespaceName : String := "lsp"
  /-- Where the header goes, below the output directory. -/
  headerPath : String := "include/LSProtocol.h"
  /-- Where the definitions go; without it they follow the declarations in the header. -/
  sourcePath : Option String := some "src/LSProtocol.cpp"
  /-- The system headers that the header includes, in order. -/
  includes : List String := [
    "cstdint", "glaze/glaze.hpp", "map", "optional", "string_view", "tuple", "unordered_map",
    "variant", "vector"]
  /-- The header with the hand-written support code. -/
  baseHeader : String := "LSProtocolBase.h"
  /-- The enumerations that are mere strings in the generated code. -/
  passThroughEnums : List String := ["LanguageKind"]
  builtins : List Builtin := [
    ⟨"LSPAny", "glz::json_t"⟩,
    ⟨"LSPArray", "std::vector<LSPAny>"⟩,
    ⟨"LSPObject", "std::map<std::string_view, LSPAny>"⟩]
  deriving DecidableEq

namespace Builtin

def toJson (b : Builtin) : Json :=
  .object [("name", .string b.name), ("definition", .string b.definition)]

def ofJson? (v : Json) : Option Builtin := do
  let field ← record? ["name", "definition"] v (Nat.le_refl _)
  return {
    name := ← required (field "name") (string? ·.1)
    definition := ← required (field "definition") (string? ·.1) }

end Builtin

namespace Options

def isBuiltin (options : Options) (name : String) : Bool :=
  options.builtins.any (·.name = name)

def isPassThrough (options : Options) (name : String) : Bool :=
  options.passThroughEnums.any (· = name)

/-- The same options with the definitions in the header. -/
def combined (options : Options) : Options :=
  { options with sourcePath := none }

def toJson (o : Options) : Json :=
  .object [("namespace", .string o.namespaceName),
    ("headerPath", .string o.headerPath),
    ("sourcePath", (o.sourcePath.map .string).getD .null),
    ("includes", .array (o.includes.map .string)),
    ("baseHeader", .string o.baseHeader),
    ("passThroughEnums", .array (o.passThroughEnums.map .string)),
    ("builtins", .array (o.builtins.map Builtin.toJson))]

def ofJson? (v : Json) : Option Options := do
  let field ← record? ["namespace", "headerPath", "sourcePath", "includes", "baseHeader",
    "passThroughEnums", "builtins"] v (Nat.le_refl _)
  let usual : Options := {}
  return {
    namespaceName := ← withDefault usual.namespaceName (field "namespace") (string? ·.1)
    headerPath := ← withDefault usual.headerPath (field "headerPath") (string? ·.1)
    sourcePath := ← withDefault usual.sourcePath (field "sourcePath")
      fun p => nullable (some p) (string? ·.1)
    includes := ← withDefault usual.includes (field "includes") (listOf (string? ·.1))
    baseHeader := ← withDefault usual.baseHeader (field "baseHeader") (string? ·.1)
    passThroughEnums := ← withDefault usual.passThroughEnums (field "passThroughEnums")
      (listOf (string? ·.1))
    builtins := ← withDefault usual.builtins (field "builtins") (listOf (Builtin.ofJson? ·.1)) }

def shape : Shape :=
  .record [("namespace", .text), ("headerPath", .text), ("sourcePath", .orNull .text),
    ("includes", .list .text), ("baseHeader", .text), ("passThroughEnums", .list .text),
    ("builtins", .list
      (.record [("name", .text), ("definition", .text)] ["name", "definition"]))] []

def ofText (text : String) : Except DecodeError Options :=
  shape.decode ofJson? text

end Options

end ProtocolBindings
