import ProtocolBindings.Code.Listing
import ProtocolBindings.Text.Quoted
import ProtocolBindings.Types.CppType

namespace ProtocolBindings

/-- What a caller sees of a member function. -/
structure Signature where
  /-- The type of the result, if there is one. -/
  result : Option CppType
  name : String
  /-- The type of the one parameter, if there is one. -/
  parameter : Option CppType := none
  isConst : Bool := false
  deriving DecidableEq

namespace Signature

def parameters (s : Signature) : String :=
  match s.parameter with
  | some type => "(" ++ type.text ++ " val)"
  | none => "()"

def suffix (s : Signature) : String :=
  s.parameters ++ if s.isConst then " const" else ""

/-- The declaration inside the class. A result may not be discarded. -/
def declaration (s : Signature) : String :=
  match s.result with
  | some type => "[[nodiscard]] " ++ type.text ++ " " ++ s.name ++ s.suffix ++ ";"
  | none => "void " ++ s.name ++ s.suffix ++ ";"

/-- The head of the definition outside the class `scope`. -/
def heading (scope : String) (s : Signature) : String :=
  s.result.elim "void" CppType.text ++ " " ++ scope ++ "::" ++ s.name ++ s.suffix

/-- Reads a field. -/
def getter (type : CppType) (accessor : String) : Signature :=
  { result := some type, name := accessor }

/-- Tells whether an optional field is there. -/
def presence (accessor : String) : Signature :=
  { result := some (.plain "bool"), name := "has_" ++ accessor, isConst := true }

/-- Writes a field or an alternative in place. -/
def setter (type : CppType) (accessor : String) : Signature :=
  { result := none, name := "set_" ++ accessor, parameter := some type }

/-- Adds an optional field that has storage of its own. -/
def adder (type : CppType) (accessor : String) : Signature :=
  { result := some type, name := "add_" ++ accessor }

/-- Tells whether a union holds an alternative. -/
def holds (label : String) : Signature :=
  { result := some (.plain "bool"), name := "holds_" ++ label, isConst := true }

/-- Reads a union as one of its alternatives. -/
def readAs (type : CppType) (label : String) : Signature :=
  { result := some type, name := "as_" ++ label }

/-- Sets up the mandatory parts of a structure. -/
def initializer : Signature := { result := none, name := "init" }

end Signature

/-- How the value of a document node is obtained. -/
inductive Access where
  | primitive
  | enumeration
  /-- By wrapping the node. -/
  | wrapper
  /-- Not at all: a stand-in is made up. -/
  | placeholder
  deriving DecidableEq

/-- The value of `type` at a node. -/
def Access.value (access : Access) (type node : String) : String :=
  match access with
  | .primitive => "detail::NodeAsPrimitive<" ++ type ++ ">(" ++ node ++ ")"
  | .enumeration => "detail::DeserializeEnum<" ++ type ++ ">(" ++ node ++ ")"
  | .wrapper => type ++ "(" ++ node ++ ")"
  | .placeholder => type ++ "\x7b\x7d"

/-- What a member function does. Fields are named by their keys in the document. -/
inductive Body where
  | testAlternative (type : CppType)
  | readAlternative (access : Access) (type : CppType)
  /-- The stand-in for an alternative that cannot be read. -/
  | missingAlternative
  | writeAlternative
  | readField (optional : Bool) (access : Access) (type : CppType) (key : String)
  | testField (key : String)
  | writeField (enumeration : Bool) (key : String)
  | addField (type : CppType) (key : String)
  /-- Adds fields of these types and keys, each set up in turn. -/
  | setUp (fields : List (CppType × String))
  deriving DecidableEq

namespace Body

def find (key : String) : String :=
  "n_.find_child(" ++ Text.quote key ++ ")"

def append (key : String) : String :=
  "n_.append_child() << ryml::key(" ++ Text.quote key ++ ")"

def statements : Body → List String
  | .testAlternative type => ["return detail::NodeHolds<" ++ type.text ++ ">(n_);"]
  | .readAlternative .wrapper _ => ["return \x7bn_\x7d;"]
  | .readAlternative .placeholder _ => ["return " ++ literalStub ++ "\x7b\x7d;"]
  | .readAlternative access type => ["return " ++ access.value type.text "n_" ++ ";"]
  | .missingAlternative => ["return \x7b\x7d;"]
  | .writeAlternative => ["detail::SetPrimitive(n_, val);"]
  | .readField false access type key => ["return " ++ access.value type.text (find key) ++ ";"]
  | .readField true access type key =>
    ["auto c = " ++ find key ++ ";", "if (c.invalid()) \x7b return std::nullopt; \x7d",
      "return " ++ access.value type.text "c" ++ ";"]
  | .testField key => ["return n_.has_child(" ++ Text.quote key ++ ");"]
  | .writeField enumeration key =>
    ["auto c = " ++ find key ++ ";", "if (c.invalid()) \x7b c = " ++ append key ++ "; \x7d",
      if enumeration then "detail::SerializeEnum(val, c);" else "detail::SetPrimitive(c, val);"]
  | .addField type key =>
    ["auto w = " ++ type.text ++ "(" ++ append key ++ ");", "w.init();", "return w;"]
  | .setUp fields =>
    "StructWrapper::init();" ::
      fields.map fun (type, key) => type.text ++ "(" ++ append key ++ ").init();"

end Body

/-- A member function defined outside its class. -/
structure Definition where
  /-- The qualified name of the class. -/
  scope : String
  signature : Signature
  body : Body
  deriving DecidableEq

namespace Definition

/-- Writes the definition: the initializer as a block, the others on a line each. -/
def write (l : Listing) (d : Definition) : Listing :=
  let heading := d.signature.heading d.scope
  match d.body with
  | .setUp _ =>
    let l := l.write (heading ++ " \x7b")
    let l := l.indented (·.writeAll d.body.statements)
    (l.write "\x7d").blank
  | _ => l.write (heading ++ " \x7b " ++ " ".intercalate d.body.statements ++ " \x7d")

end Definition

end ProtocolBindings
