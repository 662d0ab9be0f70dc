import ProtocolBindings.Code.Entry
import ProtocolBindings.Options
import ProtocolBindings.Schema.Basic
import ProtocolBindings.Text.Identifier
import ProtocolBindings.Text.Quoted

namespace ProtocolBindings

/-- The integer type below an enumeration. -/
inductive Underlying where
  | uint8
  | uint32
  | int32
  deriving DecidableEq, Repr

namespace Underlying

def text : Underlying → String
  | .uint8 => "std::uint8_t"
  | .uint32 => "std::uint32_t"
  | .int32 => "std::int32_t"

def least : Underlying → Int
  | .uint8 | .uint32 => 0
  | .int32 => -2147483648

def greatest : Underlying → Int
  | .uint8 => 255
  | .uint32 => 4294967295
  | .int32 => 2147483647

/-- The type through which the integers of an enumeration go over the wire. -/
def wire : Underlying → Underlying
  | .uint32 => .uint32
  | .uint8 | .int32 => .int32

end Underlying

/-- What the values of an enumeration are on the wire. -/
inductive Representation where
  | integer (underlying : Underlying)
  /-- Strings, numbered in the order of declaration. -/
  | string (underlying : Underlying)
  deriving DecidableEq, Repr

def Representation.underlying : Representation → Underlying
  | .integer underlying | .string underlying => underlying

namespace EnumLiteral

def integer? : EnumLiteral → Option Int
  | .integer value => some value.toInt
  | .string _ => none

/-- The literal as it stands in the generated code. -/
def text : EnumLiteral → String
  | .integer value => toString value.toInt
  | .string value => Text.quote value

end EnumLiteral

namespace Enumeration

/-- The values that are integers. -/
def integers (e : Enumeration) : List Int :=
  e.values.filterMap (·.value.integer?)

/-- The narrowest type for integers, signed once one of them is negative. -/
def integerUnderlying (e : Enumeration) : Except SchemaError Underlying :=
  let least := e.integers.min?.getD 0
  let greatest := e.integers.max?.getD 0
  if least < 0 then
    if least < Underlying.int32.least then .error (.enumValueOutOfRange e.name least)
    else if Underlying.int32.greatest < greatest then
      .error (.enumValueOutOfRange e.name greatest)
    else .ok .int32
  else if greatest ≤ Underlying.uint8.greatest then .ok .uint8
  else if greatest ≤ Underlying.uint32.greatest then .ok .uint32
  else .error (.enumValueOutOfRange e.name greatest)

/-- The number of values that are strings, in 32 bits. -/
def stringCount (e : Enumeration) : Int32 :=
  e.values.foldl (fun count v => if v.value.integer?.isSome then count else count + 1) 0

/-- The representation of the values, which have to be all integers or all strings. -/
def representation (e : Enumeration) : Except SchemaError Representation :=
  if 0 < e.stringCount then
    if e.integers.isEmpty then .ok (.string (if e.stringCount ≤ 256 then .uint8 else .uint32))
    else .error (.mixedEnum e.name)
  else e.integerUnderlying.map .integer

/-- The constants of values, given the constants before them. -/
def constantsFrom (owner : String) (taken : List String) :
    List EnumValue → Except SchemaError (List String)
  | [] => .ok []
  | value :: values =>
    let name := Text.enumConstant value.name
    if !Text.isIdentifier name then .error (.invalidIdentifier owner name)
    else if name ∈ taken then .error (.nameCollision owner name)
    else do return name :: (← constantsFrom owner (name :: taken) values)

/-- The names of the constants, which have to be different identifiers. -/
def constants (e : Enumeration) : Except SchemaError (List String) :=
  constantsFrom e.name [] e.values

/-- One value of an enumeration with its constant. -/
structure Case where
  constant : String
  value : EnumValue
  deriving DecidableEq

def Case.literal (c : Case) : String :=
  c.value.value.text

/-- The declaration of one constant; the first one has no blank line before its comment. -/
def declareCase (representation : Representation) (l : Listing) (c : Case) (isFirst : Bool) :
    Listing :=
  let l :=
    match c.value.documentation with
    | some doc => (if isFirst then l else l.blank).writeAll (Text.lineComments doc)
    | none => l
  match c.value.value, representation with
  | .integer n, .integer _ => l.write (c.constant ++ " = " ++ toString n.toInt ++ ",")
  | _, _ => l.write (c.constant ++ ",")

def declareCases (representation : Representation) (l : Listing) : List Case → Listing
  | [] => l
  | first :: rest =>
    rest.foldl (declareCase representation · · false) (declareCase representation l first true)

/-- The declaration of the enumeration. -/
def declaration (e : Enumeration) (representation : Representation) (cases : List Case) :
    Listing :=
  let l := Entry.documented e.documentation
  let l := l.write ("enum class " ++ e.name ++ " : " ++ representation.underlying.text ++ " \x7b")
  let l := l.indented (declareCases representation · cases)
  (l.write "\x7d;").blank

/-- A specialization of a function template, with its body. -/
def specialization (l : Listing) (heading : String) (body : Listing → Listing) : Listing :=
  let l := (l.write "template <>").write (heading ++ " \x7b")
  ((l.indented body).write "\x7d").blank

def serializeHeading (name : String) : String :=
  "void detail::SerializeEnum(" ++ name ++ " val, ryml::NodeRef n)"

def deserializeHeading (name : String) : String :=
  name ++ " detail::DeserializeEnum(ryml::ConstNodeRef n)"

/-- The conversion of integers: a cast to the wire type and back. -/
def castConversion (name : String) (wire : Underlying) : Listing :=
  let l := specialization .empty (serializeHeading name)
    (·.write ("detail::SetPrimitive(n, static_cast<" ++ wire.text ++ ">(val));"))
  specialization l (deserializeHeading name)
    (·.write ("return static_cast<" ++ name ++ ">(detail::NodeAsPrimitive<" ++ wire.text ++
      ">(n));"))

/-- The branch that writes a constant as its string. -/
def writeBranch (name : String) (c : Case) : String :=
  "case " ++ name ++ "::" ++ c.constant ++ ": n = " ++ c.literal ++ "; break;"

/-- The test that reads a string as its constant. -/
def readBranch (name : String) (c : Case) : String :=
  "if (" ++ c.literal ++ " == tv) \x7b return " ++ name ++ "::" ++ c.constant ++ "; \x7d"

/-- The conversion of strings: one branch for each value, in both directions. -/
def tableConversion (name : String) (cases : List Case) : Listing :=
  let l := specialization .empty (serializeHeading name) fun l =>
    ((l.write "switch (val) \x7b").indented (·.writeAll (cases.map (writeBranch name)))).write
      "\x7d"
  specialization l (deserializeHeading name) fun l =>
    ((l.write "const auto tv = n.val();").writeAll (cases.map (readBranch name))).writeAll
      ["assert(false);", "return \x7b\x7d;"]

/-- The table that pairs every constant with its string. -/
def lookupTable (qualified : String) (cases : List Case) : Listing :=
  let pairs := cases.map fun c => c.literal ++ ", " ++ c.constant
  let l := Listing.empty.writeAll ["template <>", "struct glz::meta<" ++ qualified ++ "> \x7b"]
  let l := l.indented (·.writeAll ["using enum " ++ qualified ++ ";",
    "static constexpr auto value = enumerate(" ++ ", ".intercalate pairs ++ ");"])
  l.write "\x7d;"

/-- The code of an enumeration. -/
def entry (options : Options) (e : Enumeration) : Except SchemaError Entry :=
  if options.isPassThrough e.name then
    .ok {
      name := e.name
      header := ((Entry.documented e.documentation).write
        ("using " ++ e.name ++ " = std::string_view;")).blank }
  else do
    let representation ← e.representation
    let constants ← e.constants
    let cases := constants.zipWith Case.mk e.values
    let header := e.declaration representation cases
    match representation with
    | .integer underlying =>
      return { name := e.name, header, implementation := castConversion e.name underlying.wire }
    | .string _ =>
      return {
        name := e.name
        header
        implementation := tableConversion e.name cases
        appendix := lookupTable (options.namespaceName ++ "::" ++ e.name) cases }

end Enumeration

end ProtocolBindings
