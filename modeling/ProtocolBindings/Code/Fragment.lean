import ProtocolBindings.Code.Member
import ProtocolBindings.Gap

namespace ProtocolBindings

/-- What a generated class derives from. -/
inductive Wrapper where
  | struct
  /-- A union, with the types of its alternatives. -/
  | union (alternatives : List CppType)
  deriving DecidableEq

namespace Wrapper

def name : Wrapper → String
  | .struct => "StructWrapper"
  | .union _ => "UnionStructWrapper"

def base (w : Wrapper) : String :=
  match w with
  | .struct => w.name
  | .union alternatives => template w.name (CppType.texts alternatives)

end Wrapper

inductive Fragment where
  | gap (gap : Gap)
  | comment (line : String)
  | blank
  | openClass (name : String) (wrapper : Wrapper)
  | declare (signature : Signature)
  | define (definition : Definition)
  | closeClass
  /-- Goes back to the level around an unfinished class. -/
  | leaveClass
  deriving DecidableEq

namespace Fragment

/-- A member function of the class `scope`: declared in the class, defined outside. -/
def member (scope : String) (signature : Signature) (body : Body) : List Fragment :=
  [.declare signature, .define ⟨scope, signature, body⟩]

/-- Writes a fragment into the header. -/
def toHeader (l : Listing) : Fragment → Listing
  | .comment line => l.write line
  | .blank => l.blank
  | .openClass name wrapper =>
    let l := (l.write ("struct " ++ name ++ " : detail::" ++ wrapper.base ++ " \x7b")).indent
    (l.write ("using " ++ wrapper.name ++ "::" ++ wrapper.name ++ ";")).blank
  | .declare signature => l.write signature.declaration
  | .closeClass => (l.unindent.write "\x7d;").blank
  | .leaveClass => l.unindent
  | .gap _ | .define _ => l

/-- Writes a fragment into the source. -/
def toSource (l : Listing) : Fragment → Listing
  | .define definition => definition.write l
  | _ => l

def gap? : Fragment → Option Gap
  | .gap g => some g
  | _ => none

/-- The header of a sequence of fragments, written after what is there. -/
def header (l : Listing) (fragments : List Fragment) : Listing :=
  fragments.foldl toHeader l

def source (l : Listing) (fragments : List Fragment) : Listing :=
  fragments.foldl toSource l

def gaps (fragments : List Fragment) : List Gap :=
  fragments.filterMap gap?

end Fragment

end ProtocolBindings
