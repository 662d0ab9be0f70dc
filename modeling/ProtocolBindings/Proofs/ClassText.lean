import Mathlib.Data.List.Forall2
import ProtocolBindings.Gap
import ProtocolBindings.Types.CppType

namespace ProtocolBindings

/-- Two blanks for each level before a line, unless it is empty. -/
def Text.indented (level : Nat) (line : String) : String :=
  if line = "" then "" else String.join (List.replicate level "  ") ++ line

theorem Text.indented_zero (line : String) : indented 0 line = line := by
  unfold indented
  split
  · next h => exact h.symm
  · exact String.empty_append

theorem Text.indented_indented (m n : Nat) (line : String) :
    indented m (indented n line) = indented (m + n) line := by
  by_cases h : line = ""
  · simp [indented, h]
  · have hne : String.join (List.replicate n "  ") ++ line ≠ "" := fun he =>
      h (String.append_eq_empty_iff.mp he).2
    rw [indented, indented, if_neg h, if_neg hne, ← String.append_assoc, ← String.join_append,
      List.replicate_append_replicate, indented, if_neg h]

/-- A name inside a class; outside of all classes it stands alone. -/
def qualified (scope name : String) : String :=
  if scope = "" then name else scope ++ "::" ++ name

namespace CppType

mutual

def spelling : CppType → String
  | .word _ text => text
  | .nested scope name => scope ++ "::" ++ name
  | .template name arguments => name ++ "<" ++ ", ".intercalate (spellings arguments) ++ ">"

def spellings : List CppType → List String
  | [] => []
  | type :: types => type.spelling :: spellings types

end

mutual

theorem text_eq_spelling : (type : CppType) → type.text = type.spelling
  | .word _ _ | .nested _ _ => rfl
  | .template name arguments => by
    rw [text, spelling, ← texts_eq_spellings arguments]
    rfl

theorem texts_eq_spellings : (types : List CppType) → texts types = spellings types
  | [] => rfl
  | type :: types => by
    rw [texts, spellings, text_eq_spelling type, texts_eq_spellings types]

end

end CppType

/-- A member function as its callers see it, with its types as they are spelled. -/
structure Prototype where
  result : Option String
  name : String
  parameter : Option String := none
  isConst : Bool := false
  deriving DecidableEq

namespace Prototype

def ending (p : Prototype) : String :=
  p.parameter.elim "()" (fun type => "(" ++ type ++ " val)") ++ if p.isConst then " const" else ""

def declaration (p : Prototype) : String :=
  match p.result with
  | some type => "[[nodiscard]] " ++ type ++ " " ++ p.name ++ p.ending ++ ";"
  | none => "void " ++ p.name ++ p.ending ++ ";"

def heading (p : Prototype) : String :=
  p.result.getD "void" ++ " " ++ p.name ++ p.ending

/-- The function under the name by which it is defined outside of its class. -/
def within (scope : String) (p : Prototype) : Prototype :=
  { p with name := scope ++ "::" ++ p.name }

end Prototype

structure Method extends Prototype where
  statements : List String
  /-- The statements stand on lines of their own. -/
  isBlock : Bool := false
  deriving DecidableEq

def Method.definition (scope : String) (m : Method) : List String :=
  let heading := (m.toPrototype.within scope).heading
  if m.isBlock then
    (heading ++ " \x7b") :: (m.statements.map (Text.indented 1) ++ ["\x7d", ""])
  else [heading ++ " \x7b " ++ " ".intercalate m.statements ++ " \x7d"]

inductive Piece where
  /-- Something has been left out here; there is no line for it. -/
  | gap (gap : Gap)
  | comment (text : String)
  | blank
  | method (method : Method)
  /-- A class with what stands in it. That of a union names the types of its alternatives. -/
  | inner (name : String) (alternatives : Option (List String)) (content : List Piece)

namespace Piece

def baseClass : Option (List String) → String
  | none => "StructWrapper"
  | some types => "UnionStructWrapper<" ++ ", ".intercalate types ++ ">"

/-- How a class begins: what it derives from, and the constructors of that. -/
def opening (name : String) (alternatives : Option (List String)) : List String :=
  ["struct " ++ name ++ " : detail::" ++ baseClass alternatives ++ " \x7b",
    alternatives.elim "  using StructWrapper::StructWrapper;"
      fun _ => "  using UnionStructWrapper::UnionStructWrapper;",
    ""]

mutual

def headerLines : Piece → List String
  | .gap _ => []
  | .comment text => ["//" ++ text]
  | .blank => [""]
  | .method m => [m.toPrototype.declaration]
  | .inner name alternatives content =>
    opening name alternatives ++ (headerLinesAll content).map (Text.indented 1) ++ ["\x7d;", ""]

def headerLinesAll : List Piece → List String
  | [] => []
  | piece :: pieces => piece.headerLines ++ headerLinesAll pieces

end

mutual

def sourceLines (scope : String) : Piece → List String
  | .gap _ | .comment _ | .blank => []
  | .method m => m.definition scope
  | .inner name _ content => sourceLinesAll (qualified scope name) content

def sourceLinesAll (scope : String) : List Piece → List String
  | [] => []
  | piece :: pieces => piece.sourceLines scope ++ sourceLinesAll scope pieces

end

mutual

def gaps : Piece → List Gap
  | .gap g => [g]
  | .comment _ | .blank | .method _ => []
  | .inner _ _ content => gapsAll content

def gapsAll : List Piece → List Gap
  | [] => []
  | piece :: pieces => piece.gaps ++ gapsAll pieces

end

def method? : Piece → Option Method
  | .method m => some m
  | _ => none

def isInner : Piece → Bool
  | .inner _ _ _ => true
  | _ => false

/-- The functions among pieces, without looking into the classes among them. -/
def methods (pieces : List Piece) : List Method :=
  pieces.filterMap method?

def classes (pieces : List Piece) : List Piece :=
  pieces.filter isInner

theorem headerLinesAll_eq_flatMap (pieces : List Piece) :
    headerLinesAll pieces = pieces.flatMap headerLines := by
  induction pieces with
  | nil => rfl
  | cons piece pieces ih => rw [headerLinesAll, List.flatMap_cons, ih]

theorem sourceLinesAll_eq_flatMap (scope : String) (pieces : List Piece) :
    sourceLinesAll scope pieces = pieces.flatMap (sourceLines scope) := by
  induction pieces with
  | nil => rfl
  | cons piece pieces ih => rw [sourceLinesAll, List.flatMap_cons, ih]

theorem gapsAll_eq_flatMap (pieces : List Piece) : gapsAll pieces = pieces.flatMap gaps := by
  induction pieces with
  | nil => rfl
  | cons piece pieces ih => rw [gapsAll, List.flatMap_cons, ih]

theorem headerLinesAll_append (pieces others : List Piece) :
    headerLinesAll (pieces ++ others) = headerLinesAll pieces ++ headerLinesAll others := by
  simp only [headerLinesAll_eq_flatMap, List.flatMap_append]

theorem sourceLinesAll_append (scope : String) (pieces others : List Piece) :
    sourceLinesAll scope (pieces ++ others) =
      sourceLinesAll scope pieces ++ sourceLinesAll scope others := by
  simp only [sourceLinesAll_eq_flatMap, List.flatMap_append]

theorem gapsAll_append (pieces others : List Piece) :
    gapsAll (pieces ++ others) = gapsAll pieces ++ gapsAll others := by
  simp only [gapsAll_eq_flatMap, List.flatMap_append]

theorem methods_append (pieces others : List Piece) :
    methods (pieces ++ others) = methods pieces ++ methods others :=
  List.filterMap_append

theorem classes_append (pieces others : List Piece) :
    classes (pieces ++ others) = classes pieces ++ classes others :=
  List.filter_append pieces others

end Piece

end ProtocolBindings
