namespace ProtocolBindings

/-- The stand-in for inline object types. -/
def literalStub : String := "LiteralStub"

/-- A template with its arguments. -/
def template (name : String) (arguments : List String) : String :=
  name ++ "<" ++ ", ".intercalate arguments ++ ">"

def optionalOf (expression : String) : String :=
  template "std::optional" [expression]

/-- What a single word of a type is. -/
inductive Origin where
  /-- A type of the language or its libraries. -/
  | language
  /-- A name to which the model refers. -/
  | model
  /-- Written for a type without a counterpart. -/
  | standIn
  deriving DecidableEq

inductive CppType where
  | word (origin : Origin) (text : String)
  /-- A class inside another one. -/
  | nested (scope name : String)
  | template (name : String) (arguments : List CppType)

namespace CppType

def plain (text : String) : CppType := .word .language text

def named (name : String) : CppType := .word .model name

def standIn (text : String) : CppType := .word .standIn text

def optional (type : CppType) : CppType :=
  .template "std::optional" [type]

mutual

/-- The type as it is written. -/
def text : CppType → String
  | .word _ text => text
  | .nested scope name => scope ++ "::" ++ name
  | .template name arguments => ProtocolBindings.template name (texts arguments)

def texts : List CppType → List String
  | [] => []
  | type :: types => type.text :: texts types

end

mutual

def decEq : (a b : CppType) → Decidable (a = b)
  | .word o s, .word p t => decidable_of_iff (o = p ∧ s = t) (by simp)
  | .nested s m, .nested t n => decidable_of_iff (s = t ∧ m = n) (by simp)
  | .template m as, .template n bs =>
    have := decEqAll as bs
    decidable_of_iff (m = n ∧ as = bs) (by simp)
  | .word _ _, .nested _ _ | .word _ _, .template _ _ | .nested _ _, .word _ _
  | .nested _ _, .template _ _ | .template _ _, .word _ _ | .template _ _, .nested _ _ =>
    isFalse (by intro h; cases h)

def decEqAll : (as bs : List CppType) → Decidable (as = bs)
  | [], [] => isTrue rfl
  | a :: as, b :: bs =>
    have := decEq a b
    have := decEqAll as bs
    decidable_of_iff (a = b ∧ as = bs) (by simp)
  | [], _ :: _ | _ :: _, [] => isFalse (by intro h; cases h)

end

instance : DecidableEq CppType := decEq

end CppType

end ProtocolBindings
