import ProtocolBindings.Json.Numeral

namespace ProtocolBindings

inductive Json where
  | null
  | bool (value : Bool)
  | integer (value : Int)
  | decimal (value : Numeral)
  | string (value : String)
  | array (elements : List Json)
  | object (fields : List (String × Json))
  deriving Inhabited

namespace Json

mutual

def decEq (v w : Json) : Decidable (v = w) :=
  if h : v.ctorIdx = w.ctorIdx then
    match v, w, h with
    | .null, .null, _ => isTrue rfl
    | .bool a, .bool b, _ => decidable_of_iff (a = b) ⟨congrArg _, bool.inj⟩
    | .integer a, .integer b, _ => decidable_of_iff (a = b) ⟨congrArg _, integer.inj⟩
    | .decimal a, .decimal b, _ => decidable_of_iff (a = b) ⟨congrArg _, decimal.inj⟩
    | .string a, .string b, _ => decidable_of_iff (a = b) ⟨congrArg _, string.inj⟩
    | .array vs, .array ws, _ =>
      have := decEqAll vs ws
      decidable_of_iff (vs = ws) ⟨congrArg _, array.inj⟩
    | .object fs, .object gs, _ =>
      have := decEqFields fs gs
      decidable_of_iff (fs = gs) ⟨congrArg _, object.inj⟩
  else isFalse fun e => h (e ▸ rfl)

def decEqAll : (vs ws : List Json) → Decidable (vs = ws)
  | [], [] => isTrue rfl
  | v :: vs, w :: ws =>
    have := decEq v w
    have := decEqAll vs ws
    decidable_of_iff (v = w ∧ vs = ws) List.cons_eq_cons.symm
  | [], _ :: _ | _ :: _, [] => isFalse (by intro h; cases h)

def decEqFields : (fs gs : List (String × Json)) → Decidable (fs = gs)
  | [], [] => isTrue rfl
  | (k, v) :: fs, (l, w) :: gs =>
    have := decEq v w
    have := decEqFields fs gs
    decidable_of_iff ((k = l ∧ v = w) ∧ fs = gs) (by simp)
  | [], _ :: _ | _ :: _, [] => isFalse (by intro h; cases h)

end

instance : DecidableEq Json := decEq

end Json

/-- Why a text does not decode: it ends too early, it is no JSON, or the JSON has another shape. -/
inductive DecodeError where
  | endOfText
  | malformed
  | wrongShape
  deriving DecidableEq, Repr

/-- Why a text stops being JSON: the reason that counts if the part at fault is read, and the one
that counts if it is passed over. -/
structure Fault where
  read : DecodeError
  skipped : DecodeError
  deriving DecidableEq

/-- JSON as written. A string with an unpaired surrogate has no text. A container with a fault ends
there, and so do the containers around it. -/
inductive Document where
  | null
  | bool (value : Bool)
  | numeral (value : Numeral)
  | string (text : Option String)
  | array (elements : List Document) (fault : Option Fault)
  | object (fields : List (Option String × Document)) (fault : Option Fault)
  /-- In place of a value. -/
  | broken (fault : Fault)
  deriving Inhabited

namespace Document

/-- The fault that a document ends with. -/
def fault? : Document → Option Fault
  | .array _ fault | .object _ fault => fault
  | .broken fault => some fault
  | .null | .bool _ | .numeral _ | .string _ => none

end Document

end ProtocolBindings
