import ProtocolBindings.Json.Value

namespace ProtocolBindings.Json

/-- A value that is smaller than another one. -/
abbrev Part (whole : Json) := { part : Json // sizeOf part < sizeOf whole }

theorem sizeOf_lt_array {v : Json} {elements : List Json} (h : v ∈ elements) :
    sizeOf v < sizeOf (array elements) := by
  have := List.sizeOf_lt_of_mem h
  simp only [array.sizeOf_spec]
  omega

theorem sizeOf_lt_object {field : String × Json} {fields : List (String × Json)}
    (h : field ∈ fields) : sizeOf field.2 < sizeOf (object fields) := by
  have hf := List.sizeOf_lt_of_mem h
  obtain ⟨key, v⟩ := field
  simp only [Prod.mk.sizeOf_spec] at hf
  simp only [object.sizeOf_spec]
  omega

/-- The elements of an array. -/
def elements? {whole : Json} : (v : Json) → sizeOf v ≤ sizeOf whole → Option (List (Part whole))
  | .array elements, h =>
    some (elements.attach.map fun e => ⟨e.1, Nat.lt_of_lt_of_le (sizeOf_lt_array e.2) h⟩)
  | _, _ => none

/-- The fields of an object. -/
def fields? {whole : Json} :
    (v : Json) → sizeOf v ≤ sizeOf whole → Option (List (String × Part whole))
  | .object fields, h =>
    some (fields.attach.map fun f => (f.1.1, ⟨f.1.2, Nat.lt_of_lt_of_le (sizeOf_lt_object f.2) h⟩))
  | _, _ => none

/-- Do all the names occur at most once as keys? -/
def unrepeated {α : Type} (names : List String) (fields : List (String × α)) : Bool :=
  names.all fun name => (fields.filter (·.1 = name)).length ≤ 1

/-- The fields of a record by name. -/
def record? {whole : Json} (names : List String) (v : Json) (h : sizeOf v ≤ sizeOf whole) :
    Option (String → Option (Part whole)) :=
  match fields? v h, elements? v h with
  | some fields, _ => if unrepeated names fields then some (fields.lookup ·) else none
  | none, some elements =>
    if elements.length ≤ names.length then some ((names.zip elements).lookup ·) else none
  | none, none => none

def string? : Json → Option String
  | .string text => some text
  | _ => none

def bool? : Json → Option Bool
  | .bool b => some b
  | _ => none

section Fields

variable {whole : Json} {α : Type}

/-- A field that has to be there. -/
def required (field : Option (Part whole)) (decode : Part whole → Option α) : Option α :=
  field.bind decode

/-- A field that has a value when it is left out. -/
def withDefault (default : α) (field : Option (Part whole)) (decode : Part whole → Option α) :
    Option α :=
  match field with
  | some part => decode part
  | none => some default

/-- A field that may be left out or null. -/
def nullable (field : Option (Part whole)) (decode : Part whole → Option α) : Option (Option α) :=
  match field with
  | some ⟨.null, _⟩ => some none
  | some part => (decode part).map some
  | none => some none

/-- A list, each element decoded. -/
def listOf (decode : Part whole → Option α) (part : Part whole) : Option (List α) :=
  (elements? part.1 (Nat.le_of_lt part.2)).bind (·.mapM decode)

end Fields

end ProtocolBindings.Json
