import ProtocolBindings.Distinct
import ProtocolBindings.Schema.Basic
import ProtocolBindings.Schema.Error

namespace ProtocolBindings

/-- The part of a walk from a name on, with the name again at its end. -/
def closedWalk (path : List String) (name : String) : List String :=
  path.dropWhile (· ≠ name) ++ [name]

namespace Schema

/-- The structure that a parent of `child` stands for. -/
def parent (schema : Schema) (child : String) : TypeSpec → Except SchemaError Structure
  | .reference name =>
    match schema.structure? name with
    | some s => .ok s
    | none => .error (.unknownParent child name)
  | other => .error (.unknownParent child other.kind.word)

theorem mem_structures_of_structure? {schema : Schema} {name : String} {s : Structure}
    (h : schema.structure? name = some s) : s ∈ schema.structures ∧ s.name = name := by
  have hn := List.find?_some h
  exact ⟨List.mem_of_find?_eq_some h, by simpa using hn⟩

theorem mem_structures_of_parent {schema : Schema} {child : String} {p : TypeSpec}
    {s : Structure} (h : schema.parent child p = .ok s) : s ∈ schema.structures := by
  unfold parent at h
  split at h
  · split at h
    · next found => cases h; exact (mem_structures_of_structure? found).1
    · cases h
  · cases h

/-- The structures whose names a walk has not passed. -/
def unpassed (schema : Schema) (path : List String) : List Structure :=
  without Structure.name path schema.structures

/-- Collects the properties that come with a parent of `child` behind those found so far: the ones
of the parent, then those of its own parents in turn. A property whose name is taken is left out. -/
def collect (schema : Schema) (path : List String) (child : String) (found : List Property)
    (p : TypeSpec) : Except SchemaError (List Property) :=
  match _h : schema.parent child p with
  | .error e => .error e
  | .ok s =>
    if _hp : s.name ∈ path then .error (.inheritanceCycle (closedWalk path s.name))
    else
      s.parents.foldlM (schema.collect (path ++ [s.name]) s.name)
        (s.properties.foldl (addNew Property.name) found)
termination_by (schema.unpassed path).length
decreasing_by exact length_without_lt (mem_structures_of_parent _h) _hp (by simp)

/-- The fields of a structure: its own properties, then those of its parents in order. The first
property of a name hides the later ones. -/
def flatten (schema : Schema) (s : Structure) : Except SchemaError (List Property) :=
  s.parents.foldlM (schema.collect [s.name] s.name) (s.properties.foldl (addNew Property.name) [])

end Schema

end ProtocolBindings
