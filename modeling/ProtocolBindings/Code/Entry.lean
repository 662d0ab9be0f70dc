import ProtocolBindings.Code.Listing
import ProtocolBindings.Distinct
import ProtocolBindings.Schema.Error
import ProtocolBindings.Text.Comment

namespace ProtocolBindings

/-- The code of one named type. -/
structure Entry where
  name : String
  /-- Declarations, inside the namespace. -/
  header : Listing := .empty
  /-- Definitions outside of classes. -/
  implementation : Listing := .empty
  /-- What follows after the namespace has closed. -/
  appendix : Listing := .empty
  /-- The names that have to be emitted before this one. -/
  dependencies : List String := []
  /-- The type is defined elsewhere, and never emitted. -/
  external : Bool := false
  deriving DecidableEq

/-- A new listing that starts with the documentation, if there is any. -/
def Entry.documented (documentation : Option String) : Listing :=
  Listing.empty.writeAll (documentation.elim [] Text.blockComment)

/-- The entry with other dependencies: the name itself and repetitions are left out. -/
def Entry.withDependencies (entry : Entry) (names : List String) : Entry :=
  { entry with dependencies := distinctBy id (names.filter (· ≠ entry.name)) }

/-- Entries of pairwise different names. -/
structure Registry where
  entries : List Entry := []
  distinct : (entries.map Entry.name).Nodup := by simp

namespace Registry

def empty : Registry := {}

def names (r : Registry) : List String :=
  r.entries.map Entry.name

def insert (r : Registry) (entry : Entry) : Except SchemaError Registry :=
  if h : entry.name ∈ r.names then .error (.duplicateDefinition entry.name)
  else .ok {
    entries := r.entries ++ [entry]
    distinct := by
      rw [List.map_append, List.nodup_append]
      refine ⟨r.distinct, by simp, ?_⟩
      intro a ha b hb hab
      have hb' : b = entry.name := by simpa using hb
      exact h (hb' ▸ hab ▸ ha) }

def get? (r : Registry) (name : String) : Option Entry :=
  r.entries.find? (·.name = name)

def indexOf? (r : Registry) (name : String) : Option Nat :=
  r.entries.findIdx? (·.name = name)

def size (r : Registry) : Nat :=
  r.entries.length

end Registry

end ProtocolBindings
