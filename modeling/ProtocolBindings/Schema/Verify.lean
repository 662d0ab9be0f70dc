import ProtocolBindings.Schema.Inheritance

namespace ProtocolBindings

/-- How far the walks from a structure have come. -/
inductive Visit
  | inProgress
  | done

namespace Schema

/-- The fault of the first parent that is no structure. -/
def firstUnknownParent (schema : Schema) : Option SchemaError :=
  schema.structures.findSome? fun s =>
    s.parents.findSome? fun p =>
      match schema.parent s.name p with
      | .ok _ => none
      | .error e => some e

/-- Walks from a structure along its parents, and marks the structures on the way. Those on the path
are in progress; those from which every walk is known to end are done. -/
def visit (schema : Schema) (path : List String) (state : List (String × Visit)) (s : Structure)
    (_hs : s ∈ schema.structures) : Except SchemaError (List (String × Visit)) :=
  match state.lookup s.name with
  | some .inProgress => .error (.inheritanceCycle (closedWalk path s.name))
  | some .done => .ok state
  | none =>
    -- Without a mark no name is on the path, which is what the recursion rests on.
    if _hp : s.name ∈ path then .ok state
    else do
      let state ← s.parents.foldlM
        (fun state p =>
          match h : schema.parent s.name p with
          | .error e => .error e
          | .ok t => schema.visit (path ++ [s.name]) state t (mem_structures_of_parent h))
        ((s.name, .inProgress) :: state)
      return (s.name, .done) :: state
termination_by (schema.unpassed path).length
decreasing_by exact length_without_lt _hs _hp (by simp)

def verify (schema : Schema) : Except SchemaError Unit :=
  match firstRepeated [] schema.definedNames with
  | some name => .error (.duplicateDefinition name)
  | none =>
    match schema.firstUnknownParent with
    | some e => .error e
    | none => do
      let _ ← schema.structures.attach.foldlM (fun state s => schema.visit [] state s.1 s.2) []
      return ()

end Schema

end ProtocolBindings
