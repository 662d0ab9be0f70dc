import ProtocolBindings.Code.Entry

namespace ProtocolBindings

/-- Adds a number to an ascending list, unless it is there. -/
def insertAscending (n : Nat) : List Nat → List Nat
  | [] => [n]
  | m :: rest =>
    if n < m then n :: m :: rest
    else if n = m then m :: rest
    else m :: insertAscending n rest

namespace Registry

def isScheduled (r : Registry) (index : Nat) : Bool :=
  match r.entries[index]? with
  | some entry => !entry.external
  | none => false

/-- The positions of the entries to emit. -/
def scheduled (r : Registry) : List Nat :=
  (List.range r.size).filter r.isScheduled

/-- The other scheduled entries that a scheduled entry depends on, as often as it names them. -/
def prerequisites (r : Registry) (index : Nat) : List Nat :=
  match r.entries[index]? with
  | some entry =>
    if entry.external then []
    else (entry.dependencies.filterMap r.indexOf?).filter fun i => i ≠ index && r.isScheduled i
  | none => []

end Registry

/-- The dependencies of a registry by position. -/
structure DependencyGraph where
  /-- For each entry, those it depends on. -/
  prerequisites : Array (List Nat)
  /-- For each entry, those that depend on it. -/
  dependents : Array (List Nat)
  scheduled : List Nat

namespace DependencyGraph

def prerequisitesOf (g : DependencyGraph) (index : Nat) : List Nat :=
  g.prerequisites.getD index []

def dependentsOf (g : DependencyGraph) (index : Nat) : List Nat :=
  g.dependents.getD index []

/-- Enters an entry as a dependent of all its prerequisites. -/
def addDependent (dependents : Array (List Nat)) (edge : Nat × List Nat) : Array (List Nat) :=
  edge.2.foldl (fun dependents i => dependents.modify i (· ++ [edge.1])) dependents

def ofRegistry (r : Registry) : DependencyGraph :=
  let edges := (List.range r.size).map fun i => (i, r.prerequisites i)
  { prerequisites := (edges.map (·.2)).toArray
    dependents := edges.foldl addDependent (Array.replicate r.size [])
    scheduled := r.scheduled }

/-- How far the emission has come. -/
structure Progress where
  /-- For each entry, how many of its dependencies are still to be emitted. -/
  waiting : Array Nat
  /-- The entries that may come next, ascending. -/
  ready : List Nat
  /-- The entries emitted, last one first. -/
  emitted : List Nat

/-- At the start an entry is ready if it depends on nothing. -/
def start (g : DependencyGraph) : Progress where
  waiting := g.prerequisites.map List.length
  ready := g.scheduled.filter fun i => (g.prerequisitesOf i).isEmpty
  emitted := []

/-- One dependency of an entry has been emitted. -/
def release (p : Progress) (index : Nat) : Progress :=
  let left := p.waiting.getD index 0 - 1
  { p with
    waiting := p.waiting.modify index (· - 1)
    ready := if left = 0 then insertAscending index p.ready else p.ready }

/-- Emits the first ready entry. -/
def step (g : DependencyGraph) (p : Progress) : Progress :=
  match p.ready with
  | [] => p
  | index :: ready =>
    (g.dependentsOf index).foldl release { p with ready, emitted := index :: p.emitted }

/-- So many steps. -/
def run (g : DependencyGraph) : Nat → Progress → Progress
  | 0, p => p
  | n + 1, p => g.run n (g.step p)

/-- Where the emission ends: no entry is emitted twice, so that there are no more steps than
scheduled entries. -/
def finish (g : DependencyGraph) : Progress :=
  g.run g.scheduled.length g.start

/-- Follows, from entry to entry, the first dependency that was not emitted, until it comes back to
an entry on its path. The path is kept back to front. -/
def chase (g : DependencyGraph) (emitted unvisited path : List Nat) (current : Nat) : List Nat :=
  if current ∈ path then (path.reverse.dropWhile (· ≠ current)) ++ [current]
  else if _h : current ∈ unvisited then
    match (g.prerequisitesOf current).find? (· ∉ emitted) with
    | some next => g.chase emitted (unvisited.erase current) (current :: path) next
    | none => (current :: path).reverse
  else path.reverse
termination_by unvisited.length
decreasing_by
  have hl := List.length_erase_of_mem _h
  have hp := List.length_pos_of_mem _h
  omega

/-- A cycle among the entries that were not emitted, its first entry again at its end. -/
def cycle (g : DependencyGraph) (emitted : List Nat) : List Nat :=
  match g.scheduled.find? (· ∉ emitted) with
  | some first => g.chase emitted g.scheduled [] first
  | none => []

end DependencyGraph

namespace Registry

/-- The entries to emit, each after those it depends on. -/
def emissionOrder (r : Registry) : Except SchemaError (List Entry) :=
  let graph := DependencyGraph.ofRegistry r
  let emitted := graph.finish.emitted
  if emitted.length < graph.scheduled.length then
    let names := (graph.cycle emitted).filterMap fun i => r.entries[i]?.map Entry.name
    .error (.dependencyCycle names)
  else .ok (emitted.reverse.filterMap fun i => r.entries[i]?)

end Registry

end ProtocolBindings
