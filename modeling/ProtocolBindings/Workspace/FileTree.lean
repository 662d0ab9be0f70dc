import ProtocolBindings.Path

namespace ProtocolBindings

inductive FileError where
  | notFound
  | notDirectory
  | isDirectory
  | nameTooLong
  | invalidPath
  | notText
  /-- The system did not allow the operation. -/
  | refused
  deriving DecidableEq, Repr

def FileError.message : FileError → String
  | .notFound => "no such file or directory"
  | .notDirectory => "not a directory"
  | .isDirectory => "is a directory"
  | .nameTooLong => "file name too long"
  | .invalidPath => "invalid path"
  | .notText => "not UTF-8 text"
  | .refused => "operation not permitted"

/-- A place: the names on the way from the root. -/
abbrev Location := List String

inductive Node where
  | file (content : ByteArray)
  | directory

instance : DecidableEq Node
  | .file a, .file b =>
    have := ByteArray.instDecidableEq a b
    decidable_of_iff (a = b) ⟨congrArg Node.file, Node.file.inj⟩
  | .directory, .directory => isTrue rfl
  | .file _, .directory | .directory, .file _ => isFalse nofun

/-- What stands at each place. The working directory and those around it are not listed. -/
structure FileTree where
  /-- The working directory. -/
  home : Location := []
  nodes : List (Location × Node) := []
  deriving DecidableEq

namespace FileTree

/-- Is this the working directory, or a directory around it? -/
def isBase (t : FileTree) (place : Location) : Bool :=
  place.isPrefixOf t.home

def get? (t : FileTree) (place : Location) : Option Node :=
  if t.isBase place then some .directory else t.nodes.lookup place

def remove (t : FileTree) (place : Location) : FileTree :=
  { t with nodes := t.nodes.filter (·.1 ≠ place) }

def put (t : FileTree) (place : Location) (node : Node) : FileTree :=
  { t with nodes := (place, node) :: (t.remove place).nodes }

@[simp] theorem home_remove (t : FileTree) (place : Location) : (t.remove place).home = t.home :=
  rfl

@[simp] theorem home_put (t : FileTree) (place : Location) (node : Node) :
    (t.put place node).home = t.home :=
  rfl

theorem get?_of_isBase (t : FileTree) {place : Location} (h : t.isBase place = true) :
    t.get? place = some .directory := by
  rw [get?, if_pos h]

theorem get?_of_not_isBase (t : FileTree) {place : Location}
    (h : t.isBase place = false) : t.get? place = t.nodes.lookup place := by
  rw [get?, h]
  rfl

theorem lookup_remove_self (t : FileTree) (place : Location) :
    (t.remove place).nodes.lookup place = none := by
  rw [List.lookup_eq_none_iff]
  intro entry h
  have hne : entry.1 ≠ place := by simpa using (List.mem_filter.mp h).2
  exact bne_iff_ne.mpr hne.symm

theorem lookup_remove_of_ne (t : FileTree) {place other : Location} (h : other ≠ place) :
    (t.remove place).nodes.lookup other = t.nodes.lookup other := by
  unfold remove
  dsimp only
  induction t.nodes with
  | nil => rfl
  | cons entry nodes ih =>
    rw [List.filter_cons]
    split
    · rw [List.lookup_cons, List.lookup_cons, ih]
    · next hp =>
      have he : entry.1 = place := by simpa using hp
      rw [ih, List.lookup_cons, he, beq_eq_false_iff_ne.mpr h]

theorem get?_remove_self (t : FileTree) {place : Location}
    (h : t.isBase place = false) : (t.remove place).get? place = none := by
  have hbase : (t.remove place).isBase place = false := h
  rw [get?_of_not_isBase _ hbase, lookup_remove_self]

theorem get?_remove_of_ne (t : FileTree) {place other : Location} (h : other ≠ place) :
    (t.remove place).get? other = t.get? other := by
  rw [get?, get?, lookup_remove_of_ne t h]
  rfl

theorem get?_put_self (t : FileTree) {place : Location} (h : t.isBase place = false)
    (node : Node) : (t.put place node).get? place = some node := by
  have hbase : (t.put place node).isBase place = false := h
  rw [get?_of_not_isBase _ hbase, put, List.lookup_cons, beq_self_eq_true]

theorem get?_put_of_ne (t : FileTree) {place other : Location} (h : other ≠ place)
    (node : Node) : (t.put place node).get? other = t.get? other := by
  have hlookup : (t.put place node).nodes.lookup other = t.nodes.lookup other := by
    rw [put, List.lookup_cons, beq_eq_false_iff_ne.mpr h]
    exact lookup_remove_of_ne t h
  rw [get?, get?, hlookup]
  rfl

/-- The place of an entry of a directory. The entry need not be there. -/
def entry (t : FileTree) (directory : Location) (name : String) : Except FileError Location :=
  match t.get? directory with
  | none => .error .notFound
  | some (.file _) => .error .notDirectory
  | some .directory =>
    if 255 < name.utf8ByteSize then .error .nameTooLong else .ok (directory ++ [name])

/-- One step from a directory: to one of its entries, to itself, or to its parent. The root is its
own parent. -/
def follow (t : FileTree) (directory : Location) (segment : String) :
    Except FileError Location := do
  let place ← t.entry directory segment
  if Path.isName segment then
    if (t.get? place).isSome then return place else throw .notFound
  else if segment = ".." then return directory.dropLast
  else return directory

/-- A way through a tree: where it starts, and what it follows from there. -/
structure Route where
  start : Location
  segments : List String

/-- The way without the empty segments that slashes at the end leave. -/
def Route.withoutSlashes (r : Route) : Route :=
  { r with segments := (r.segments.reverse.dropWhile (· = "")).reverse }

/-- The place that a way leads to. -/
def locate (t : FileTree) (r : Route) : Except FileError Location :=
  r.segments.foldlM t.follow r.start

/-- The place of a named entry. It need not be there, but its directory has to be. -/
def locateEntry (t : FileTree) (r : Route) : Except FileError Location := do
  let directory ← t.locate { r with segments := r.segments.dropLast }
  match r.segments.getLast? with
  | some name => if Path.isName name then t.entry directory name else throw .isDirectory
  | none => throw .isDirectory

/-- The way of a path that can be used. An absolute path starts at the root, and any other one at
the working directory. -/
def route (t : FileTree) (path : String) : Except FileError Route :=
  if Path.isUsable path then
    .ok { start := if Path.isAbsolute path then [] else t.home, segments := Path.segments path }
  else .error .invalidPath

def read (t : FileTree) (path : String) : Except FileError ByteArray := do
  match t.get? (← t.locate (← t.route path)) with
  | some (.file content) => return content
  | some .directory => throw .isDirectory
  | none => throw .notFound

/-- The content of a file, which has to be text. -/
def readText (t : FileTree) (path : String) : Except FileError String := do
  match String.fromUTF8? (← t.read path) with
  | some text => return text
  | none => throw .notText

/-- How a command reads the files of a tree. -/
def reader (t : FileTree) (path : String) : Id (Except FileError String) :=
  t.readText path

/-- Makes sure that a path leads to a directory. Only its last segment may be missing. -/
def makeDirectory (t : FileTree) (path : String) : Except FileError FileTree := do
  let route := (← t.route path).withoutSlashes
  match t.locate route with
  | .ok place => if t.get? place = some .directory then return t else throw .notDirectory
  | .error .notFound => return t.put (← t.locateEntry route) .directory
  | .error e => throw e

/-- Writes a file. Its directory has to be there. -/
def write (t : FileTree) (path : String) (content : ByteArray) : Except FileError FileTree := do
  let place ← t.locateEntry (← t.route path)
  if t.get? place = some .directory then throw .isDirectory
  return t.put place (.file content)

end FileTree

end ProtocolBindings
