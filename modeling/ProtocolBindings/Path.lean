namespace ProtocolBindings.Path

/-- The segments of the characters ahead, where `current` holds the open one back to front. -/
def segmentsFrom (current : List Char) : List Char → List String
  | [] => [String.ofList current.reverse]
  | c :: rest =>
    if c = '/' then String.ofList current.reverse :: segmentsFrom [] rest
    else segmentsFrom (c :: current) rest

/-- The segments of a path, empty ones included. -/
def segments (path : String) : List String :=
  segmentsFrom [] path.toList

def isAbsolute (path : String) : Bool :=
  path.toList.head? = some '/'

/-- Does a segment name an entry of a directory, other than the directory itself or its parent? -/
def isName (segment : String) : Bool :=
  segment ≠ "" && segment ≠ "." && segment ≠ ".."

/-- Is a segment a component of the path? Empty ones and dots are none, but for a dot at the very
start. -/
def isComponent (segment : String) (index : Nat) : Bool :=
  isName segment || segment = ".." || (segment = "." && index = 0)

/-- The positions of the components among the segments. -/
def componentIndices (segments : List String) : List Nat :=
  (segments.zipIdx.filter fun (segment, index) => isComponent segment index).map (·.2)

/-- The last component, if it is a name. -/
def fileName (path : String) : String :=
  let segments := segments path
  let last := ((componentIndices segments).getLast?.bind (segments[·]?)).getD ""
  if isName last then last else ""

/-- The beginnings of a path that end with one of its components, shortest one first. -/
def beginnings (path : String) : List String :=
  let segments := segments path
  (componentIndices segments).map fun index => "/".intercalate (segments.take (index + 1))

/-- The directories that a path lies in, outermost one first. The root and the working directory
are left out. -/
def directories (path : String) : List String :=
  (beginnings path).dropLast

/-- The directory that a path lies in. -/
def directory (path : String) : String :=
  (directories path).getLast?.getD (if isAbsolute path then "/" else ".")

/-- How many bytes a path may have. -/
def sizeLimit : Nat := 4095

/-- May a path be handed to the system? It has to be of a certain size, without null characters. -/
def isUsable (path : String) : Bool :=
  path ≠ "" && path.utf8ByteSize ≤ sizeLimit && !path.toList.contains '\x00'

/-- The path of `path` below `directory`. An absolute path stays as it is. -/
def join (directory path : String) : String :=
  if isAbsolute path || directory.isEmpty then path
  else if directory.toList.getLast? = some '/' then directory ++ path
  else directory ++ "/" ++ path

end ProtocolBindings.Path
