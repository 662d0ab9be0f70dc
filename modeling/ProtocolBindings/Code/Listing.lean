namespace ProtocolBindings

/-- The lines written so far, without their line feeds, and the level of the next one. -/
structure Listing where
  level : Nat := 0
  lines : Array String := #[]
  deriving Inhabited, DecidableEq

namespace Listing

def empty : Listing := {}

/-- Two blanks for each level. -/
def margin (level : Nat) : String :=
  String.ofList (List.replicate (2 * level) ' ')

/-- The line as it is written at a level; an empty line gets no margin. -/
def placed (level : Nat) (line : String) : String :=
  if line.isEmpty then "" else margin level ++ line

def write (l : Listing) (line : String) : Listing :=
  { l with lines := l.lines.push (placed l.level line) }

def writeAll (l : Listing) (lines : List String) : Listing :=
  lines.foldl write l

def blank (l : Listing) : Listing :=
  { l with lines := l.lines.push "" }

def indent (l : Listing) : Listing :=
  { l with level := l.level + 1 }

/-- One level out; the outermost level stays. -/
def unindent (l : Listing) : Listing :=
  { l with level := l.level - 1 }

/-- Runs a change of the listing one level deeper. -/
def indented (l : Listing) (body : Listing → Listing) : Listing :=
  (body l.indent).unindent

/-- Adds the lines of another listing as they are. -/
def append (l other : Listing) : Listing :=
  { l with lines := l.lines ++ other.lines }

def isEmpty (l : Listing) : Bool :=
  l.lines.isEmpty

def text (l : Listing) : String :=
  l.lines.foldl (fun text line => text ++ line ++ "\n") ""

@[simp] theorem level_write (l : Listing) (line : String) : (l.write line).level = l.level := rfl

@[simp] theorem level_blank (l : Listing) : l.blank.level = l.level := rfl

@[simp] theorem level_append (l other : Listing) : (l.append other).level = l.level := rfl

@[simp] theorem level_writeAll (l : Listing) (lines : List String) :
    (l.writeAll lines).level = l.level := by
  induction lines generalizing l with
  | nil => rfl
  | cons line lines ih => exact (ih (l.write line)).trans rfl

@[simp] theorem unindent_indent (l : Listing) : l.indent.unindent = l := by
  simp [indent, unindent]

end Listing

end ProtocolBindings
