import ProtocolBindings.Json.Reader
import ProtocolBindings.Json.Record

namespace ProtocolBindings

/-- Which parts of a document are read, and what they have to be. -/
inductive Shape where
  /-- A string, number, truth value or null. Containers are wrong whatever they hold. -/
  | scalar (accepts : Json → Bool)
  /-- Any value, read to the bottom before it is judged. -/
  | whole (accepts : Json → Bool)
  /-- An object with a tag among its fields, or an array that begins with one. The tag is judged as
  soon as it is read, the value once it is complete. -/
  | tagged (tag : String) (isTag accepts : Json → Bool)
  | list (element : Shape)
  /-- An object with some fields, each of them once, or an array of them in this order. Other fields
  are not read. -/
  | record (fields : List (String × Shape)) (required : List String)
  | orNull (shape : Shape)

namespace Shape

def text : Shape := .scalar fun v => (Json.string? v).isSome

def flag : Shape := .scalar fun v => (Json.bool? v).isSome

/-- What a shape asks of a container. -/
def ofContainer : Shape → Shape
  | .orNull shape => shape.ofContainer
  | shape => shape

/-- Is a string, number, truth value or null of this shape? -/
def acceptsScalar : Shape → Json → Bool
  | .scalar accepts, v | .whole accepts, v => accepts v
  | .tagged .., _ | .list _, _ | .record .., _ => false
  | .orNull _, .null => true
  | .orNull shape, v => shape.acceptsScalar v

end Shape

namespace Document

/-- How deep the containers of a value may be nested. -/
def depthLimit : Nat := 127

def ensure (condition : Bool) (e : DecodeError) : Except DecodeError Unit :=
  if condition then .ok () else .error e

/-- A container that is read has to end without a fault. -/
def ending (fault : Option Fault) : Except DecodeError Unit :=
  match fault with
  | some fault => .error fault.read
  | none => .ok ()

/-- A part that is passed over has to be free of faults. -/
def skip (d : Document) : Except DecodeError Unit :=
  match d.fault? with
  | some fault => .error fault.skipped
  | none => .ok ()

/-- A string, number, truth value or null as a value. -/
def scalarValue : Document → Except DecodeError Json
  | .null => .ok .null
  | .bool b => .ok (.bool b)
  | .numeral n =>
    if n.inRange then
      match n.integer? with
      | some i => .ok (.integer i)
      | none => .ok (.decimal n)
    else .error .malformed
  | .string (some text) => .ok (.string text)
  | .string none => .error .malformed
  | .broken fault => .error fault.read
  | .array .. | .object .. => .error .wrongShape

/-- A string, number, truth value or null that the shape accepts. -/
def selectScalar (shape : Shape) (d : Document) : Except DecodeError Json := do
  let v ← d.scalarValue
  ensure (shape.acceptsScalar v) .wrongShape
  return v

mutual

/-- The whole document as a value, with room for so many levels of containers. -/
def value (room : Nat) : Document → Except DecodeError Json
  | .array elements fault => do
    ensure (0 < room) .malformed
    let elements ← values (room - 1) elements
    ending fault
    return .array elements
  | .object fields fault => do
    ensure (0 < room) .malformed
    let fields ← fieldValues (room - 1) fields
    ending fault
    return .object fields
  | .null => scalarValue .null
  | .bool b => scalarValue (.bool b)
  | .numeral n => scalarValue (.numeral n)
  | .string text => scalarValue (.string text)
  | .broken fault => scalarValue (.broken fault)

def values (room : Nat) : List Document → Except DecodeError (List Json)
  | [] => .ok []
  | d :: ds => do return (← value room d) :: (← values room ds)

def fieldValues (room : Nat) :
    List (Option String × Document) → Except DecodeError (List (String × Json))
  | [] => .ok []
  | (none, _) :: _ => .error .malformed
  | (some key, d) :: fields => do return (key, ← value room d) :: (← fieldValues room fields)

end

/-- The elements of an array that begins with a tag. -/
def taggedElements (room : Nat) (isTag : Json → Bool) (elements : List Document)
    (fault : Option Fault) : Except DecodeError (List Json) := do
  match elements with
  | [] =>
    ending fault
    throw .wrongShape
  | first :: rest =>
    let tag ← selectScalar (.scalar isTag) first
    let rest ← values room rest
    ending fault
    return tag :: rest

/-- The fields of an object with a tag, where `found` tells whether the tag has occurred. -/
def taggedFields (room : Nat) (tag : String) (isTag : Json → Bool) (fault : Option Fault)
    (found : Bool) :
    List (Option String × Document) → Except DecodeError (List (String × Json))
  | [] => do
    ending fault
    ensure found .wrongShape
    return []
  | (none, _) :: _ => .error .malformed
  | (some key, d) :: fields => do
    if key = tag then
      ensure (!found) .wrongShape
      let v ← selectScalar (.scalar isTag) d
      return (key, v) :: (← taggedFields room tag isTag fault true fields)
    else
      let v ← value room d
      return (key, v) :: (← taggedFields room tag isTag fault found fields)

/-- A value that is judged as a whole. -/
def judged (accepts : Json → Bool) (v : Json) : Except DecodeError Json := do
  ensure (accepts v) .wrongShape
  return v

mutual

/-- The parts of a document that a shape reads, as a value. -/
def select (room : Nat) (shape : Shape) : Document → Except DecodeError Json
  | .array elements fault =>
    match shape.ofContainer with
    | .scalar _ | .orNull _ => .error .wrongShape
    | .whole accepts => do judged accepts (← value room (.array elements fault))
    | .tagged _ isTag accepts => do
      ensure (0 < room) .malformed
      judged accepts (.array (← taggedElements (room - 1) isTag elements fault))
    | .list element => do
      ensure (0 < room) .malformed
      let elements ← selectAll (room - 1) element elements
      ending fault
      return .array elements
    | .record fields required => do
      ensure (0 < room) .malformed
      return .array (← selectInOrder (room - 1) required fault fields elements)
  | .object entries fault =>
    match shape.ofContainer with
    | .scalar _ | .orNull _ | .list _ => .error .wrongShape
    | .whole accepts => do judged accepts (← value room (.object entries fault))
    | .tagged tag isTag accepts => do
      ensure (0 < room) .malformed
      judged accepts (.object (← taggedFields (room - 1) tag isTag fault false entries))
    | .record fields required => do
      ensure (0 < room) .malformed
      return .object (← selectNamed (room - 1) fields required fault [] entries)
  | .null => selectScalar shape .null
  | .bool b => selectScalar shape (.bool b)
  | .numeral n => selectScalar shape (.numeral n)
  | .string text => selectScalar shape (.string text)
  | .broken fault => selectScalar shape (.broken fault)

def selectAll (room : Nat) (element : Shape) : List Document → Except DecodeError (List Json)
  | [] => .ok []
  | d :: ds => do return (← select room element d) :: (← selectAll room element ds)

/-- The fields of a record by position. Those that are not required may be left out at the end, but
there may not be more. -/
def selectInOrder (room : Nat) (required : List String) (fault : Option Fault)
    (fields : List (String × Shape)) : List Document → Except DecodeError (List Json)
  | [] => do
    ending fault
    ensure (fields.all (·.1 ∉ required)) .wrongShape
    return []
  | d :: ds =>
    match fields with
    | [] => .error .malformed
    | (_, shape) :: fields => do
      return (← select room shape d) :: (← selectInOrder room required fault fields ds)

/-- The fields of a record by name, where `found` holds those that have occurred. -/
def selectNamed (room : Nat) (fields : List (String × Shape)) (required : List String)
    (fault : Option Fault) (found : List String) :
    List (Option String × Document) → Except DecodeError (List (String × Json))
  | [] => do
    ending fault
    ensure (required.all (· ∈ found)) .wrongShape
    return []
  | (none, _) :: _ => .error .malformed
  | (some key, d) :: entries =>
    match fields.lookup key with
    | some shape => do
      ensure (key ∉ found) .wrongShape
      let v ← select room shape d
      return (key, v) :: (← selectNamed room fields required fault (key :: found) entries)
    | none => do
      skip d
      selectNamed room fields required fault found entries

end

end Document

/-- Reads a value of a format: the parts of the text that the shape names, and these as a value of
the format. Only white space may follow. -/
def Shape.decode {α : Type} (shape : Shape) (ofJson? : Json → Option α) (text : String) :
    Except DecodeError α := do
  let reading := Reading.ofText text
  let value ← reading.document.select Document.depthLimit shape
  match ofJson? value, reading.trailing with
  | none, _ => throw .wrongShape
  | some _, some e => throw e
  | some a, none => return a

end ProtocolBindings
