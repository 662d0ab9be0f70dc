import ProtocolBindings.Json.Value

namespace ProtocolBindings

/-- How much of a numeral has been read. -/
inductive NumeralPhase where
  | sign
  | zero
  | whole
  | point
  | fraction
  | mark
  | markSign
  | exponent
  deriving DecidableEq

/-- A numeral being read, its digits back to front. -/
structure NumeralScan where
  phase : NumeralPhase
  negative : Bool := false
  whole : List Char := []
  fraction : List Char := []
  exponentNegative : Bool := false
  exponent : List Char := []

namespace NumeralScan

/-- May the numeral end here? -/
def complete (s : NumeralScan) : Bool :=
  match s.phase with
  | .zero | .whole | .fraction | .exponent => true
  | .sign | .point | .mark | .markSign => false

def numeral (s : NumeralScan) : Numeral where
  negative := s.negative
  whole := s.whole.reverse
  fraction := s.fraction.reverse
  exponent :=
    if s.phase = .exponent then
      let power := Int.ofNat (Numeral.ofDigits s.exponent.reverse)
      some (if s.exponentNegative then -power else power)
    else none

/-- The first character of a numeral. -/
def start? (c : Char) : Option NumeralScan :=
  if c = '-' then some { phase := .sign, negative := true }
  else if c = '0' then some { phase := .zero, whole := [c] }
  else if c.isDigit then some { phase := .whole, whole := [c] }
  else none

/-- The exponent mark after a complete mantissa; `none` if the numeral ends before the character. -/
def mark? (s : NumeralScan) (c : Char) : Option NumeralScan :=
  if c = 'e' ∨ c = 'E' then some { s with phase := .mark } else none

/-- The point after the whole part. -/
def point? (s : NumeralScan) (c : Char) : Option NumeralScan :=
  if c = '.' then some { s with phase := .point } else s.mark? c

/-- Takes the next character; `none` if the numeral has ended before it. -/
def step (s : NumeralScan) (c : Char) : Except DecodeError (Option NumeralScan) :=
  match s.phase with
  | .sign =>
    if c = '0' then .ok (some { s with phase := .zero, whole := [c] })
    else if c.isDigit then .ok (some { s with phase := .whole, whole := [c] })
    else .error .malformed
  | .zero => if c.isDigit then .error .malformed else .ok (s.point? c)
  | .whole =>
    if c.isDigit then .ok (some { s with whole := c :: s.whole }) else .ok (s.point? c)
  | .point =>
    if c.isDigit then .ok (some { s with phase := .fraction, fraction := [c] })
    else .error .malformed
  | .fraction =>
    if c.isDigit then .ok (some { s with fraction := c :: s.fraction }) else .ok (s.mark? c)
  | .mark =>
    if c = '+' ∨ c = '-' then
      .ok (some { s with phase := .markSign, exponentNegative := c = '-' })
    else if c.isDigit then .ok (some { s with phase := .exponent, exponent := [c] })
    else .error .malformed
  | .markSign =>
    if c.isDigit then .ok (some { s with phase := .exponent, exponent := [c] })
    else .error .malformed
  | .exponent =>
    if c.isDigit then .ok (some { s with exponent := c :: s.exponent }) else .ok none

/-- Is the numeral over, when this character or the end of the text comes next? -/
def endsBefore (s : NumeralScan) : Option Char → Bool
  | none => s.complete
  | some c =>
    match s.step c with
    | .ok none => true
    | _ => false

end NumeralScan

/-- Where in a string the reader stands. -/
inductive StringPhase where
  | plain
  | escape
  /-- Inside a hexadecimal escape: its bytes so far, and its value unless a digit is wrong. -/
  | hex (bytes : Nat) (value : Option Nat)

/-- A string being read, its characters back to front. -/
structure StringScan where
  phase : StringPhase := .plain
  chars : List Char := []
  /-- The high surrogate that waits for its partner. -/
  high : Option Nat := none
  /-- No surrogate has been left alone. -/
  paired : Bool := true

namespace StringScan

/-- What the string says, if every surrogate found its partner. -/
def text (s : StringScan) : Option String :=
  if s.paired && s.high.isNone then some (String.ofList s.chars.reverse) else none

/-- Adds a character that is not part of a surrogate pair. -/
def push (s : StringScan) (c : Char) : StringScan :=
  { phase := .plain, chars := c :: s.chars, high := none, paired := s.paired && s.high.isNone }

/-- Adds a unit of UTF-16. -/
def pushUnit (s : StringScan) (unit : Nat) : StringScan :=
  if 0xD800 ≤ unit ∧ unit < 0xDC00 then
    { s with phase := .plain, high := some unit, paired := s.paired && s.high.isNone }
  else if 0xDC00 ≤ unit ∧ unit < 0xE000 then
    match s.high with
    | some high =>
      let c := Char.ofNat (0x10000 + (high - 0xD800) * 0x400 + (unit - 0xDC00))
      { s with phase := .plain, chars := c :: s.chars, high := none }
    | none => { s with phase := .plain, paired := false }
  else s.push (Char.ofNat unit)

def hexValue? (c : Char) : Option Nat :=
  if c.isDigit then some (c.toNat - 48)
  else if 'a' ≤ c ∧ c ≤ 'f' then some (c.toNat - 87)
  else if 'A' ≤ c ∧ c ≤ 'F' then some (c.toNat - 55)
  else none

/-- The character after a backslash, unless it opens a hexadecimal escape. -/
def escaped? (c : Char) : Option Char :=
  match c with
  | '"' => some '"'
  | '\\' => some '\\'
  | '/' => some '/'
  | 'b' => some '\x08'
  | 'f' => some '\x0c'
  | 'n' => some '\n'
  | 'r' => some '\r'
  | 't' => some '\t'
  | _ => none

/-- Takes the next character; `none` if it is the closing quote. A hexadecimal escape is judged
once four bytes of it are there. -/
def step (s : StringScan) (c : Char) : Except DecodeError (Option StringScan) :=
  match s.phase with
  | .plain =>
    if c = '"' then .ok none
    else if c = '\\' then .ok (some { s with phase := .escape })
    else if c.toNat < 0x20 then .error .malformed
    else .ok (some (s.push c))
  | .escape =>
    if c = 'u' then .ok (some { s with phase := .hex 0 (some 0) })
    else
      match escaped? c with
      | some meant => .ok (some (s.push meant))
      | none => .error .malformed
  | .hex bytes value =>
    let size := bytes + c.utf8Size
    let next := value.bind fun v => (hexValue? c).map (16 * v + ·)
    if size < 4 then .ok (some { s with phase := .hex size next })
    else
      match next with
      | some unit => .ok (some (s.pushUnit unit))
      | none => .error .malformed

end StringScan

/-- An open container with the parts read so far, last one first. -/
inductive Frame where
  | array (elements : List Document)
  | object (fields : List (Option String × Document))
  /-- An object whose latest key waits for its value. -/
  | entry (fields : List (Option String × Document)) (key : Option String)

/-- What the reader is in the middle of. -/
inductive Mode where
  /-- A value has to come. -/
  | value
  /-- An array has just opened. -/
  | firstElement
  /-- An object has just opened. -/
  | firstKey
  /-- A key has to come. -/
  | key
  /-- The colon after a key has to come. -/
  | colon
  /-- A part of a container is complete. -/
  | between
  | inKey (scan : StringScan)
  | inString (scan : StringScan)
  | inNumeral (scan : NumeralScan)
  /-- Inside a word, with the characters still to come. -/
  | inWord (ahead : List Char) (meaning : Document)
  | finished (document : Document)

structure Reader where
  stack : List Frame
  mode : Mode

namespace Reader

def start : Reader := { stack := [], mode := .value }

def isSpace (c : Char) : Bool :=
  c = ' ' || c = '\t' || c = '\n' || c = '\r'

/-- The state once a value is complete. -/
def complete (document : Document) : List Frame → Reader
  | [] => { stack := [], mode := .finished document }
  | .array elements :: stack =>
    { stack := .array (document :: elements) :: stack, mode := .between }
  | .object fields :: stack => { stack := .object fields :: stack, mode := .between }
  | .entry fields key :: stack =>
    { stack := .object ((key, document) :: fields) :: stack, mode := .between }

/-- Closes the innermost container if the bracket fits it. -/
def close (c : Char) : List Frame → Except DecodeError Reader
  | .array elements :: stack =>
    if c = ']' then .ok (complete (.array elements.reverse none) stack) else .error .malformed
  | .object fields :: stack =>
    if c = '}' then .ok (complete (.object fields.reverse none) stack) else .error .malformed
  | _ => .error .malformed

/-- The first character of a value. -/
def openValue (stack : List Frame) (c : Char) : Except DecodeError Reader :=
  match c with
  | '[' => .ok { stack := .array [] :: stack, mode := .firstElement }
  | '{' => .ok { stack := .object [] :: stack, mode := .firstKey }
  | '"' => .ok { stack, mode := .inString {} }
  | 'n' => .ok { stack, mode := .inWord ['u', 'l', 'l'] .null }
  | 't' => .ok { stack, mode := .inWord ['r', 'u', 'e'] (.bool true) }
  | 'f' => .ok { stack, mode := .inWord ['a', 'l', 's', 'e'] (.bool false) }
  | _ =>
    match NumeralScan.start? c with
    | some scan => .ok { stack, mode := .inNumeral scan }
    | none => .error .malformed

/-- The comma after a part of a container. -/
def next : List Frame → Except DecodeError Reader
  | .array elements :: stack => .ok { stack := .array elements :: stack, mode := .value }
  | .object fields :: stack => .ok { stack := .object fields :: stack, mode := .key }
  | _ => .error .malformed

/-- The value of the key just read may come. -/
def keyed (key : Option String) : List Frame → Except DecodeError Reader
  | .object fields :: stack => .ok { stack := .entry fields key :: stack, mode := .colon }
  | _ => .error .malformed

/-- A character outside strings, numerals and words. -/
def stepOutside (r : Reader) (c : Char) : Except DecodeError Reader :=
  if isSpace c then .ok r
  else
    match r.mode with
    | .value => openValue r.stack c
    | .firstElement => if c = ']' then close c r.stack else openValue r.stack c
    | .firstKey =>
      if c = '}' then close c r.stack
      else if c = '"' then .ok { r with mode := .inKey {} }
      else .error .malformed
    | .key => if c = '"' then .ok { r with mode := .inKey {} } else .error .malformed
    | .colon => if c = ':' then .ok { r with mode := .value } else .error .malformed
    | .between => if c = ',' then next r.stack else close c r.stack
    | _ => .error .malformed

/-- Completes a numeral that the next character is no part of, or that the text ends with. -/
def settle (next : Option Char) (r : Reader) : Reader :=
  match r.mode with
  | .inNumeral scan =>
    if scan.endsBefore next then complete (.numeral scan.numeral) r.stack else r
  | _ => r

/-- Takes the next character, no numeral being over before it. -/
def step (r : Reader) (c : Char) : Except DecodeError Reader :=
  match r.mode with
  | .inKey scan => do
    match ← scan.step c with
    | some scan => return { r with mode := .inKey scan }
    | none => keyed scan.text r.stack
  | .inString scan => do
    match ← scan.step c with
    | some scan => return { r with mode := .inString scan }
    | none => return complete (.string scan.text) r.stack
  | .inNumeral scan => do
    match ← scan.step c with
    | some scan => return { r with mode := .inNumeral scan }
    | none => throw .malformed
  | .inWord [] meaning => stepOutside (complete meaning r.stack) c
  | .inWord (expected :: ahead) meaning =>
    if c ≠ expected then .error .malformed
    else if ahead.isEmpty then .ok (complete meaning r.stack)
    else .ok { r with mode := .inWord ahead meaning }
  | _ => stepOutside r c

/-- Reads until the text is over or stops being JSON. -/
def run (r : Reader) : List Char → Reader × DecodeError
  | [] => (r.settle none, .endOfText)
  | c :: rest =>
    let r := r.settle (some c)
    match r.step c with
    | .ok r => r.run rest
    | .error e => (r, e)

end Reader

/-- The fault of a reader that stops for some reason. An unpaired surrogate comes to light before
it, where the string is read; a numeral that is cut short is malformed where it is passed over. -/
def Mode.fault (reason : DecodeError) : Mode → Fault
  | .inKey scan | .inString scan =>
    { read := if scan.paired then reason else .malformed, skipped := reason }
  | .inNumeral _ => { read := reason, skipped := .malformed }
  | _ => { read := reason, skipped := reason }

/-- Does a value have to come, or to go on? -/
def Mode.awaitsValue : Mode → Bool
  | .value | .firstElement | .colon | .inString _ | .inNumeral _ | .inWord .. => true
  | .firstKey | .key | .between | .inKey _ | .finished _ => false

/-- An open container that ends with a fault, after one more part if there is one. -/
def Frame.stopped (fault : Fault) (part : Option Document) : Frame → Document
  | .array elements => .array (part.toList ++ elements).reverse (some fault)
  | .object fields => .object fields.reverse (some fault)
  | .entry fields key =>
    .object ((key, part.getD (.broken fault)) :: fields).reverse (some fault)

/-- A document, and why what follows it is not just white space. -/
structure Reading where
  document : Document
  trailing : Option DecodeError

namespace Reading

/-- What a reader has read when it stops for some reason. -/
def ofReader (r : Reader) (reason : DecodeError) : Reading :=
  match r.mode with
  | .finished document =>
    { document, trailing := if reason = .endOfText then none else some reason }
  | mode =>
    let fault := mode.fault reason
    let innermost := if mode.awaitsValue then some (.broken fault) else none
    let outermost := r.stack.foldl (fun part frame => some (frame.stopped fault part)) innermost
    { document := outermost.getD (.broken fault), trailing := none }

def ofText (text : String) : Reading :=
  let (reader, reason) := Reader.start.run text.toList
  ofReader reader reason

end Reading

end ProtocolBindings
