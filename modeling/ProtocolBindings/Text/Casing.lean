import ProtocolBindings.Text.CaseTable

namespace ProtocolBindings.Text

def inRanges (ranges : List (Nat × Nat)) (c : Char) : Bool :=
  ranges.any fun r => r.1 ≤ c.toNat && c.toNat ≤ r.2

def isCased (c : Char) : Bool :=
  inRanges casedRanges c

def isCaseIgnorable (c : Char) : Bool :=
  inRanges caseIgnorableRanges c

/-- The image of a character under the first range that moves it. -/
def shiftCase (ranges : List CaseRange) (c : Char) : Char :=
  match ranges.findSome? (·.image? c.toNat) with
  | some n => Char.ofNat n
  | none => c

def upperChar (c : Char) : List Char :=
  match upperExpansions.lookup c.toNat with
  | some image => image.map Char.ofNat
  | none => [shiftCase upperRanges c]

/-- Lower case of a character by itself; the dotted capital I keeps its dot. -/
def lowerChar (c : Char) : List Char :=
  if c = 'İ' then ['i', '\u0307'] else [shiftCase lowerRanges c]

/-- Is the first character that is not case-ignorable a cased one? -/
def casedAhead (text : List Char) : Bool :=
  (text.dropWhile isCaseIgnorable).head?.any isCased

/-- Lower case of the characters ahead, `before` holding those passed, last one first. -/
def lowerFrom (before : List Char) : List Char → List Char
  | [] => []
  | c :: after =>
    let image :=
      if c = 'Σ' then [if casedAhead before && !casedAhead after then 'ς' else 'σ']
      else lowerChar c
    image ++ lowerFrom (c :: before) after

def lower (text : List Char) : List Char :=
  lowerFrom [] text

end ProtocolBindings.Text
