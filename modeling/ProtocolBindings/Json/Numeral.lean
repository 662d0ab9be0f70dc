namespace ProtocolBindings

/-- The parts of a numeral: the digits before and after the point, and the power of ten. -/
structure Numeral where
  negative : Bool
  whole : List Char
  fraction : List Char
  exponent : Option Int
  deriving DecidableEq

namespace Numeral

/-- The number that decimal digits denote. -/
def ofDigits (digits : List Char) : Nat :=
  digits.foldl (fun n c => 10 * n + (c.toNat - 48)) 0

/-- The integer that the numeral spells. A negative zero is not one. -/
def integer? (n : Numeral) : Option Int :=
  let magnitude := ofDigits n.whole
  if n.fraction ≠ [] ∨ n.exponent ≠ none then none
  else if !n.negative then some (Int.ofNat magnitude)
  else if magnitude = 0 then none
  else some (-Int.ofNat magnitude)

/-- The double nearest to a whole number: of two that are equally near, the one whose last binary
digit is even. There is no upper bound here. -/
def nearestDouble (n : Nat) : Nat :=
  let unit := Nat.pow 2 (n.log2 + 1 - 53)
  let below := n / unit
  let rest := n % unit
  if 2 * rest < unit ∨ 2 * rest = unit ∧ below % 2 = 0 then below * unit else (below + 1) * unit

/-- The least magnitude that rounds to infinity as a double: half a step above the largest one. -/
def overflow : Nat :=
  Nat.pow 2 1024 - Nat.pow 2 970

/-- Appends digits to a coefficient until it would need more than 64 bits. Gives the coefficient
and the number of digits in it, `taken` of which were there before. -/
def absorb (coefficient taken : Nat) : List Char → Nat × Nat
  | [] => (coefficient, taken)
  | c :: rest =>
    let next := 10 * coefficient + (c.toNat - 48)
    if Nat.pow 2 64 ≤ next then (coefficient, taken) else absorb next (taken + 1) rest

/-- The leading digits as a coefficient, and the power of ten that goes with it. Digits before the
point that are left out count as zeros, and digits after the point not at all. -/
def scaled (n : Numeral) : Nat × Int :=
  let (whole, taken) := absorb 0 0 n.whole
  let (coefficient, places) := absorb whole 0 n.fraction
  (coefficient, n.exponent.getD 0 + (n.whole.length - taken : Nat) - places)

/-- Is the magnitude finite? Only powers of ten up to 308 are doubles themselves. -/
def inRange (n : Numeral) : Bool :=
  let (coefficient, power) := n.scaled
  if coefficient = 0 ∨ power ≤ 0 then true
  else if 308 < power then false
  else nearestDouble coefficient * nearestDouble (Nat.pow 10 power.toNat) < overflow

end Numeral

end ProtocolBindings
