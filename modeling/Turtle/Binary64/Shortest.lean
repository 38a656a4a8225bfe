import Turtle.Binary64.Decimal

/-! The shortest decimal that reads back as a given number. Seventeen significant
digits always suffice. For each count of digits from one on, only the two neighbours of
the number on that decimal grid can read back, and the nearer of them is tried first.
What is chosen is checked by reading it, so reading back never depends on why the
search succeeds. -/

namespace Turtle.Binary64
open Turtle.Number

/-- The exponent of the leading decimal digit of a positive count of units. -/
def leadingExponent (units : Nat) : Int :=
  if unitsPerOne ≤ units then
    ((Nat.toDigits 10 (units / unitsPerOne)).length : Int) - 1
  else
    -((Nat.toDigits 10 ((unitsPerOne + units - 1) / units - 1)).length : Int)

/-- A count of units measured in powers of ten, as a quotient. -/
def inPowers (units : Nat) (exponent : Int) : Nat × Nat :=
  match exponent with
  | .ofNat power => (units, unitsPerOne * 10 ^ power)
  | .negSucc less => (units * 10 ^ (less + 1), unitsPerOne)

/-- The two multiples of a power of ten that enclose a number, the nearer one first. -/
def neighbours (negative : Bool) (units : Nat) (exponent : Int) : List Decimal :=
  let (num, den) := inPowers units exponent
  let nearest := roundDiv num den
  let other := if nearest = num / den then nearest + 1 else num / den
  [⟨negative, nearest, exponent⟩, ⟨negative, other, exponent⟩]

/-- Every finite number is a decimal: a half is five tenths. -/
def exactDecimal (negative : Bool) (units : Nat) : Decimal :=
  ⟨negative, units * 5 ^ 1074, -1074⟩

/-- Whether a decimal reads as a finite number of so many units. -/
def readsAs (units : Nat) (d : Decimal) : Bool :=
  match ofDecimal d with
  | .finite _ m _ => m == units
  | _ => false

/-- The shortest decimal that reads back as a finite number; of several, the nearest. -/
def shortest (negative : Bool) (units : Nat) : Decimal :=
  let lead := leadingExponent units
  let found := (List.range 17).findSome? fun (more : Nat) =>
    (neighbours negative units (lead - more)).find? (readsAs units)
  found.getD (exactDecimal negative units)

end Turtle.Binary64
