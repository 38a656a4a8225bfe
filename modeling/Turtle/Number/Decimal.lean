import Turtle.Number.Natural

/-! Decimal numerals: a sign, digits with or without a point, and a power of ten. A
numeral is read into its digits and exponent exactly; which machine number is meant by
it is settled elsewhere. -/

namespace Turtle.Number

/-- The number `±digits · 10 ^ exponent`; a zero keeps its sign. -/
structure Decimal where
  negative : Bool
  digits : Nat
  exponent : Int
  deriving DecidableEq, Repr

namespace Decimal

/-- Takes a sign off the front of a numeral; without one it is positive. -/
def splitSign : List Char → Bool × List Char
  | '-' :: rest => (true, rest)
  | '+' :: rest => (false, rest)
  | text => (false, text)

def signed (negative : Bool) (n : Nat) : Int := if negative then -(n : Int) else n

/-- The power of ten at the end of a numeral; nothing at all is the zeroth. -/
def exponent? : List Char → Option Int
  | [] => some 0
  | mark :: rest =>
    let (negative, digits) := splitSign rest
    if (mark = 'e' ∨ mark = 'E') ∧ isDigits digits then
      some (signed negative (digitsValue digits))
    else none

/-- The digits after the point, if there is one, and what follows them. -/
def splitFraction : List Char → List Char × List Char
  | '.' :: rest => (rest.takeWhile Char.isDigit, rest.dropWhile Char.isDigit)
  | text => ([], text)

/-- Reads a whole numeral; at least one digit stands beside the point. -/
def read? (text : List Char) : Option Decimal :=
  let (negative, unsigned) := splitSign text
  let whole := unsigned.takeWhile Char.isDigit
  let (fraction, tail) := splitFraction (unsigned.dropWhile Char.isDigit)
  if whole.isEmpty && fraction.isEmpty then none
  else (exponent? tail).map fun power =>
    ⟨negative, digitsValue (whole ++ fraction), power - fraction.length⟩

end Decimal

end Turtle.Number
