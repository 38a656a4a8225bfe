import Turtle.Binary64.Basic
import Turtle.Number.Decimal
import Turtle.Text.Blank
import Turtle.Text.Digit

/-! The binary number nearest to a decimal one. Numerals far outside the range of
finite numbers are settled by their exponent alone, so that no power of ten is larger
than the range requires. -/

namespace Turtle.Binary64
open Turtle.Number

/-- From this power of ten on, a numeral that is not zero is beyond the bound. -/
def largestPower : Nat := 400

/-- The number nearest to a decimal numeral. Below the least positive number by more
than half, which a bound on the two logarithms shows, it is zero. -/
def ofDecimal (d : Decimal) : Binary64 :=
  if d.digits = 0 then zero d.negative
  else match d.exponent with
    | .ofNat power =>
      if largestPower < power then .infinite d.negative
      else ofQuotient d.negative (d.digits * 10 ^ power * unitsPerOne) 1
    | .negSucc less =>
      if d.digits.log2 + 1076 ≤ 3 * (less + 1) then zero d.negative
      else ofQuotient d.negative (d.digits * unitsPerOne) (10 ^ (less + 1))

/-- Blanks that may surround a numeral; the information separators are not among them. -/
def isPadding (c : Char) : Bool :=
  Text.isBlank c && !(28 ≤ c.toNat && c.toNat ≤ 31)

/-- The digits of every script written as `0` to `9`. -/
def westernDigits (text : List Char) : List Char :=
  text.map fun c => ((Text.digitValue? c).map Text.digitChar).getD c

/-- Leaves out the separators of a numeral; each stands between two digits. -/
def dropSeparators (afterDigit : Bool) : List Char → Option (List Char)
  | [] => some []
  | '_' :: rest =>
    if afterDigit && rest.head?.any Char.isDigit then dropSeparators false rest else none
  | c :: rest => (dropSeparators c.isDigit rest).map (c :: ·)

/-- The numbers that have a name, in letters of either case. -/
def named? (text : List Char) : Option Binary64 :=
  let (negative, name) := Decimal.splitSign text
  let name := String.ofList (name.map Char.toLower)
  if name = "inf" ∨ name = "infinity" then some (.infinite negative)
  else if name = "nan" then some .nan
  else none

/-- Reads a number as a person may type it: blanks around it, digits of any script,
separators between digits, and names for what is not finite. -/
def read? (text : String) : Option Binary64 :=
  let text := westernDigits (Text.trim isPadding text.toList)
  (dropSeparators false text).bind fun numeral =>
    named? numeral <|> (Decimal.read? numeral).map ofDecimal

end Turtle.Binary64
