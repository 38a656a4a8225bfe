import Turtle.Binary64.Shortest

/-! The texts of a number: its shortest decimal, and its decimal with a fixed number of
places. -/

namespace Turtle.Binary64
open Turtle.Number

/-- How a decimal with a leading exponent is laid out: positionally from `least` up to
but not including `bound`, and with a power of ten otherwise. -/
structure Layout where
  least : Int
  bound : Int

/-- Numbers are written positionally from a ten-thousandth up to sixteen digits. -/
def layout : Layout := ⟨-4, 16⟩

/-- Digits with a point among, before or after them; one digit follows the point at
least. -/
def positional (digits : List Char) (exponent : Int) : List Char :=
  if exponent < 0 then
    '0' :: '.' :: List.replicate (exponent.natAbs - 1) '0' ++ digits
  else
    let whole := exponent.toNat + 1
    if digits.length ≤ whole then
      digits ++ List.replicate (whole - digits.length) '0' ++ ['.', '0']
    else digits.take whole ++ '.' :: digits.drop whole

/-- One digit before the point, no point without digits after it, and a power of ten
with its sign and two digits at least. -/
def scientific (digits : List Char) (exponent : Int) : List Char :=
  let power := Nat.toDigits 10 exponent.natAbs
  let point := if digits.length ≤ 1 then [] else ['.']
  digits.take 1 ++ point ++ digits.drop 1 ++ 'e' :: (if exponent < 0 then '-' else '+') ::
    List.replicate (2 - power.length) '0' ++ power

/-- Lays out a decimal; zeros at its end carry nothing and are dropped first. -/
def Layout.write (style : Layout) (d : Decimal) : List Char :=
  let all := Nat.toDigits 10 d.digits
  let exponent := d.exponent + all.length - 1
  let digits := (all.reverse.dropWhile (· == '0')).reverse
  if style.least ≤ exponent ∧ exponent < style.bound then positional digits exponent
  else scientific digits exponent

def signText (negative : Bool) : List Char := if negative then ['-'] else []

/-- The characters of a number's shortest text. -/
def chars : Binary64 → List Char
  | .nan => "nan".toList
  | .infinite negative => signText negative ++ "inf".toList
  | .finite negative units _ =>
    signText negative ++
      if units = 0 then "0.0".toList else layout.write (shortest negative units)

/-- The shortest text that reads back as the number. -/
def text (x : Binary64) : String := String.ofList x.chars

/-- The digits of a natural number with a point before the last `places` of them. -/
def withPlaces (places n : Nat) : List Char :=
  let digits := Nat.toDigits 10 n
  let padded := List.replicate (places + 1 - digits.length) '0' ++ digits
  let whole := padded.length - places
  if places = 0 then padded else padded.take whole ++ '.' :: padded.drop whole

/-- The decimal with `places` digits after the point that is nearest to the number, a
half going to the even neighbour. -/
def fixed (places : Nat) : Binary64 → List Char
  | .nan => "nan".toList
  | .infinite negative => signText negative ++ "inf".toList
  | .finite negative units _ =>
    signText negative ++ withPlaces places (roundDiv (units * 10 ^ places) unitsPerOne)

/-- Drops the zeros at the end of a decimal, and then the point, if there is one. -/
def trimPlaces (text : List Char) : List Char :=
  if text.contains '.' then
    ((text.reverse.dropWhile (· == '0')).dropWhile (· == '.')).reverse
  else text

/-- The text of a number with at most `places` digits after the point. A zero has no
sign; a number that is only rounded to zero keeps its own. -/
def compact (places : Nat) (x : Binary64) : String :=
  String.ofList (trimPlaces (fixed places (if x.isZero then zero false else x)))

/-- Why an integer is no count of decimal places. -/
inductive PlacesFault where
  | negative
  /-- More than 31 bits. -/
  | tooLarge
  /-- More than 63 bits. -/
  | tooLong
  deriving DecidableEq, Repr

def PlacesFault.message : PlacesFault → String
  | .negative => "Format specifier missing precision"
  | .tooLarge => "precision too big"
  | .tooLong => "Too many decimal digits in format string"

/-- The count of decimal places that an integer asks for. No number has more than 1074 of
them, so that many are enough for any larger count. -/
def places? (count : Int) : Except PlacesFault Nat :=
  if count < 0 then .error .negative
  else if (2 ^ 63 : Nat) ≤ count then .error .tooLong
  else if (2 ^ 31 : Nat) ≤ count then .error .tooLarge
  else .ok (min count.toNat 1074)

/-- The text of a number with at most as many digits after the point as an integer asks
for. -/
def compact? (count : Int) (x : Binary64) : Except PlacesFault String := do
  return x.compact (← places? count)

end Turtle.Binary64
