import Turtle.Text.Quoted

/-! Colours, and their form in base sixteen. A hexadecimal colour is the mark `0x` and
one, three or six digits: one digit stands for all six, and each of three for a
doubled pair. -/

namespace Turtle

/-- The amounts of red, green and blue. -/
structure Color where
  red : Int
  green : Int
  blue : Int
  deriving DecidableEq, Repr

/-- Why a word is no hexadecimal colour. -/
inductive HexFault where
  /-- The word does not begin with the mark. -/
  | unmarked
  /-- The word is neither marked nor an amount of red. -/
  | unmarkedWord
  /-- The number of digits is not one, three or six. -/
  | length (found : Nat)
  /-- Some character is no digit of base sixteen. -/
  | digits (found : String)
  deriving DecidableEq, Repr

def HexFault.text : HexFault → String
  | .unmarked => "hex colors must start with '0x'"
  | .unmarkedWord => "single argument colors must start with '0x'"
  | .length found => s!"expected 1, 3 or 6 hex digits after '0x', found {found}"
  | .digits found => Text.quoted found ++ " is not hexadecimal"

namespace Color

def black : Color := ⟨0, 0, 0⟩

/-- The value of a digit of base sixteen, in letters of either case. -/
def hexValue? (c : Char) : Option Nat :=
  if c.isDigit then some (c.toNat - 48)
  else if 'a' ≤ c ∧ c ≤ 'f' then some (c.toNat - 87)
  else if 'A' ≤ c ∧ c ≤ 'F' then some (c.toNat - 55)
  else none

def hexValue (digits : List Char) : Nat :=
  digits.foldl (fun value c => 16 * value + (hexValue? c).getD 0) 0

/-- Writes a short form out in six digits. -/
def sixDigits : List Char → List Char
  | [d] => List.replicate 6 d
  | [r, g, b] => [r, r, g, g, b, b]
  | digits => digits

/-- The colour of six digits: a pair for each amount. -/
def ofSixDigits (digits : List Char) : Color :=
  ⟨hexValue (digits.take 2), hexValue ((digits.drop 2).take 2), hexValue (digits.drop 4)⟩

/-- Whether a text begins with the mark of a hexadecimal colour. -/
def isMarked : List Char → Bool
  | '0' :: 'x' :: _ => true
  | _ => false

/-- The six digits that a marked word stands for. -/
def hexDigits? (text : List Char) : Except HexFault (List Char) :=
  if isMarked text then
    let digits := text.drop 2
    if digits.length ∉ [1, 3, 6] then .error (.length digits.length)
    else if digits.all fun c => (hexValue? c).isSome then .ok (sixDigits digits)
    else .error (.digits (String.ofList digits))
  else .error .unmarked

/-- The colour that a hexadecimal word names. -/
def ofHex? (text : List Char) : Except HexFault Color :=
  (hexDigits? text).map ofSixDigits

end Color

end Turtle
