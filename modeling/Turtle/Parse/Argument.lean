import Turtle.Binary64.Decimal
import Turtle.Parse.Reader

/-! The arguments of commands. Each is a word on the line of its command. -/

namespace Turtle.Reader
open Turtle.Number

/-- A distance: a natural number. -/
def distance (opener : Token) : Reader Nat := do
  match ← argument opener with
  | none => fail (.missingParameter opener .distance)
  | some word =>
    match natural? largestNatural word.text.toList with
    | none => fail (.badNumber word .distance)
    | some n => return n

/-- A stroke width: a decimal numeral for a finite number that is not below zero. -/
def size (opener : Token) : Reader Binary64 := do
  match ← argument opener with
  | none => fail (.missingParameter opener .size)
  | some word =>
    match Decimal.read? word.text.toList with
    | none => fail (.badNumber word .size)
    | some numeral =>
      let width := Binary64.ofDecimal numeral
      if width.isFinite && !width.isNegative then return width
      else fail (.badNumber word .usableSize)

/-- The amount that a word writes. -/
def channel (word : Token) : Reader Nat :=
  match natural? largestChannel word.text.toList with
  | none => fail (.badChannel word)
  | some n => return n

/-- A further amount of a colour. -/
def nextChannel (opener : Token) : Reader Nat := do
  match ← argument opener with
  | none => fail (.missingParameter opener .channels)
  | some word => channel word

/-- A colour in base sixteen. -/
def hexColor (word : Token) : Reader Color :=
  match Color.hexDigits? word.text.toList with
  | .error fault => fail (.badHex word fault)
  | .ok digits => do
    note (.normalized word.text (String.ofList digits))
    return Color.ofSixDigits digits

/-- A colour: one marked word, or three amounts that are checked one by one. -/
def color (opener : Token) : Reader Color := do
  match ← argument opener with
  | none => fail (.missingParameter opener .color)
  | some word =>
    if Color.isMarked word.text.toList then hexColor word
    else if isDigits word.text.toList then do
      let red ← channel word
      let green ← nextChannel opener
      let blue ← nextChannel opener
      return ⟨red, green, blue⟩
    else fail (.badHex word .unmarkedWord)

/-- The count of a block and the bracket that opens it. -/
def blockHead (opener : Token) : Reader Nat := do
  match ← argument opener with
  | none => fail (.missingCount opener)
  | some word =>
    match natural? largestNatural word.text.toList with
    | none => fail (.badCount word)
    | some count =>
      match ← argument opener with
      | none => fail (.missingBracket word)
      | some bracket =>
        if bracket.text = "[" then return count else fail (.badBracket bracket)

end Turtle.Reader
