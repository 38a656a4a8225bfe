import Turtle.Binary64.Decimal
import Turtle.Color
import Turtle.Json.Fault
import Turtle.Json.Value

/-! Reading structured data. The reader goes through the text once and reports the first
fault with its offset. Beside the standard values it knows three names of numbers that
are not finite. A value nested in another lies inside its brackets, so the length of
the text bounds the nesting as well as the number of members. -/

namespace Turtle.Json
open Turtle.Number

/-- A place in a text: how many characters are before it, and those after it. -/
structure Scan where
  offset : Nat
  rest : List Char

def isSpace (c : Char) : Bool := c == ' ' || c == '\t' || c == '\n' || c == '\r'

namespace Scan

def advance (s : Scan) (n : Nat) : Scan := ⟨s.offset + n, s.rest.drop n⟩

def skipSpace (s : Scan) : Scan := s.advance (s.rest.takeWhile isSpace).length

def fail {α : Type} (s : Scan) (fault : Fault) : Except Failure α := .error (.fault fault s.offset)

end Scan

/-- The character that a letter after a backslash stands for. -/
def escaped? : Char → Option Char
  | '"' => some '"'
  | '\\' => some '\\'
  | '/' => some '/'
  | 'b' => some '\x08'
  | 'f' => some '\x0c'
  | 'n' => some '\n'
  | 'r' => some '\r'
  | 't' => some '\t'
  | _ => none

/-- The code units of a string up to its closing quote. A code of four digits is followed
by at least one character, as the quote is still to come. -/
def stringUnits (opening : Nat) : Nat → List Char → Except Failure (List Nat × Scan)
  | _, [] => .error (.fault .unterminated opening)
  | offset, '"' :: rest => .ok ([], ⟨offset + 1, rest⟩)
  | _, ['\\'] => .error (.fault .unterminated opening)
  | offset, '\\' :: 'u' :: a :: b :: c :: d :: next :: rest =>
    if [a, b, c, d].all fun x => (Color.hexValue? x).isSome then do
      let (units, left) ← stringUnits opening (offset + 6) (next :: rest)
      return (Color.hexValue [a, b, c, d] :: units, left)
    else .error (.fault .codeEscape (offset + 1))
  | offset, '\\' :: letter :: rest =>
    if letter = 'u' then .error (.fault .codeEscape (offset + 1))
    else match escaped? letter with
      | none => .error (.fault .escape offset)
      | some c => do
        let (units, left) ← stringUnits opening (offset + 2) rest
        return (c.toNat :: units, left)
  | offset, c :: rest =>
    if c.toNat < 32 then .error (.fault .control offset)
    else do
      let (units, left) ← stringUnits opening (offset + 1) rest
      return (c.toNat :: units, left)

def isHighSurrogate (unit : Nat) : Bool := 0xD800 ≤ unit && unit ≤ 0xDBFF

def isLowSurrogate (unit : Nat) : Bool := 0xDC00 ≤ unit && unit ≤ 0xDFFF

/-- The character of a code unit that stands alone; half of a pair is replaced. -/
def unitChar (unit : Nat) : Char :=
  if isHighSurrogate unit || isLowSurrogate unit then '\uFFFD' else Char.ofNat unit

/-- The characters of code units, two halves of a pair making one. -/
def joinUnits : List Nat → List Char
  | [] => []
  | [unit] => [unitChar unit]
  | high :: low :: rest =>
    if isHighSurrogate high && isLowSurrogate low then
      Char.ofNat (0x10000 + (high - 0xD800) * 0x400 + (low - 0xDC00)) :: joinUnits rest
    else unitChar high :: joinUnits (low :: rest)

/-- A string whose opening quote is at a place. -/
def string (s : Scan) : Except Failure (String × Scan) := do
  let (units, left) ← stringUnits s.offset (s.offset + 1) (s.rest.drop 1)
  return (String.ofList (joinUnits units), left)

/-- How many characters of a text are the digits of a fraction with its point. -/
def fractionLength : List Char → Nat
  | '.' :: rest =>
    let digits := rest.takeWhile Char.isDigit
    if digits.isEmpty then 0 else digits.length + 1
  | _ => 0

/-- How many characters of a text are an exponent with its mark. -/
def exponentLength : List Char → Nat
  | mark :: rest =>
    if mark = 'e' ∨ mark = 'E' then
      let signLength := if rest.head? = some '+' ∨ rest.head? = some '-' then 1 else 0
      let digits := (rest.drop signLength).takeWhile Char.isDigit
      if digits.isEmpty then 0 else 1 + signLength + digits.length
    else 0
  | [] => 0

/-- How many characters of a text are a whole number; a zero is not followed by digits. -/
def wholeLength (text : List Char) : Nat :=
  let signLength := if text.head? = some '-' then 1 else 0
  match text.drop signLength with
  | '0' :: _ => signLength + 1
  | unsigned =>
    let digits := unsigned.takeWhile Char.isDigit
    if digits.isEmpty then 0 else signLength + digits.length

/-- The integer that an optional minus sign and digits write. -/
def integerOf (numeral : List Char) : Except Failure Value :=
  let (negative, digits) := Decimal.splitSign numeral
  if mostDigits < digits.length then .error (.digitLimit digits.length)
  else .ok (.integer (Decimal.signed negative (digitsValue digits)))

/-- A number, as long as it can be read; without a point and a power it is an integer. -/
def number (s : Scan) : Except Failure (Value × Scan) :=
  let whole := wholeLength s.rest
  if whole = 0 then s.fail .value
  else
    let fraction := fractionLength (s.rest.drop whole)
    let power := exponentLength (s.rest.drop (whole + fraction))
    let length := whole + fraction + power
    let numeral := s.rest.take length
    if fraction + power = 0 then do
      return (← integerOf numeral, s.advance length)
    else match Decimal.read? numeral with
      | none => s.fail .value
      | some d => .ok (.number (.ofDecimal d), s.advance length)

/-- The names of values. -/
def names : List (String × Value) := [
  ("null", .null), ("true", .bool true), ("false", .bool false), ("NaN", .number .nan),
  ("Infinity", .number (.infinite false)), ("-Infinity", .number (.infinite true))]

/-- A named value at a place. -/
def named? (s : Scan) : Option (Value × Scan) :=
  names.findSome? fun (name, v) =>
    if name.toList.isPrefixOf s.rest then some (v, s.advance name.length) else none

/-- The items of an array from a place on where one begins, at most `most`. -/
def itemsWithin (inner : Scan → Except Failure (Value × Scan)) :
    Nat → Scan → Except Failure (List Value × Scan)
  | 0, s => s.fail .comma
  | most + 1, s => do
    let (item, left) ← inner s
    let left := left.skipSpace
    match left.rest with
    | ']' :: _ => return ([item], left.advance 1)
    | ',' :: _ => do
      let (items, left) ← itemsWithin inner most (left.advance 1).skipSpace
      return (item :: items, left)
    | _ => left.fail .comma

/-- The members of an object from a place on where one begins, at most `most`. -/
def membersWithin (inner : Scan → Except Failure (Value × Scan)) :
    Nat → Scan → Except Failure (List (String × Value) × Scan)
  | 0, s => s.fail .comma
  | most + 1, s =>
    match s.rest with
    | '"' :: _ => do
      let (name, left) ← string s
      let left := left.skipSpace
      match left.rest with
      | ':' :: _ => do
        let (v, left) ← inner (left.advance 1).skipSpace
        let left := left.skipSpace
        match left.rest with
        | '\x7d' :: _ => return ([(name, v)], left.advance 1)
        | ',' :: _ => do
          let (members, left) ← membersWithin inner most (left.advance 1).skipSpace
          return ((name, v) :: members, left)
        | _ => left.fail .comma
      | _ => left.fail .colon
    | _ => s.fail .name

/-- A value at a place; `inner` reads the values inside it. -/
def value (inner : Scan → Except Failure (Value × Scan)) (s : Scan) :
    Except Failure (Value × Scan) :=
  match s.rest with
  | '"' :: _ => do
    let (text, left) ← string s
    return (.string text, left)
  | '[' :: _ => do
    let first := (s.advance 1).skipSpace
    match first.rest with
    | ']' :: _ => return (.array [], first.advance 1)
    | _ => do
      let (items, left) ← itemsWithin inner s.rest.length first
      return (.array items, left)
  | '\x7b' :: _ => do
    let first := (s.advance 1).skipSpace
    match first.rest with
    | '\x7d' :: _ => return (.object [], first.advance 1)
    | _ => do
      let (members, left) ← membersWithin inner s.rest.length first
      return (.object members, left)
  | _ =>
    match named? s with
    | some found => .ok found
    | none => number s

/-- A value with at most so many values nested in one another. -/
def valueWithin : Nat → Scan → Except Failure (Value × Scan)
  | 0, s => s.fail .value
  | depth + 1, s => value (valueWithin depth) s

/-- The value that a whole text writes. -/
def read (text : List Char) : Except Failure Value :=
  if text.head? = some '\uFEFF' then .error (.fault .byteOrderMark 0)
  else do
    let (v, left) ← valueWithin (text.length + 1) (Scan.skipSpace ⟨0, text⟩)
    let left := left.skipSpace
    if left.rest.isEmpty then return v else left.fail .extra

end Turtle.Json
