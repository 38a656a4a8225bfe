import Turtle.Canvas.Basic
import Turtle.Json.Reader

/-! The description of a canvas as structured data. Every entry may be left out, and
entries of other names do not matter. Entries are checked in a fixed order, and the
first that does not fit is reported by its path. -/

namespace Turtle

inductive CanvasError where
  | notNumber (path : String)
  | notInteger (path : String)
  | notObject (path : String)
  | notColor (path : String)
  | channelRange (path : String)
  | badHex (path word : String) (fault : HexFault)
  | notPositive (path : String)
  | negative (path : String)
  | placesRange
  /-- The text of the description cannot be read; it is named as the reader knew it. -/
  | malformed (name report : String)
  /-- An integer is beyond the range of finite numbers. -/
  | numberTooLarge
  /-- An integer has too many digits to be converted. -/
  | digitLimit (digits : Nat)
  deriving DecidableEq, Repr

def CanvasError.message : CanvasError → String
  | notNumber path => path ++ " must be a number"
  | notInteger path => path ++ " must be an integer"
  | notObject path => path ++ " must be an object"
  | notColor path => path ++ " must be a list of three integers or a hex string"
  | channelRange path => path ++ " channels must be 0..255"
  | badHex path word fault =>
    path ++ ": invalid hex color " ++ Text.quoted word ++ ": " ++ fault.text
  | notPositive path => path ++ " must be > 0"
  | negative path => path ++ " must be >= 0"
  | placesRange => "precision must be between 0 and 10"
  | malformed name report => "Invalid JSON in " ++ name ++ ": " ++ report
  | numberTooLarge => "int too large to convert to float"
  | digitLimit digits => Json.digitLimitText digits

namespace Description
open Json (Value member?)

/-- The most decimal places that a canvas may ask for. -/
def mostPlaces : Nat := 10

/-- A number; truth values are none. -/
def number (path : String) : Value → Except CanvasError Binary64
  | .integer n =>
    match Binary64.ofInt? n with
    | some x => .ok x
    | none => .error .numberTooLarge
  | .number x => .ok x
  | _ => .error (.notNumber path)

def integer (path : String) : Value → Except CanvasError Int
  | .integer n => .ok n
  | _ => .error (.notInteger path)

def object (path : String) : Value → Except CanvasError (List (String × Value))
  | .object members => .ok members
  | _ => .error (.notObject path)

def isChannel (n : Int) : Bool := 0 ≤ n && n ≤ largestChannel

/-- A colour: a hexadecimal word, or three amounts. -/
def color (path : String) : Value → Except CanvasError Color
  | .string word =>
    match Color.ofHex? word.toList with
    | .ok c => .ok c
    | .error fault => .error (.badHex path word fault)
  | .array [red, green, blue] => do
    let c : Color := ⟨← integer (path ++ "[0]") red, ← integer (path ++ "[1]") green,
      ← integer (path ++ "[2]") blue⟩
    if isChannel c.red && isChannel c.green && isChannel c.blue then return c
    else .error (.channelRange path)
  | _ => .error (.notColor path)

/-- The entry of a name, read in its own way, or what stands for it if it is left out. -/
def entry {α : Type} (members : List (String × Value)) (name : String)
    (readEntry : Value → Except CanvasError α) (absent : α) : Except CanvasError α :=
  match member? name members with
  | none => .ok absent
  | some v => readEntry v

def requirePositive (path : String) (x : Binary64) : Except CanvasError Unit :=
  if x.isPositive then .ok () else .error (.notPositive path)

/-- A stroke width: at least zero. -/
def requireNotNegative (path : String) (x : Binary64) : Except CanvasError Unit :=
  if x.isPositive || x.isZero then .ok () else .error (.negative path)

/-- The size: two numbers above zero. -/
def size (root : List (String × Value)) : Except CanvasError (Binary64 × Binary64) := do
  let width ← entry root "width" (number "width") Canvas.standard.width
  let height ← entry root "height" (number "height") Canvas.standard.height
  requirePositive "width" width
  requirePositive "height" height
  return (width, height)

/-- The number of decimal places. -/
def places (root : List (String × Value)) : Except CanvasError Nat := do
  let places ← entry root "precision" (integer "precision") Canvas.standard.places
  if 0 ≤ places ∧ places ≤ mostPlaces then return places.toNat else .error .placesRange

/-- The start; a coordinate that it does not give is half of the size. -/
def startOf (width height : Binary64) (v : Value) : Except CanvasError Point := do
  let start ← object "start" v
  let x ← entry start "x" (number "start.x") width.half
  let y ← entry start "y" (number "start.y") height.half
  return ⟨x, y⟩

/-- The canvas described by the entries that are checked before the colour of the
stroke, and the entries of the stroke. -/
def beforeStrokeColor (root : List (String × Value)) :
    Except CanvasError (Canvas × List (String × Value)) := do
  let (width, height) ← size root
  let background ← entry root "background" (color "background") Canvas.standard.background
  let places ← places root
  let start ← entry root "start" (fun v => some <$> startOf width height v) none
  let stroke ← entry root "stroke" (object "stroke") []
  let strokeWidth ← entry stroke "width" (number "stroke.width") Canvas.standard.strokeWidth
  requireNotNegative "stroke.width" strokeWidth
  return ({ Canvas.standard with width, height, background, places, start, strokeWidth },
    stroke)

/-- The hexadecimal word of an entry with its six digits, if it has one. -/
def hexWord (members : List (String × Value)) (name : String) : List (String × String) :=
  match member? name members with
  | some (.string word) =>
    match Color.hexDigits? word.toList with
    | .ok digits => [(word, String.ofList digits)]
    | .error _ => []
  | _ => []

/-- The hexadecimal words that a description writes out before it is read or refused. -/
def hexWords (v : Value) : List (String × String) :=
  match object "root" v with
  | .error _ => []
  | .ok root =>
    match size root with
    | .error _ => []
    | .ok _ => hexWord root "background" ++
      match beforeStrokeColor root with
      | .error _ => []
      | .ok (_, stroke) => hexWord stroke "color"

end Description

namespace Canvas
open Description

/-- The canvas that a value describes. -/
def ofValue (v : Json.Value) : Except CanvasError Canvas := do
  let root ← object "root" v
  let (canvas, stroke) ← beforeStrokeColor root
  let strokeColor ← entry stroke "color" (color "stroke.color") standard.strokeColor
  return { canvas with strokeColor }

/-- The canvas that a text describes; `name` tells where the text comes from. -/
def ofText (name : String) (text : List Char) : Except CanvasError Canvas :=
  match Json.read text with
  | .error (.fault fault offset) => .error (.malformed name (fault.located offset text))
  | .error (.digitLimit digits) => .error (.digitLimit digits)
  | .ok v => ofValue v

end Canvas

end Turtle
