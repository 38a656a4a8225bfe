import Turtle.Cursor.Basic
import Turtle.Svg.Document

/-! The canvas: the size and look of a drawing, and where its cursor starts. -/

namespace Turtle

structure Canvas where
  width : Binary64
  height : Binary64
  background : Color
  places : Nat
  strokeWidth : Binary64
  strokeColor : Color
  /-- Where the cursor starts, unless in the middle. -/
  start : Option Point
  deriving DecidableEq

namespace Canvas

/-- The canvas of a drawing about which nothing is said. -/
def standard : Canvas where
  width := .ofNat 640
  height := .ofNat 640
  background := ⟨255, 238, 238⟩
  places := 3
  strokeWidth := .ofNat 2
  strokeColor := .black
  start := none

/-- The middle of a canvas, or the start that it names. -/
def startPoint (canvas : Canvas) : Point :=
  canvas.start.getD ⟨canvas.width.half, canvas.height.half⟩

/-- The cursor at the beginning of a drawing. -/
def cursor (canvas : Canvas) : Cursor :=
  { Cursor.startingAt canvas.startPoint with
    width := canvas.strokeWidth, color := canvas.strokeColor }

/-- The document that shows figures on a canvas. -/
def document (canvas : Canvas) (title : Option String) (figures : List Figure) :
    Svg.Document where
  places := canvas.places
  title := title
  elements := .background canvas.width canvas.height canvas.background ::
    (Figure.segmentsAll figures).map .stroke

end Canvas

end Turtle
