import Turtle.Canvas.Basic
import Turtle.Parse.Program

/-! Pictures: a program read, carried out on a canvas and written as a document. A
program that cannot be read draws nothing. -/

namespace Turtle

/-- Why a program gives no picture. -/
inductive PictureError where
  | parse (e : ParseError)
  | run (e : RunError)

namespace Picture

/-- Carries out a program from a cursor: the figures and the cursor at the end. -/
def draw (program : List Command) (cursor : Cursor) :
    Except PictureError (List Figure × Cursor) :=
  match Cursor.applyAll program cursor with
  | .ok figures left => .ok (figures, left)
  | .error e _ => .error (.run e)

/-- Reads and carries out a program on a canvas. -/
def ofText (canvas : Canvas) (text : String) : Except PictureError (List Figure × Cursor) :=
  match Parse.program? text with
  | .ok program => draw program canvas.cursor
  | .error e => .error (.parse e)

/-- The document that a program draws on a canvas. -/
def render (canvas : Canvas) (title : Option String) (text : String) :
    Except PictureError String := do
  let (figures, _) ← ofText canvas text
  return (canvas.document title figures).text

/-- A program that is read and runs to its end has the picture of what it draws. -/
theorem render_of_run {canvas : Canvas} {text : String} {program : List Command} {figures : List Figure}
    {left : Cursor} (hparse : Parse.program? text = .ok program)
    (hrun : Cursor.applyAll program canvas.cursor = .ok figures left) (title : Option String) :
    render canvas title text = .ok (canvas.document title figures).text := by
  rw [render, ofText, hparse]
  dsimp only
  rw [draw, hrun]
  rfl

end Picture

end Turtle
