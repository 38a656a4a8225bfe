import Turtle.Color
import Turtle.Point

/-! Figures: what a run leaves behind. A segment is one stroke of the pen; a group holds
the figures of one block, in the order of drawing. -/

namespace Turtle

/-- A stroke from one point to another. -/
structure Segment where
  start : Point
  finish : Point
  width : Binary64
  color : Color
  deriving DecidableEq

inductive Figure where
  | segment (stroke : Segment)
  | group (members : List Figure)

mutual

/-- The segments of a figure, in the order of drawing. -/
def Figure.segments : Figure → List Segment
  | .segment stroke => [stroke]
  | .group members => Figure.segmentsAll members

/-- The segments of several figures, one after another. -/
def Figure.segmentsAll : List Figure → List Segment
  | [] => []
  | figure :: rest => figure.segments ++ Figure.segmentsAll rest

end

@[simp] theorem Figure.segmentsAll_append (a b : List Figure) :
    Figure.segmentsAll (a ++ b) = Figure.segmentsAll a ++ Figure.segmentsAll b := by
  induction a with
  | nil => rfl
  | cons figure rest ih => simp [Figure.segmentsAll, ih]

end Turtle
