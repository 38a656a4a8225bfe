import Turtle.Command.Basic
import Turtle.Figure

/-! The cursor: the state of a turtle, and what a command does to it. A run that fails
leaves the cursor as the commands before the failing one have made it. -/

namespace Turtle

structure Cursor where
  position : Point
  heading : Heading
  penDown : Bool
  width : Binary64
  color : Color
  deriving DecidableEq

/-- Why a command cannot be carried out. -/
inductive RunError where
  /-- The end of a block stands outside of any block. -/
  | strayBlockEnd
  /-- A distance is beyond the range of finite numbers. -/
  | distanceTooLarge
  deriving DecidableEq, Repr

def RunError.message : RunError → String
  | .strayBlockEnd => "EndRepeat found outside of a REPEAT block"
  | .distanceTooLarge => "int too large to convert to float"

/-- A computation that moves a cursor and may fail. -/
abbrev Drawing := EStateM RunError Cursor

namespace Cursor

/-- A cursor at a point: heading east, pen down, a black stroke of width two. -/
def startingAt (position : Point) : Cursor :=
  ⟨position, .east, true, .ofNat 2, .black⟩

/-- The distance moved along each axis. -/
def displacement? (heading : Heading) (distance : Int) : Option (Binary64 × Binary64) := do
  let dx ← Binary64.ofInt? (distance * heading.unit.1)
  let dy ← Binary64.ofInt? (distance * heading.unit.2)
  return (dx, dy)

/-- Moves by a displacement, if there is one; the pen draws a segment if it is down. -/
def advance : Option (Binary64 × Binary64) → Drawing (Option Figure)
  | none => throw .distanceTooLarge
  | some (dx, dy) => fun cursor =>
    let start := cursor.position
    let finish : Point := ⟨start.x + dx, start.y + dy⟩
    .ok (if cursor.penDown then some (.segment ⟨start, finish, cursor.width, cursor.color⟩)
      else none) { cursor with position := finish }

/-- Moves along the heading. -/
def forward (distance : Int) : Drawing (Option Figure) := fun cursor =>
  advance (displacement? cursor.heading distance) cursor

/-- Carries out a body a number of times; `drawn` holds the figures before, the newest
first. -/
def iterate (body : Drawing (List Figure)) : Nat → List Figure → Drawing (List Figure)
  | 0, drawn => return drawn.reverse
  | times + 1, drawn => do
    let more ← body
    iterate body times (more.reverse ++ drawn)

/-- The figure of a block; a block that has drawn nothing leaves none. -/
def groupOf : List Figure → Option Figure
  | [] => none
  | members => some (.group members)

mutual

/-- Carries out a command. A negative count is no iterations. -/
def apply : Command → Drawing (Option Figure)
  | .forward distance => forward distance
  | .turn side => do
    modify fun cursor => { cursor with heading := cursor.heading.turn side }
    return none
  | .pen down => do
    modify fun cursor => { cursor with penDown := down }
    return none
  | .setSize width => do
    modify fun cursor => { cursor with width := width }
    return none
  | .setColor color => do
    modify fun cursor => { cursor with color := color }
    return none
  | .block count body => do
    return groupOf (← iterate (applyAll body) count.toNat [])
  | .blockEnd => throw .strayBlockEnd

/-- Carries out commands in order and collects what they draw. -/
def applyAll : List Command → Drawing (List Figure)
  | [] => return []
  | command :: rest => do
    let figure ← apply command
    let figures ← applyAll rest
    return figure.toList ++ figures

end

/-- The cursor after a computation, whether it failed or not. -/
def after {α : Type} (drawing : Drawing α) (cursor : Cursor) : Cursor :=
  match drawing cursor with
  | .ok _ left => left
  | .error _ left => left

end Cursor

end Turtle
