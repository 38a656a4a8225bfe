import Turtle.Binary64.Text
import Turtle.Cursor.Basic

/-! The journal of a run: each change of the cursor, each stroke and each iteration of a
block, in order. Keeping it apart from the run lets a drawing be made without it. -/

namespace Turtle

inductive JournalEntry where
  | changed (cursor : Cursor)
  | stroke (start finish : Point)
  | iteration (number count : Int)

def Point.inspect (p : Point) : String := s!"Point(x={p.x.text}, y={p.y.text})"

def Heading.inspect (h : Heading) : String :=
  s!"<Direction.{h.name}: '" ++ String.ofList (h.name.toList.map Char.toLower) ++ "'>"

def truthText (b : Bool) : String := if b then "True" else "False"

def Cursor.inspect (c : Cursor) : String :=
  "Cursor(position=" ++ c.position.inspect ++ ", heading=" ++ c.heading.inspect ++
    ", pen_down=" ++ truthText c.penDown ++ ", stroke_width=" ++ c.width.text ++
    s!", stroke_color=({c.color.red}, {c.color.green}, {c.color.blue}))"

def JournalEntry.text : JournalEntry → String
  | .changed cursor => "cursor: " ++ cursor.inspect
  | .stroke start finish => "line from " ++ start.inspect ++ " to " ++ finish.inspect
  | .iteration number count => s!"repeat iteration {number} of {count}"

namespace Cursor

/-- The journal of a body that is carried out `left` more times, the first of them being
number `number` of `count`. -/
def iterationJournal (body : Drawing (List Figure)) (journal : Cursor → List JournalEntry)
    (count : Int) : Nat → Int → Cursor → List JournalEntry
  | 0, _, _ => []
  | left + 1, number, cursor =>
    .iteration number count :: journal cursor ++
      match body cursor with
      | .error _ _ => []
      | .ok _ after => iterationJournal body journal count left (number + 1) after

mutual

/-- What carrying out a command from a cursor enters. -/
def journal : Command → Cursor → List JournalEntry
  | .forward distance, cursor =>
    match forward distance cursor with
    | .ok (some _) after => [.stroke cursor.position after.position]
    | _ => []
  | .block count body, cursor =>
    iterationJournal (applyAll body) (journalAll body) count count.toNat 1 cursor
  | .blockEnd, _ => []
  | command, cursor => [.changed (after (apply command) cursor)]

/-- What carrying out commands in order enters, up to the first that fails. -/
def journalAll : List Command → Cursor → List JournalEntry
  | [], _ => []
  | command :: rest, cursor =>
    journal command cursor ++
      match apply command cursor with
      | .error _ _ => []
      | .ok _ left => journalAll rest left

end

end Cursor

end Turtle
