/-! Headings and quarter turns. The four headings form a cycle through which a left turn
steps forwards and a right turn back. Screen coordinates grow rightwards and downwards,
so north is the negative second axis. -/

namespace Turtle

inductive Turn where
  | left
  | right
  deriving DecidableEq, Repr

inductive Heading where
  | east
  | north
  | west
  | south
  deriving DecidableEq, Repr

namespace Heading

/-- The heading after a quarter turn. -/
def turn : Turn → Heading → Heading
  | .left, .east => .north
  | .left, .north => .west
  | .left, .west => .south
  | .left, .south => .east
  | .right, .east => .south
  | .right, .south => .west
  | .right, .west => .north
  | .right, .north => .east

/-- The step of one unit along a heading. -/
def unit : Heading → Int × Int
  | .east => (1, 0)
  | .north => (0, -1)
  | .west => (-1, 0)
  | .south => (0, 1)

/-- The place of a heading in the cycle. -/
def index : Heading → Nat
  | .east => 0
  | .north => 1
  | .west => 2
  | .south => 3

/-- The name of a heading in capitals. -/
def name : Heading → String
  | .east => "EAST"
  | .north => "NORTH"
  | .west => "WEST"
  | .south => "SOUTH"

def ofName? (name : String) : Option Heading :=
  [east, north, west, south].find? (·.name == name)

@[simp] theorem turn_left_right (h : Heading) : turn .left (turn .right h) = h := by
  cases h <;> rfl

@[simp] theorem turn_right_left (h : Heading) : turn .right (turn .left h) = h := by
  cases h <;> rfl

theorem index_turn_left (h : Heading) : (turn .left h).index = (h.index + 1) % 4 := by
  cases h <;> rfl

@[simp] theorem ofName?_name (h : Heading) : ofName? h.name = some h := by
  cases h <;> rfl

end Heading

end Turtle
