import Turtle.Binary64.Basic
import Turtle.Color
import Turtle.Heading

/-! The commands of a turtle program. A block repeats its body. The end of a block is a
command of its own only while a program is being read: a finished program holds none. -/

namespace Turtle

inductive Command where
  | forward (distance : Int)
  | turn (side : Turn)
  | pen (down : Bool)
  | setSize (width : Binary64)
  | setColor (color : Color)
  | block (count : Int) (body : List Command)
  | blockEnd

mutual

/-- Whether two commands are equal. Commands of different kinds never are. -/
def Command.decEq : (a b : Command) → Decidable (a = b)
  | .forward m, .forward n => decidable_of_iff (m = n) (by simp)
  | .turn s, .turn t => decidable_of_iff (s = t) (by simp)
  | .pen s, .pen t => decidable_of_iff (s = t) (by simp)
  | .setSize v, .setSize w => decidable_of_iff (v = w) (by simp)
  | .setColor c, .setColor d => decidable_of_iff (c = d) (by simp)
  | .block m p, .block n q =>
    have := Command.decEqAll p q
    decidable_of_iff (m = n ∧ p = q) (by simp)
  | .blockEnd, .blockEnd => isTrue rfl
  | .forward _, .turn _ | .forward _, .pen _ | .forward _, .setSize _ | .forward _, .setColor _
  | .forward _, .block _ _ | .forward _, .blockEnd
  | .turn _, .forward _ | .turn _, .pen _ | .turn _, .setSize _ | .turn _, .setColor _
  | .turn _, .block _ _ | .turn _, .blockEnd
  | .pen _, .forward _ | .pen _, .turn _ | .pen _, .setSize _ | .pen _, .setColor _
  | .pen _, .block _ _ | .pen _, .blockEnd
  | .setSize _, .forward _ | .setSize _, .turn _ | .setSize _, .pen _ | .setSize _, .setColor _
  | .setSize _, .block _ _ | .setSize _, .blockEnd
  | .setColor _, .forward _ | .setColor _, .turn _ | .setColor _, .pen _
  | .setColor _, .setSize _ | .setColor _, .block _ _ | .setColor _, .blockEnd
  | .block _ _, .forward _ | .block _ _, .turn _ | .block _ _, .pen _ | .block _ _, .setSize _
  | .block _ _, .setColor _ | .block _ _, .blockEnd
  | .blockEnd, .forward _ | .blockEnd, .turn _ | .blockEnd, .pen _ | .blockEnd, .setSize _
  | .blockEnd, .setColor _ | .blockEnd, .block _ _ => isFalse nofun

def Command.decEqAll : (p q : List Command) → Decidable (p = q)
  | [], [] => isTrue rfl
  | [], _ :: _ => isFalse nofun
  | _ :: _, [] => isFalse nofun
  | a :: p, b :: q =>
    have := Command.decEq a b
    have := Command.decEqAll p q
    decidable_of_iff (a = b ∧ p = q) (by simp)

end

instance : DecidableEq Command := Command.decEq

/-- The largest distance and count that a program can write. -/
def largestNatural : Nat := 2 ^ 32 - 1

/-- The largest amount of red, green or blue. -/
def largestChannel : Nat := 255

/-- How many blocks may enclose one another. -/
def deepestBlock : Nat := 64

/-- The words that begin a command, and the end of a block. -/
inductive Keyword where
  | forward
  | turn (side : Turn)
  | pen (down : Bool)
  | size
  | color
  | block
  | blockEnd
  deriving DecidableEq, Repr

namespace Keyword

/-- Every command word with its meaning, the long word before the short one. -/
def commandWords : List (String × Keyword) := [
  ("FORWARD", .forward), ("F", .forward),
  ("LEFT", .turn .left), ("L", .turn .left),
  ("RIGHT", .turn .right), ("R", .turn .right),
  ("PENUP", .pen false), ("U", .pen false),
  ("PENDOWN", .pen true), ("D", .pen true),
  ("SETSIZE", .size), ("S", .size),
  ("SETCOLOR", .color), ("C", .color),
  ("REPEAT", .block)]

/-- The meaning of a word; case matters. -/
def ofWord? (word : String) : Option Keyword :=
  if word = "]" then some .blockEnd else commandWords.lookup word

/-- The long word of a keyword. -/
def word : Keyword → String
  | .forward => "FORWARD"
  | .turn .left => "LEFT"
  | .turn .right => "RIGHT"
  | .pen false => "PENUP"
  | .pen true => "PENDOWN"
  | .size => "SETSIZE"
  | .color => "SETCOLOR"
  | .block => "REPEAT"
  | .blockEnd => "]"

theorem ofWord?_word (k : Keyword) : ofWord? k.word = some k := by
  rcases k with _ | ⟨_ | _⟩ | ⟨_ | _⟩ | _ | _ | _ | _ <;> decide

end Keyword

end Turtle
