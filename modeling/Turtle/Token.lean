import Turtle.Text.Blank
import Turtle.Text.Line

/-! Tokens: the words of a program, each with the line that holds it. A line whose first
word begins with a number sign is a comment; it has no tokens, like a blank line. -/

namespace Turtle

/-- A word, the number of its line, and the whole line. -/
structure Token where
  text : String
  lineNumber : Int
  line : String
  deriving DecidableEq, Repr

namespace Token

/-- Whether the words of a line make it a comment. -/
def isComment : List (List Char) → Bool
  | ('#' :: _) :: _ => true
  | _ => false

/-- The tokens of one line. -/
def ofLine (lineNumber : Int) (line : List Char) : List Token :=
  let found := Text.words line
  let whole := String.ofList line
  if isComment found then []
  else found.map fun word => ⟨String.ofList word, lineNumber, whole⟩

/-- The tokens of lines numbered from `first` on. -/
def ofLines (first : Int) : List (List Char) → List Token
  | [] => []
  | line :: rest => ofLine first line ++ ofLines (first + 1) rest

/-- The tokens of a text whose first line has the number `first`. -/
def ofText (first : Int) (text : String) : List Token :=
  ofLines first (Text.lines text.toList)

theorem line_of_mem_ofLine {n : Int} {line : List Char} {t : Token} (h : t ∈ ofLine n line) :
    t.lineNumber = n ∧ t.line = String.ofList line ∧
      t.text.toList ∈ Text.words line := by
  simp only [ofLine] at h
  split at h
  · simp at h
  · obtain ⟨word, hw, rfl⟩ := List.mem_map.mp h
    exact ⟨rfl, rfl, by simpa using hw⟩

end Token

end Turtle
