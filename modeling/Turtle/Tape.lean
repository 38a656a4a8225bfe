import Turtle.Token

/-! A tape of tokens with a reading position. The whole program is on one tape, so a block
goes on reading on the following lines, while an argument is taken only from the line of
its command. Reading moves forward by one token and never back. -/

namespace Turtle

/-- The tokens before the position, the newest first, and those after it. -/
structure Tape where
  past : List Token
  rest : List Token
  deriving DecidableEq, Repr

namespace Tape

def ofTokens (tokens : List Token) : Tape := ⟨[], tokens⟩

/-- The token read last. -/
def last (tape : Tape) : Option Token := tape.past.head?

/-- The token that would be read next. -/
def peek (tape : Tape) : Option Token := tape.rest.head?

def atEnd (tape : Tape) : Bool := tape.rest.isEmpty

/-- Reads the next token; at the end there is none and the tape stays as it is. -/
def next (tape : Tape) : Option Token × Tape :=
  match tape.rest with
  | [] => (none, tape)
  | token :: rest => (some token, ⟨token :: tape.past, rest⟩)

/-- Reads the next token if it stands on a given line. -/
def nextOnLine (lineNumber : Int) (tape : Tape) : Option Token × Tape :=
  match tape.peek with
  | none => (none, tape)
  | some token => if token.lineNumber = lineNumber then tape.next else (none, tape)

/-- All tokens of a tape, in order. -/
def tokens (tape : Tape) : List Token := tape.past.reverse ++ tape.rest

@[simp] theorem tokens_ofTokens (tokens : List Token) : (ofTokens tokens).tokens = tokens := by
  simp [ofTokens, Tape.tokens]

@[simp] theorem tokens_next (tape : Tape) : tape.next.2.tokens = tape.tokens := by
  obtain ⟨past, rest⟩ := tape
  cases rest <;> simp [next, tokens]

@[simp] theorem tokens_nextOnLine (n : Int) (tape : Tape) :
    (tape.nextOnLine n).2.tokens = tape.tokens := by
  simp only [nextOnLine]
  split
  · rfl
  · split
    · exact tokens_next tape
    · rfl

end Tape

end Turtle
