import Turtle.Parse.Argument

/-! Reading commands, blocks and whole programs. A command is read with a bound on the
blocks that it may still open, and each block lowers the bound by one, so the depth of
the recursion does not depend on the text. Every command takes a token at least, so
the tokens that are left bound how many commands a body or a program can hold. -/

namespace Turtle.Reader

/-- The command that a word has begun; `body` reads the body of a block. -/
def commandOf (body : Token → Reader (List Command)) (opener : Token) :
    Keyword → Reader Command
  | .forward => do return .forward (← distance opener)
  | .turn side => return .turn side
  | .pen down => return .pen down
  | .size => do return .setSize (← size opener)
  | .color => do return .setColor (← color opener)
  | .block => do
    let count ← blockHead opener
    return .block count (← body opener)
  | .blockEnd => return .blockEnd

/-- One command; the end of a block counts as one. -/
def command (body : Token → Reader (List Command)) : Reader Command := do
  match ← next with
  | none => fail (.emptyCommand (← position).last)
  | some opener =>
    match Keyword.ofWord? opener.text with
    | none => fail (.unknownCommand opener)
    | some keyword =>
      let read ← commandOf body opener keyword
      note (.parsed opener.lineNumber read)
      return read

/-- At most `most` commands up to the end of the block that `opener` began. -/
def bodyWithin (inner : Reader Command) (opener : Token) : Nat → Reader (List Command)
  | 0 => fail (.unterminated opener)
  | most + 1 => do
    if (← position).atEnd then fail (.unterminated opener)
    else match ← inner with
      | .blockEnd => return []
      | read => return read :: (← bodyWithin inner opener most)

/-- The body of a block, up to its end. -/
def blockBody (inner : Reader Command) (opener : Token) : Reader (List Command) :=
  fun tape => bodyWithin inner opener tape.rest.length tape

/-- One command that may open at most `levels` blocks inside one another. -/
def commandWithin : Nat → Reader Command
  | 0 => command fun opener => fail (.nestingTooDeep opener)
  | levels + 1 => command (blockBody (commandWithin levels))

/-- One command at a depth: it may open the blocks that are left below the deepest one. A
depth may be negative, and leaves more of them then. -/
def commandAt (depth : Int) : Reader Command :=
  commandWithin ((deepestBlock : Int) - depth).toNat

/-- Nothing more may stand on the line on which a command ended. -/
def endOfLine (read : Command) : Reader Unit := do
  let tape ← position
  match tape.last, tape.peek with
  | some last, some extra =>
    if extra.lineNumber = last.lineNumber then fail (.trailing extra read) else return
  | _, _ => return

/-- A command outside of any block, alone on its lines. -/
def statement : Reader Command := do
  match ← commandAt 0 with
  | .blockEnd => fail (.unmatchedEnd (← position).last)
  | read =>
    endOfLine read
    return read

/-- At most `most` statements up to the end of the tape. -/
def statementsWithin : Nat → Reader (List Command)
  | 0 => return []
  | most + 1 => do
    if (← position).atEnd then return []
    else
      let read ← statement
      return read :: (← statementsWithin most)

/-- All statements of a tape. -/
def statements : Reader (List Command) := fun tape => statementsWithin tape.rest.length tape

end Turtle.Reader

namespace Turtle.Parse

/-- Reads a whole program. -/
def program (text : String) : Outcome (List Command) :=
  Reader.statements (Tape.ofTokens (Token.ofText 1 text))

/-- Reads one command; its text begins on a line with the given number. -/
def line (lineNumber : Int) (text : String) : Outcome Command :=
  Reader.statement (Tape.ofTokens (Token.ofText lineNumber text))

/-- The program that a text writes, or the first error in it. -/
def program? (text : String) : Except ParseError (List Command) := (program text).result

/-- The command that a line writes, or the first error in it. -/
def line? (lineNumber : Int) (text : String) : Except ParseError Command :=
  (line lineNumber text).result

end Turtle.Parse
