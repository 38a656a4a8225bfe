import Turtle.Command.Printer
import Turtle.Number.Natural
import Turtle.Token

/-! Why a program cannot be read. An error keeps the token it was found at, which gives
the line of its report; only a text without any token has none. -/

namespace Turtle

/-- What a command lacks after its word. -/
inductive Parameter where
  | distance
  | size
  | color
  | channels
  deriving DecidableEq, Repr

def Parameter.text : Parameter → String
  | .distance => "unsigned integer"
  | .size => "number"
  | .color => "color"
  | .channels => "byte byte byte"

/-- What a word should have been. -/
inductive Numeral where
  | distance
  | size
  | usableSize
  deriving DecidableEq, Repr

def Numeral.text : Numeral → String
  | .distance => "an unsigned integer distance"
  | .size => "a number"
  | .usableSize => "a finite, non-negative stroke width"

inductive ParseError where
  /-- No token is left where a command should begin. -/
  | emptyCommand (last : Option Token)
  | unknownCommand (token : Token)
  | missingParameter (opener : Token) (expected : Parameter)
  | badNumber (token : Token) (expected : Numeral)
  | badChannel (token : Token)
  | badHex (token : Token) (fault : HexFault)
  | missingCount (opener : Token)
  | badCount (token : Token)
  /-- Nothing follows the count, which is the token at fault. -/
  | missingBracket (count : Token)
  | badBracket (token : Token)
  | nestingTooDeep (opener : Token)
  /-- The tape ended inside a block, begun by `opener`. -/
  | unterminated (opener : Token)
  | unmatchedEnd (token : Option Token)
  /-- A further word on the line of a finished command. -/
  | trailing (extra : Token) (command : Command)
  deriving DecidableEq

namespace ParseError

/-- What a channel should have been. -/
def channelText : String := "a color component between 0 and 255"

/-- The words that may begin a command, as a message lists them. -/
def commandList : String := ", ".intercalate (Keyword.commandWords.map (·.1))

/-- The token at which reading failed. -/
def token : ParseError → Option Token
  | emptyCommand last => last
  | unmatchedEnd token => token
  | unknownCommand t | badNumber t _ | badChannel t | badHex t _ | badCount t | badBracket t
  | missingParameter t _ | missingCount t | missingBracket t | nestingTooDeep t
  | unterminated t | trailing t _ => some t

def unreadable (token : Token) (expected : String) : String :=
  "unable to parse " ++ Text.quoted token.text ++ ". Expected " ++ expected ++ "."

/-- What went wrong, without the place. -/
def reason : ParseError → String
  | emptyCommand _ => "empty command"
  | unknownCommand token =>
    "invalid command: " ++ Text.quoted token.text ++ ". Expected one of: " ++ commandList
  | missingParameter opener expected =>
    s!"{opener.text} is missing a parameter. Expected: {opener.text} <{expected.text}>"
  | badNumber token expected => unreadable token expected.text
  | badChannel token => unreadable token channelText
  | badHex token fault => "invalid hex color " ++ Text.quoted token.text ++ ": " ++ fault.text
  | missingCount _ => "REPEAT: expected a count, found nothing"
  | badCount token => "REPEAT: expected a count, found " ++ Text.quoted token.text
  | missingBracket _ => "REPEAT: expected '[', found nothing"
  | badBracket token => "REPEAT: expected '[', found " ++ Text.quoted token.text
  | nestingTooDeep _ => s!"REPEAT blocks nested deeper than {deepestBlock} levels"
  | unterminated opener =>
    s!"REPEAT block opened on line {opener.lineNumber} is never closed with ']'"
  | unmatchedEnd _ => "']' without a matching REPEAT"
  | trailing extra command =>
    "unexpected " ++ Text.quoted extra.text ++ " after " ++ command.text

/-- The report: the reason, and where there is a token its line in front and below. -/
def message (e : ParseError) : String :=
  match e.token with
  | none => e.reason
  | some token => s!"line {token.lineNumber}: {e.reason}\n  {token.line}"

end ParseError

end Turtle
