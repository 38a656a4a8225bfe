/-! Why a text is no structured data, and where. A place is told by its offset in
characters, and by its line and column, which begin at one. -/

namespace Turtle.Json

/-- What is wrong at a place. -/
inductive Fault where
  | byteOrderMark
  | value
  | name
  | colon
  | comma
  | unterminated
  | control
  | escape
  | codeEscape
  | extra
  deriving DecidableEq, Repr

def Fault.text : Fault → String
  | byteOrderMark => "Unexpected UTF-8 BOM (decode using utf-8-sig)"
  | value => "Expecting value"
  | name => "Expecting property name enclosed in double quotes"
  | colon => "Expecting ':' delimiter"
  | comma => "Expecting ',' delimiter"
  | unterminated => "Unterminated string starting at"
  | control => "Invalid control character at"
  | escape => "Invalid \\escape"
  | codeEscape => "Invalid \\uXXXX escape"
  | extra => "Extra data"

/-- How a text fails to be read. -/
inductive Failure where
  | fault (fault : Fault) (offset : Nat)
  /-- An integer has more digits than will be converted. -/
  | digitLimit (digits : Nat)
  deriving DecidableEq, Repr

/-- The most digits an integer may have. -/
def mostDigits : Nat := 4300

def digitLimitText (digits : Nat) : String :=
  s!"Exceeds the limit ({mostDigits} digits) for integer string conversion: value has " ++
    s!"{digits} digits; use sys.set_int_max_str_digits() to increase the limit"

/-- The line and the column of an offset. -/
def lineColumn (text : List Char) (offset : Nat) : Nat × Nat :=
  let before := text.take offset
  let inLine := before.reverse.takeWhile (· != '\n')
  (before.count '\n' + 1, inLine.length + 1)

/-- A fault with its place in the text. -/
def Fault.located (fault : Fault) (offset : Nat) (text : List Char) : String :=
  let (line, column) := lineColumn text offset
  s!"{fault.text}: line {line} column {column} (char {offset})"

end Turtle.Json
