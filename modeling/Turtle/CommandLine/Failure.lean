import Turtle.Canvas.Description
import Turtle.FileTree
import Turtle.Parse.Error
import Turtle.Text.Utf8

/-! How a task fails, and what is reported of it. Most failures are reported and end with
the status two. The others are beyond what the program answers for; they end it at
once, and nothing is said but what went wrong. -/

namespace Turtle.CommandLine

inductive Failure where
  | parse (e : ParseError)
  | canvas (e : CanvasError)
  | file (path : String) (e : FileError)
  | encoding (fault : Text.Utf8.Fault)
  | run (e : RunError)
  /-- A width or a height was asked for without a value. -/
  | sizeWithoutValue
  /-- An output was asked for without a name. -/
  | outputWithoutName

/-- A failure that ends the program at once. -/
inductive Abort where
  | run (e : RunError)
  | numberTooLarge
  | digitLimit (digits : Nat)
  | nullCharacter
  | sizeWithoutValue
  | outputWithoutName
  deriving DecidableEq, Repr

def Abort.message : Abort → String
  | run e => e.message
  | numberTooLarge => CanvasError.numberTooLarge.message
  | digitLimit digits => (CanvasError.digitLimit digits).message
  | nullCharacter => "embedded null byte"
  | sizeWithoutValue => "'>' not supported between instances of 'list' and 'int'"
  | outputWithoutName => "expected str, bytes or os.PathLike object, not list"

/-- How the program ends: with a status, or at once. -/
inductive Ending where
  | status (code : Nat)
  | abort (cause : Abort)
  deriving DecidableEq, Repr

/-- Octets that are not encoded text, with the offsets of the first and the last. -/
def encodingText (fault : Text.Utf8.Fault) : String :=
  let place := match fault.octets with
    | [octet] =>
      "byte 0x" ++ String.ofList (Text.hexDigits 2 octet.toNat) ++ s!" in position {fault.start}"
    | octets => s!"bytes in position {fault.start}-{fault.start + octets.length - 1}"
  "'utf-8' codec can't decode " ++ place ++ ": " ++ fault.reason.text

/-- The ending of a failed task, and its report. -/
def Failure.ending : Failure → Ending × List String
  | parse e => (.status 2, ["Parse error: " ++ e.message])
  | canvas .numberTooLarge => (.abort .numberTooLarge, [])
  | canvas (.digitLimit digits) => (.abort (.digitLimit digits), [])
  | canvas e => (.status 2, ["Config error: " ++ e.message])
  | file _ .nullCharacter => (.abort .nullCharacter, [])
  | file path e => (.status 2, ["File error: " ++ e.message path])
  | encoding fault => (.status 2, ["File error: " ++ encodingText fault])
  | run e => (.abort (.run e), [])
  | sizeWithoutValue => (.abort .sizeWithoutValue, [])
  | outputWithoutName => (.abort .outputWithoutName, [])

end Turtle.CommandLine
