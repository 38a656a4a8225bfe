import Turtle.Text.Digit
import Turtle.Text.Quoted

/-! Options on a command line. An option has one or more spellings; a long one may be
shortened as long as it stays the only one meant. A value follows an equals sign, or
the letter of a short option, or stands by itself. Short options without values may
share one dash. Two dashes attached to an option leave it without a value. Everything
is decided by the spellings alone, before any option has an effect. -/

namespace Turtle.CommandLine

/-- What an option sets. -/
inductive Key where
  | help
  | verbose
  | output
  | config
  | width
  | height
  deriving DecidableEq, Repr

structure Form where
  key : Key
  spellings : List String
  takesValue : Bool
  deriving DecidableEq, Repr

/-- All spellings of an option, as messages name it. -/
def Form.label (form : Form) : String := "/".intercalate form.spellings

/-- What is wrong with a command line. -/
inductive Problem where
  | ambiguous (text : String) (candidates : List String)
  | unwantedValue (form : Form) (value : String)
  | missingValue (form : Form)
  | notNumber (form : Form) (value : String)
  | unknownCommand (name : String) (known : List String)
  | missingOperand (name : String)
  | unrecognized (texts : List String)
  deriving DecidableEq, Repr

def Problem.text : Problem → String
  | ambiguous text candidates =>
    "ambiguous option: " ++ text ++ " could match " ++ ", ".intercalate candidates
  | unwantedValue form value =>
    "argument " ++ form.label ++ ": ignored explicit argument " ++ Text.quoted value
  | missingValue form => "argument " ++ form.label ++ ": expected one argument"
  | notNumber form value =>
    "argument " ++ form.label ++ ": invalid float value: " ++ Text.quoted value
  | unknownCommand name known =>
    "argument cmd: invalid choice: " ++ Text.quoted name ++ " (choose from " ++
      ", ".intercalate (known.map Text.quoted) ++ ")"
  | missingOperand name => "the following arguments are required: " ++ name
  | unrecognized texts => "unrecognized arguments: " ++ " ".intercalate texts

/-- An option as it was recognized: the spelling meant, and the text attached to it in the
same argument, behind an equals sign or behind the letter of a short option. -/
structure Match where
  form : Form
  spelling : String
  attached : Option (List Char)
  deriving DecidableEq, Repr

/-- An argument by its form: an operand, the end of the options, or an option, which may
be one that is not known. -/
inductive Item where
  | operand (text : String)
  | separator
  | option (text : String) (found : Option Match)
  deriving DecidableEq, Repr

def Item.text : Item → String
  | operand text => text
  | separator => "--"
  | option text _ => text

/-- Every spelling of some options with the option it means. -/
def spellings (forms : List Form) : List (String × Form) :=
  forms.flatMap fun form => form.spellings.map fun spelling => (spelling, form)

/-- Cuts a text at its first equals sign, if it has one. -/
def splitEquals (text : List Char) : List Char × Option (List Char) :=
  match text.dropWhile (· != '=') with
  | [] => (text, none)
  | _ :: value => (text.takeWhile (· != '='), some value)

/-- Whether a text is a dash and a number without a power; a line feed may end it. -/
def isNegativeNumber (text : List Char) : Bool :=
  let isDigit (c : Char) := (Text.digitValue? c).isSome
  match text with
  | '-' :: rest =>
    let number := if rest.getLast? = some '\n' then rest.dropLast else rest
    match number.dropWhile isDigit with
    | [] => !number.isEmpty
    | '.' :: places => !places.isEmpty && places.all isDigit
    | _ => false
  | _ => false

/-- The options that an argument may shorten. -/
def candidates (forms : List Form) (text : List Char) : List Match :=
  match text with
  | '-' :: '-' :: _ =>
    let (name, attached) := splitEquals text
    (spellings forms).filterMap fun (spelling, form) =>
      if name.isPrefixOf spelling.toList then some ⟨form, spelling, attached⟩ else none
  | _ =>
    (spellings forms).filterMap fun (spelling, form) =>
      if spelling.toList = text.take 2 then some ⟨form, spelling, some (text.drop 2)⟩
      else none

/-- Classifies one argument by the options that are known. -/
def classify (forms : List Form) (text : String) : Except Problem Item :=
  let chars := text.toList
  if chars.head? ≠ some '-' then .ok (.operand text)
  else match (spellings forms).lookup text with
    | some form => .ok (.option text (some ⟨form, text, none⟩))
    | none =>
      if chars.length = 1 then .ok (.operand text)
      else
        let (name, attached) := splitEquals chars
        let exact := if attached.isNone then none
          else (spellings forms).lookup (String.ofList name)
        match exact with
        | some form => .ok (.option text (some ⟨form, String.ofList name, attached⟩))
        | none =>
          match candidates forms chars with
          | [found] => .ok (.option text (some found))
          | _ :: _ :: _ =>
            .error (.ambiguous text ((candidates forms chars).map (·.spelling)))
          | [] =>
            if isNegativeNumber chars || chars.contains ' ' then .ok (.operand text)
            else .ok (.option text none)

/-- Classifies arguments; two dashes end the options. -/
def classifyAll (forms : List Form) : List String → Except Problem (List Item)
  | [] => .ok []
  | "--" :: rest => .ok (.separator :: rest.map .operand)
  | text :: rest => do
    let item ← classify forms text
    return item :: (← classifyAll forms rest)

/-- The value of an option after its argument has been taken apart. -/
inductive Given where
  | nothing
  | value (text : String)
  /-- Two dashes stand where the value would be. -/
  | blank
  /-- The next argument is the value. -/
  | next
  deriving DecidableEq, Repr

/-- An option with a text attached to it. -/
def withValue (form : Form) (value : List Char) : Except Problem (Form × Given) :=
  let text := String.ofList value
  if !form.takesValue then .error (.unwantedValue form text)
  else .ok (form, if text = "--" then .blank else .value text)

/-- An option with nothing attached to it. -/
def alone (form : Form) : Form × Given := (form, if form.takesValue then .next else .nothing)

/-- Takes apart a short option and the text behind its letter: an option without a value
leaves the text to the options that its letters mean, up to one with a value, which
takes the rest. A letter that means no option is a value that nobody wants. -/
def unglue (forms : List Form) : List Char → Form → Except Problem (List (Form × Given))
  | [], form => .ok [alone form]
  | letter :: rest, form =>
    if form.takesValue then do return [← withValue form (letter :: rest)]
    else match (spellings forms).lookup (String.ofList ['-', letter]) with
      | none => .error (.unwantedValue form (String.ofList (letter :: rest)))
      | some inner => do return alone form :: (← unglue forms rest inner)

/-- Whether a spelling is a dash and a letter. -/
def isShort (spelling : String) : Bool := spelling.toList[1]? != some '-'

/-- The options that a recognized argument stands for. Behind a short option an equals sign
only parts the letters, so that `-v=v` means the same as `-vv`, unless nothing
follows it. -/
def given (forms : List Form) (found : Match) : Except Problem (List (Form × Given)) :=
  match found.attached with
  | none => .ok [alone found.form]
  | some text =>
    if isShort found.spelling && !text.isEmpty then unglue forms text found.form
    else do return [← withValue found.form text]

end Turtle.CommandLine
