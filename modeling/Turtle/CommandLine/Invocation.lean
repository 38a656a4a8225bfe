import Turtle.Binary64.Decimal
import Turtle.CommandLine.Option

/-! What a command line asks for. The options of the whole program come before the name
of a task, and everything from that name on belongs to the task. Options take effect
from left to right, so a request for help or a malformed value ends the reading there. -/

namespace Turtle.CommandLine

/-- What the program can be asked to do. -/
inductive Task where
  | render
  | validate
  | format
  deriving DecidableEq, Repr

def Task.all : List Task := [.render, .validate, .format]

def Task.name : Task → String
  | .render => "render"
  | .validate => "validate"
  | .format => "format"

def Task.ofName? (name : String) : Option Task := Task.all.find? (·.name == name)

/-- A setting that an option may have given. -/
inductive Setting (α : Type) where
  | unset
  /-- The option was given, but without a value. -/
  | blank
  | value (a : α)
  deriving DecidableEq, Repr

structure Settings where
  verbosity : Nat
  output : Setting String
  /-- The file that describes the canvas. -/
  config : Option String
  width : Setting Binary64
  height : Setting Binary64

def Settings.initial : Settings := ⟨0, .unset, none, .unset, .unset⟩

/-- A task with the file it is about. -/
structure Invocation where
  task : Task
  input : String
  settings : Settings

/-- Why a command line asks for nothing: it wants help on a task or on the whole, or the
whole or a task cannot make sense of it. -/
inductive Refusal where
  | help (task : Option Task)
  | misuse (task : Option Task) (problem : Problem)

def helpForm : Form := ⟨.help, ["-h", "--help"], false⟩

/-- The options of the whole program. -/
def programForms : List Form := [helpForm, ⟨.verbose, ["-v", "--verbose"], false⟩]

/-- The options that describe the canvas. -/
def canvasForms : List Form := [
  ⟨.config, ["--config"], true⟩, ⟨.width, ["--width"], true⟩, ⟨.height, ["--height"], true⟩]

/-- The options of a task. -/
def Task.forms : Task → List Form
  | .render => helpForm :: ⟨.output, ["-o", "--output"], true⟩ :: canvasForms
  | .validate => helpForm :: canvasForms
  | .format => [helpForm]

/-- The options of a task, or of the whole program. -/
def formsOf : Option Task → List Form
  | none => programForms
  | some task => task.forms

/-- How far the operand of a command line has been read. -/
inductive Operand where
  | missing
  /-- The argument before was the operand. -/
  | justRead
  | read
  deriving DecidableEq, Repr

/-- One argument later the operand is no longer the argument before. -/
def Operand.later : Operand → Operand
  | justRead => read
  | place => place

/-- What arguments amount to: settings, the operand with what belongs to it, and what is
not recognized. -/
structure Found where
  settings : Settings
  operand : List String
  extras : List String

/-- The number that an option gives. -/
def numberOf (task : Option Task) (form : Form) :
    Option String → Except Refusal (Setting Binary64)
  | none => .ok .blank
  | some text =>
    match Binary64.read? text with
    | some x => .ok (.value x)
    | none => .error (.misuse task (.notNumber form text))

/-- The effect of an option, with its value if it has one. Without a value the name of a
description is taken back. -/
def effect (task : Option Task) (settings : Settings) (form : Form) (text : Option String) :
    Except Refusal Settings :=
  match form.key with
  | .help => .error (.help task)
  | .verbose => .ok { settings with verbosity := settings.verbosity + 1 }
  | .output => .ok { settings with output := text.elim .blank .value }
  | .config => .ok { settings with config := text }
  | .width => do return { settings with width := ← numberOf task form text }
  | .height => do return { settings with height := ← numberOf task form text }

/-- The effects of options in order. One that takes the next argument as its value is
left for that argument. -/
def effects (task : Option Task) (settings : Settings) :
    List (Form × Given) → Except Refusal (Settings × Option Form)
  | [] => .ok (settings, none)
  | (form, .next) :: _ => .ok (settings, some form)
  | (form, .value text) :: rest => do
    effects task (← effect task settings form (some text)) rest
  | (form, _) :: rest => do effects task (← effect task settings form none) rest

def Problem.refuse {α : Type} (task : Option Task) : Except Problem α → Except Refusal α
  | .ok a => .ok a
  | .error problem => .error (.misuse task problem)

/-- An option that takes the next argument as its value needs an operand there. -/
def requireNext (task : Option Task) (given : List (Form × Given)) (rest : List Item) :
    Except Refusal Unit :=
  match given.getLast?, rest with
  | some (_, .next), .operand _ :: _ => .ok ()
  | some (form, .next), _ => .error (.misuse task (.missingValue form))
  | _, _ => .ok ()

def Found.withExtra (text : String) (found : Found) : Found :=
  { found with extras := text :: found.extras }

/-- Follows arguments from left to right. The operand of the whole program takes all
arguments after it along; that of a task is one argument, and the end of the options
directly before or behind it is dropped. -/
def follow (task : Option Task) :
    Option Form → Operand → Settings → List Item → Except Refusal Found
  | _, _, settings, [] => .ok ⟨settings, [], []⟩
  | some form, place, settings, item :: rest => do
    follow task none place.later (← effect task settings form (some item.text)) rest
  | none, .missing, settings, .operand text :: rest =>
    if task.isNone then .ok ⟨settings, text :: rest.map Item.text, []⟩
    else do
      let found ← follow task none .justRead settings rest
      return { found with operand := [text] }
  | none, place, settings, .operand text :: rest => do
    return (← follow task none place.later settings rest).withExtra text
  | none, .justRead, settings, .separator :: rest => follow task none .read settings rest
  | none, .missing, settings, .separator :: .operand text :: rest =>
    if task.isNone then .ok ⟨settings, "--" :: text :: rest.map Item.text, []⟩
    else follow task none .missing settings (.operand text :: rest)
  | none, place, settings, .separator :: rest => do
    return (← follow task none place settings rest).withExtra "--"
  | none, place, settings, .option text none :: rest => do
    return (← follow task none place.later settings rest).withExtra text
  | none, place, settings, .option _ (some option) :: rest => do
    let given ← Problem.refuse task (given (formsOf task) option)
    requireNext task given rest
    let (settings, waiting) ← effects task settings given
    follow task waiting place.later settings rest

/-- Reads arguments by the options of a task, or of the whole program. -/
def readArguments (task : Option Task) (settings : Settings) (arguments : List String) :
    Except Refusal Found := do
  let items ← Problem.refuse task (classifyAll (formsOf task) arguments)
  follow task none .missing settings items

/-- What a command line asks for. Arguments that nothing recognizes are refused last, those
before the name of the task first among them. -/
def Invocation.ofArguments (arguments : List String) : Except Refusal Invocation := do
  let whole ← readArguments none .initial arguments
  match whole.operand with
  | [] => throw (.misuse none (.missingOperand "cmd"))
  | name :: arguments =>
    match Task.ofName? name with
    | none => throw (.misuse none (.unknownCommand name (Task.all.map Task.name)))
    | some task =>
      let found ← readArguments (some task) whole.settings arguments
      match found.operand with
      | [] => throw (.misuse task (.missingOperand "input"))
      | input :: _ =>
        let extras := whole.extras ++ found.extras
        if extras.isEmpty then return ⟨task, input, found.settings⟩
        else throw (.misuse none (.unrecognized extras))

end Turtle.CommandLine
