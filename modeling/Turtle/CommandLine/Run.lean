import Turtle.CommandLine.Failure
import Turtle.CommandLine.Help
import Turtle.Command.Inspect
import Turtle.Cursor.Journal
import Turtle.Parse.Program

/-! Running a command line. All that is needed of the world is a disk to read and write
files on, so that the same run works on real files and on a tree of them. What a task
prints is complete before anything is printed or written. -/

namespace Turtle.CommandLine

/-- Files that can be read and written. -/
structure Disk (m : Type → Type) where
  read : String → m (Except FileError (List UInt8))
  write : String → List UInt8 → m (Except FileError Unit)

/-- The files of a tree. -/
def Disk.ofTree : Disk (StateM FileTree) where
  read path := fun tree => (tree.read path, tree)
  write path content := fun tree => tree.write path content

inductive Level where
  | info
  | debug
  deriving DecidableEq, Repr

def Level.name : Level → String
  | info => "INFO"
  | debug => "DEBUG"

/-- How often the log has to be asked for before it shows a level. -/
def Level.verbosity : Level → Nat
  | info => 2
  | debug => 3

def logLine (level : Level) (text : String) : String :=
  level.name ++ " logo_interpreter: " ++ text

/-- A task under way: it writes a log and may fail. -/
abbrev Job (m : Type → Type) := ExceptT Failure (StateT (List String) m)

section
variable {m : Type → Type} [Monad m]

/-- Logs lines, which are worked out only if they are shown. -/
def log (settings : Settings) (level : Level) (texts : Unit → List String) : Job m Unit :=
  if level.verbosity ≤ settings.verbosity then
    modify (· ++ (texts ()).map (logLine level))
  else pure ()

/-- The text of a file. -/
def readText (disk : Disk m) (path : String) : Job m (List Char) := do
  match ← disk.read path with
  | .error e => throw (.file path e)
  | .ok octets =>
    match Text.Utf8.decode octets with
    | .error fault => throw (.encoding fault)
    | .ok text => return Text.unifyNewlines text

def normalizedText (word digits : String) : String :=
  "normalized hex color " ++ word ++ " to 0x" ++ digits

def ParseNote.text : ParseNote → String
  | .normalized word digits => normalizedText word digits
  | .parsed lineNumber command => s!"line {lineNumber}: parsed {command.inspect}"

/-- What the log says of a description of a canvas. -/
def descriptionNotes (text : List Char) : List String :=
  match Json.read text with
  | .error _ => []
  | .ok v => (Description.hexWords v).map fun (word, digits) => normalizedText word digits

/-- The canvas of a description. An empty name means that there is none. -/
def describedCanvas (disk : Disk m) (settings : Settings) : Job m Canvas := do
  match settings.config with
  | none => return .standard
  | some path =>
    if path.isEmpty then return .standard
    else
      let text ← readText disk path
      log settings .debug fun _ => descriptionNotes text
      match Canvas.ofText path text with
      | .error e => throw (.canvas e)
      | .ok canvas => return canvas

/-- A length given on the command line in place of another. -/
def override (option : String) (described : Binary64) :
    Setting Binary64 → Except Failure Binary64
  | .unset => .ok described
  | .blank => .error .sizeWithoutValue
  | .value x => if x.isPositive then .ok x else .error (.canvas (.notPositive option))

/-- A canvas with the size that the command line asks for. -/
def resize (settings : Settings) (canvas : Canvas) : Except Failure Canvas := do
  let width ← override "--width" canvas.width settings.width
  let height ← override "--height" canvas.height settings.height
  return { canvas with width, height }

/-- The canvas that a command line asks for. -/
def canvasOf (disk : Disk m) (settings : Settings) : Job m Canvas := do
  match resize settings (← describedCanvas disk settings) with
  | .error failure => throw failure
  | .ok canvas => return canvas

/-- The program in a file. -/
def readProgram (disk : Disk m) (job : Invocation) : Job m (List Command) := do
  let text ← readText disk job.input
  let outcome := Parse.program (String.ofList text)
  log job.settings .debug fun _ => outcome.notes.map ParseNote.text
  match outcome.result with
  | .error e => throw (.parse e)
  | .ok program => return program

/-- Carries out a program on a canvas. -/
def draw (job : Invocation) (canvas : Canvas) (program : List Command) :
    Job m (List Figure × Cursor) := do
  log job.settings .debug fun _ =>
    (Cursor.journalAll program canvas.cursor).map JournalEntry.text
  match Cursor.applyAll program canvas.cursor with
  | .error e _ => throw (.run e)
  | .ok figures cursor => return (figures, cursor)

/-- Draws a program, and prints or writes the document. -/
def render (disk : Disk m) (job : Invocation) : Job m String := do
  let canvas ← canvasOf disk job.settings
  let program ← readProgram disk job
  log job.settings .info fun _ => [s!"parsed {program.length} commands"]
  let (figures, _) ← draw job canvas program
  let text := (canvas.document (some (Path.baseName job.input)) figures).text
  match job.settings.output with
  | .unset => return text
  | .blank => throw .outputWithoutName
  | .value path =>
    match ← disk.write path (Text.Utf8.encode text) with
    | .error e => throw (.file path e)
    | .ok () =>
      log job.settings .info fun _ => ["wrote " ++ path]
      return ""

/-- What is said of a valid program: its size, its strokes, and where it ends. -/
def summary (canvas : Canvas) (program : List Command) (figures : List Figure)
    (cursor : Cursor) : String :=
  let position := "x=" ++ cursor.position.x.compact canvas.places ++
    " y=" ++ cursor.position.y.compact canvas.places
  unlines [
    s!"commands: {program.length}",
    s!"line segments: {(Figure.segmentsAll figures).length}",
    "cursor: " ++ position ++ " heading=" ++ cursor.heading.name ++
      " pen=" ++ (if cursor.penDown then "down" else "up")]

/-- Draws a program without showing it. -/
def validate (disk : Disk m) (job : Invocation) : Job m String := do
  let canvas ← canvasOf disk job.settings
  let program ← readProgram disk job
  let (figures, cursor) ← draw job canvas program
  return summary canvas program figures cursor

/-- Prints a program in canonical form. -/
def format (disk : Disk m) (job : Invocation) : Job m String := do
  return programText (← readProgram disk job)

/-- Carries out a task and gives what it prints. -/
def perform (disk : Disk m) (job : Invocation) : Job m String := do
  log job.settings .debug fun _ => ["verbosity: DEBUG"]
  match job.task with
  | .render => render disk job
  | .validate => validate disk job
  | .format => format disk job

/-- How a run ended, what it printed, and what it reported beside. -/
structure Report where
  ending : Ending
  output : String
  diagnostics : String

/-- Runs a command line on a disk. -/
def run (disk : Disk m) (arguments : List String) : m Report := do
  match Invocation.ofArguments arguments with
  | .error (.help task) => return ⟨.status 0, helpText task, ""⟩
  | .error (.misuse task problem) => return ⟨.status 2, "", misuseText task problem⟩
  | .ok job =>
    let (result, lines) ← (perform disk job).run.run []
    match result with
    | .ok output => return ⟨.status 0, output, unlines lines⟩
    | .error failure =>
      let (ending, report) := failure.ending
      return ⟨ending, "", unlines (lines ++ report)⟩

end

/-- Runs a command line on a tree of files. -/
def runOnTree (tree : FileTree) (arguments : List String) : Report × FileTree :=
  run Disk.ofTree arguments tree

end Turtle.CommandLine
