import Turtle.CommandLine.Run
import Turtle.Picture
import Turtle.Proofs.Encoding

/-! Jobs as computations on files. Everything but the writing of a document only reads, so what
a job comes to depends on the files alone: neither on what has been logged before, nor on how
much is logged. `ComesTo` says so for one state of a disk, and each task has a result
that is computed from the contents of the files without any effects. -/

namespace Turtle.CommandLine

variable {σ α β : Type}

/-- What reading gives at every path. -/
abbrev Contents := String → Except FileError (List UInt8)

/-- The contents of a disk in a state. -/
def Disk.contents (disk : Disk (StateM σ)) (s : σ) : Contents := fun path => (disk.read path s).1

/-- Reading leaves the state of a disk as it is. -/
def Disk.ReadsOnly (disk : Disk (StateM σ)) : Prop := ∀ path s, (disk.read path s).2 = s

namespace Contents

/-- The text of a file. -/
def text (files : Contents) (path : String) : Except Failure (List Char) :=
  match files path with
  | .error e => .error (.file path e)
  | .ok octets =>
    match Text.Utf8.decode octets with
    | .error fault => .error (.encoding fault)
    | .ok text => .ok (Text.unifyNewlines text)

/-- A file with the octets of a text has that text. -/
theorem text_of_encode {files : Contents} {path text : String}
    (hread : files path = .ok (Text.Utf8.encode text)) (hreturn : '\r' ∉ text.toList) :
    files.text path = .ok text.toList := by
  rw [Contents.text, hread]
  dsimp only
  rw [Text.Utf8.decode_encode]
  dsimp only
  rw [Text.unifyNewlines_of_no_return hreturn]

/-- The canvas that settings describe, before its size is changed. -/
def described (files : Contents) (settings : Settings) : Except Failure Canvas :=
  match settings.config with
  | none => .ok .standard
  | some path =>
    if path.isEmpty then .ok .standard
    else do
      let text ← files.text path
      (Canvas.ofText path text).mapError .canvas

def canvas (files : Contents) (settings : Settings) : Except Failure Canvas := do
  resize settings (← files.described settings)

/-- Where nothing is said of a canvas, it is the standard one. -/
theorem canvas_initial (files : Contents) : files.canvas .initial = .ok .standard := by
  have hdescribed : files.described .initial = .ok .standard := rfl
  have hsize : ∀ canvas, resize .initial canvas = .ok canvas := fun _ => rfl
  rw [canvas, hdescribed]
  dsimp only [bind, Except.bind]
  exact hsize .standard

/-- A command line with a description resizes the described canvas. -/
theorem canvas_of_description {files : Contents} {settings : Settings} {path : String}
    {text : List Char} {v : Json.Value}
    (hconfig : settings.config = some path) (hpath : path ≠ "") (htext : files.text path = .ok text)
    (hread : Json.read text = .ok v) :
    files.canvas settings = (do resize settings (← (Canvas.ofValue v).mapError .canvas)) := by
  have hempty : path.isEmpty = false := by simpa using hpath
  have hof : Canvas.ofText path text = Canvas.ofValue v := by rw [Canvas.ofText, hread]
  rw [Contents.canvas, Contents.described, hconfig]
  dsimp only
  rw [hempty, if_neg Bool.false_ne_true, htext, ← hof]
  rfl

def program (files : Contents) (path : String) : Except Failure (List Command) := do
  let text ← files.text path
  (Parse.program? (String.ofList text)).mapError .parse

/-- A canvas, a program, and what the program draws on it. -/
structure Drawing where
  canvas : Canvas
  program : List Command
  figures : List Figure
  cursor : Cursor

/-- What a program draws on a canvas, and the cursor that it leaves. -/
def drawn (canvas : Canvas) (program : List Command) : Except Failure (List Figure × Cursor) :=
  match Cursor.applyAll program canvas.cursor with
  | .error e _ => .error (.run e)
  | .ok figures cursor => .ok (figures, cursor)

/-- The drawing that a command line asks for. -/
def drawing (files : Contents) (job : Invocation) : Except Failure Drawing := do
  let canvas ← files.canvas job.settings
  let program ← files.program job.input
  let (figures, cursor) ← drawn canvas program
  return ⟨canvas, program, figures, cursor⟩

theorem map_drawing {α : Type} (files : Contents) (job : Invocation) (use : Drawing → α) :
    (files.drawing job).map use = do
      let canvas ← files.canvas job.settings
      let program ← files.program job.input
      let found ← drawn canvas program
      return use ⟨canvas, program, found.1, found.2⟩ := by
  rw [drawing]
  cases files.canvas job.settings with
  | error e => rfl
  | ok canvas =>
    cases files.program job.input with
    | error e => rfl
    | ok program =>
      simp only [bind, Except.bind]
      cases drawn canvas program with
      | error e => rfl
      | ok found => rfl

end Contents

/-- The document of a drawing; its title is the name of the program's file. -/
def Invocation.document (job : Invocation) (d : Contents.Drawing) : String :=
  (d.canvas.document (some (Path.baseName job.input)) d.figures).text

/-- A directory with an empty program and a description for its canvas. -/
def describedTree (text : String) : FileTree :=
  .directory [("p.logo", .file []), ("c.json", .file (Text.Utf8.encode text))]

theorem text_describedTree {text : String} (hreturn : '\r' ∉ text.toList) :
    (Disk.ofTree.contents (describedTree text)).text "c.json" = .ok text.toList :=
  Contents.text_of_encode rfl hreturn

/-- On a state, a job comes to a result whatever has been logged, and leaves the state. -/
def Job.ComesTo (work : Job (StateM σ) α) (s : σ) (result : Except Failure α) : Prop :=
  ∀ lines, ∃ later, work.run.run lines s = ((result, later), s)

namespace Job

variable {s : σ}

theorem ComesTo.congr {work : Job (StateM σ) α} {first second : Except Failure α}
    (h : work.ComesTo s first) (heq : first = second) : work.ComesTo s second := heq ▸ h

theorem comesTo_pure (a : α) : ComesTo (pure a : Job (StateM σ) α) s (.ok a) :=
  fun lines => ⟨lines, rfl⟩

theorem comesTo_throw (e : Failure) : ComesTo (throw e : Job (StateM σ) α) s (.error e) :=
  fun lines => ⟨lines, rfl⟩

theorem comesTo_log (settings : Settings) (level : Level) (texts : Unit → List String) :
    ComesTo (log settings level texts : Job (StateM σ) Unit) s (.ok ()) := by
  intro lines
  unfold log
  split
  · exact ⟨_, rfl⟩
  · exact ⟨_, rfl⟩

/-- A job after another goes on where that one has stopped, unless that one has failed. -/
theorem run_bind (work : Job (StateM σ) α) (next : α → Job (StateM σ) β)
    (lines : List String) (s : σ) :
    (work >>= next).run.run lines s =
      match work.run.run lines s with
      | ((.ok a, later), t) => (next a).run.run later t
      | ((.error e, later), t) => ((.error e, later), t) := by
  rw [ExceptT.run_bind, StateT.run_bind]
  change StateT.bind (work.run.run lines) _ s = _
  simp only [StateT.bind, bind, Id]
  obtain ⟨⟨_ | a, later⟩, t⟩ := work.run.run lines s
  · rfl
  · rfl

/-- What follows a job that has come to a value starts on the same state. -/
theorem ComesTo.bind_ok {work : Job (StateM σ) α} {next : α → Job (StateM σ) β} {a : α}
    {result : Except Failure β} (h : work.ComesTo s (.ok a)) (hnext : (next a).ComesTo s result) :
    (work >>= next).ComesTo s result := by
  intro lines
  obtain ⟨later, hrun⟩ := h lines
  rw [run_bind, hrun]
  exact hnext later

theorem ComesTo.bind {work : Job (StateM σ) α} {next : α → Job (StateM σ) β}
    {result : Except Failure α} {rest : α → Except Failure β} (h : work.ComesTo s result)
    (hnext : ∀ a, (next a).ComesTo s (rest a)) :
    (work >>= next).ComesTo s (result >>= rest) := by
  cases result with
  | ok a => exact h.bind_ok (hnext a)
  | error e =>
    intro lines
    obtain ⟨later, hrun⟩ := h lines
    rw [run_bind, hrun]
    exact ⟨later, rfl⟩

end Job

open Job

section
variable {disk : Disk (StateM σ)} {s : σ} (h : disk.ReadsOnly)
include h

theorem comesTo_read (path : String) :
    ComesTo (liftM (disk.read path) : Job (StateM σ) _) s (.ok (disk.contents s path)) := by
  intro lines
  refine ⟨lines, ?_⟩
  change ((Except.ok (disk.read path s).1, lines), (disk.read path s).2) = _
  rw [h path s]
  rfl

theorem comesTo_readText (path : String) :
    ComesTo (readText disk path) s ((disk.contents s).text path) := by
  refine (comesTo_read h path).bind_ok ?_
  rw [Contents.text]
  cases disk.contents s path with
  | error e => exact comesTo_throw _
  | ok octets =>
    dsimp only
    cases Text.Utf8.decode octets with
    | error fault => exact comesTo_throw _
    | ok text => exact comesTo_pure _

theorem comesTo_describedCanvas (settings : Settings) :
    ComesTo (describedCanvas disk settings) s ((disk.contents s).described settings) := by
  unfold describedCanvas Contents.described
  cases settings.config with
  | none => exact comesTo_pure _
  | some path =>
    dsimp only
    split
    · exact comesTo_pure _
    · refine (comesTo_readText h path).bind fun text => ?_
      refine (comesTo_log _ _ _).bind_ok ?_
      cases Canvas.ofText path text with
      | error e => exact comesTo_throw _
      | ok canvas => exact comesTo_pure _

theorem comesTo_canvasOf (settings : Settings) :
    ComesTo (canvasOf disk settings) s ((disk.contents s).canvas settings) := by
  refine (comesTo_describedCanvas h settings).bind fun described => ?_
  cases resize settings described with
  | error failure => exact comesTo_throw _
  | ok canvas => exact comesTo_pure _

theorem comesTo_readProgram (job : Invocation) :
    ComesTo (readProgram disk job) s ((disk.contents s).program job.input) := by
  refine (comesTo_readText h job.input).bind fun text => ?_
  refine (comesTo_log _ _ _).bind_ok ?_
  unfold Parse.program?
  cases (Parse.program (String.ofList text)).result with
  | error e => exact comesTo_throw _
  | ok program => exact comesTo_pure _

omit h in
theorem comesTo_draw (job : Invocation) (canvas : Canvas) (program : List Command) :
    ComesTo (draw job canvas program : Job (StateM σ) _) s
      (Contents.drawn canvas program) := by
  refine (comesTo_log _ _ _).bind_ok ?_
  unfold Contents.drawn
  cases Cursor.applyAll program canvas.cursor with
  | error e left => exact comesTo_throw _
  | ok figures cursor => exact comesTo_pure _

/-- To summarize a drawing is all that is left when it has been made. -/
theorem comesTo_validate (job : Invocation) :
    ComesTo (validate disk job) s
      (((disk.contents s).drawing job).map fun d =>
        summary d.canvas d.program d.figures d.cursor) := by
  have hrun : ComesTo (validate disk job) s _ :=
    (comesTo_canvasOf h job.settings).bind fun canvas =>
      (comesTo_readProgram h job).bind fun program =>
        (comesTo_draw job canvas program).bind fun drawn =>
          comesTo_pure (summary canvas program drawn.1 drawn.2)
  exact hrun.congr (Contents.map_drawing _ job fun d => summary d.canvas d.program d.figures
    d.cursor).symm

theorem comesTo_format (job : Invocation) :
    ComesTo (format disk job) s (((disk.contents s).program job.input).map programText) := by
  have hrun : ComesTo (format disk job) s _ :=
    (comesTo_readProgram h job).bind fun program => comesTo_pure (programText program)
  refine hrun.congr ?_
  cases (disk.contents s).program job.input with
  | error e => rfl
  | ok program => rfl

end

section
variable {m : Type → Type} [Monad m]

/-- What is done with a document: it is printed, or it is written to a file. -/
def deliver (disk : Disk m) (settings : Settings) (document : String) : Job m String :=
  match settings.output with
  | .unset => return document
  | .blank => throw .outputWithoutName
  | .value path => do
    match ← disk.write path (Text.Utf8.encode document) with
    | .error e => throw (.file path e)
    | .ok () =>
      log settings .info fun _ => ["wrote " ++ path]
      return ""

/-- The part of drawing a document that comes before its delivery. -/
def prepare (disk : Disk m) (job : Invocation) : Job m String := do
  let canvas ← canvasOf disk job.settings
  let program ← readProgram disk job
  log job.settings .info fun _ => [s!"parsed {program.length} commands"]
  let (figures, cursor) ← draw job canvas program
  return job.document ⟨canvas, program, figures, cursor⟩

theorem render_eq [LawfulMonad m] (disk : Disk m) (job : Invocation) :
    render disk job = prepare disk job >>= deliver disk job.settings := by
  simp only [render, prepare, bind_assoc, pure_bind]
  rfl

end

theorem comesTo_prepare {disk : Disk (StateM σ)} (h : disk.ReadsOnly) (job : Invocation) (s : σ) :
    ComesTo (prepare disk job) s (((disk.contents s).drawing job).map job.document) := by
  have hrun : ComesTo (prepare disk job) s _ :=
    (comesTo_canvasOf h job.settings).bind fun canvas =>
      (comesTo_readProgram h job).bind fun program =>
        (comesTo_log job.settings .info _).bind_ok <|
          (comesTo_draw job canvas program).bind fun drawn =>
            comesTo_pure (job.document ⟨canvas, program, drawn.1, drawn.2⟩)
  exact hrun.congr (Contents.map_drawing _ job job.document).symm

/-- What a job prints, unless it has a file for it: a document, a summary or canonical text. -/
def Contents.outcome (files : Contents) (job : Invocation) : Except Failure String :=
  match job.task with
  | .render => (files.drawing job).map job.document
  | .validate => (files.drawing job).map fun d => summary d.canvas d.program d.figures d.cursor
  | .format => (files.program job.input).map programText

/-- A job that has no file for its output reads and prints. -/
theorem comesTo_perform {disk : Disk (StateM σ)} (h : disk.ReadsOnly) {job : Invocation} (s : σ)
    (hout : job.task = .render → job.settings.output = .unset) :
    (perform disk job).ComesTo s ((disk.contents s).outcome job) := by
  refine (comesTo_log _ _ _).bind_ok ?_
  unfold Contents.outcome
  cases htask : job.task with
  | render =>
    dsimp only
    have hdeliver : ∀ text, (deliver disk job.settings text).ComesTo s (.ok text) := by
      intro text
      rw [deliver, hout htask]
      exact comesTo_pure text
    rw [render_eq]
    refine ((comesTo_prepare h job s).bind hdeliver).congr ?_
    cases (disk.contents s).drawing job with
    | error e => rfl
    | ok d => rfl
  | validate => exact comesTo_validate h job
  | format => exact comesTo_format h job

/-- The report on a job by what it came to and what it logged. -/
def reportOn : Except Failure String → List String → Report
  | .ok output, lines => ⟨.status 0, output, unlines lines⟩
  | .error failure, lines => ⟨failure.ending.1, "", unlines (lines ++ failure.ending.2)⟩

/-- A failure never ends like a success. -/
theorem Failure.ending_ne (failure : Failure) : failure.ending.1 ≠ .status 0 := by
  unfold Failure.ending
  split <;> simp

/-- The run of a command line that is understood is the run of its job. -/
theorem run_accepted {arguments : List String} {job : Invocation}
    (h : Invocation.ofArguments arguments = .ok job) (disk : Disk (StateM σ)) (s : σ) :
    run disk arguments s =
      match (perform disk job).run.run [] s with
      | ((result, lines), after) => (reportOn result lines, after) := by
  rw [run, h]
  change StateT.bind ((perform disk job).run.run []) _ s = _
  simp only [StateT.bind, bind, Id]
  obtain ⟨⟨_ | output, lines⟩, after⟩ := (perform disk job).run.run [] s
  · rfl
  · rfl

theorem run_of_comesTo {arguments : List String} {job : Invocation} {disk : Disk (StateM σ)} {s : σ}
    {result : Except Failure String} (h : Invocation.ofArguments arguments = .ok job)
    (hjob : (perform disk job).ComesTo s result) :
    ∃ lines, run disk arguments s = (reportOn result lines, s) := by
  obtain ⟨lines, hrun⟩ := hjob []
  refine ⟨lines, ?_⟩
  rw [run_accepted h, hrun]

end Turtle.CommandLine
