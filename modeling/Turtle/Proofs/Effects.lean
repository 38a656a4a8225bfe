import Turtle.Proofs.FileChange
import Turtle.Proofs.Job
import Turtle.Proofs.OutputOption

/-! What a run leaves behind. A disk is lawful if only a write changes files, and then only the
file that it is for; the disk of a tree is one. On a lawful disk a run that fails has
printed nothing and changed no file, as a document is complete before anything is done
with it, and its delivery is the last thing that can fail. -/

namespace Turtle.CommandLine

variable {σ ι : Type}

/-- The laws of a disk whose states have a view of their files, each at a place, and in which
paths lead to places. Opening a file may fail for any reason. Nothing is changed by reading,
and no file by a write that fails; a write that succeeds gives its content to the file
at the place of its path and to no other. -/
structure Disk.Lawful (disk : Disk (StateM σ)) (file? : σ → ι → Option (List UInt8))
    (place? : σ → String → Option ι) : Prop where
  reads_only : disk.ReadsOnly
  write_failed : ∀ path content s e, (disk.write path content s).1 = .error e →
    file? (disk.write path content s).2 = file? s
  write_done : ∀ path content s, (disk.write path content s).1 = .ok () →
    ∃ place, place? (disk.write path content s).2 path = some place ∧
      file? (disk.write path content s).2 place = some content ∧
      ∀ other, other ≠ place → file? (disk.write path content s).2 other = file? s other

theorem lawful_ofTree : Disk.ofTree.Lawful FileTree.content? FileTree.place? where
  reads_only _ _ := rfl
  write_failed _ _ _ _ := FileTree.content?_of_write_error
  write_done _ _ _ := FileTree.content?_of_write_ok

open Job

/-- The documents of a task are made before anything is done with them. -/
theorem run_render {disk : Disk (StateM σ)} (h : disk.ReadsOnly) {job : Invocation} (s : σ)
    (htask : job.task = .render) :
    ∃ lines, (perform disk job).run.run [] s =
      match (disk.contents s).outcome job with
      | .error e => ((.error e, lines), s)
      | .ok text => (deliver disk job.settings text).run.run lines s := by
  obtain ⟨first, hlog⟩ := comesTo_log job.settings .debug (fun _ => ["verbosity: DEBUG"]) (s := s) []
  obtain ⟨lines, hprepare⟩ := comesTo_prepare h job s first
  refine ⟨lines, ?_⟩
  rw [perform, run_bind, hlog]
  simp only [htask, Contents.outcome]
  rw [render_eq, run_bind, hprepare]
  cases (disk.contents s).drawing job with
  | error e => rfl
  | ok d => rfl

/-- A document that is to be written to a file fails with the writing, or prints nothing. -/
theorem run_deliver {settings : Settings} {path : String} (hout : settings.output = .value path)
    (disk : Disk (StateM σ)) (text : String) (lines : List String) (s : σ) :
    ∃ later, (deliver disk settings text).run.run lines s =
      ((match (disk.write path (Text.Utf8.encode text) s).1 with
        | .error e => .error (.file path e)
        | .ok () => .ok "", later), (disk.write path (Text.Utf8.encode text) s).2) := by
  have hrun : (liftM (disk.write path (Text.Utf8.encode text)) : Job (StateM σ) _).run.run lines s =
      ((.ok (disk.write path (Text.Utf8.encode text) s).1, lines),
        (disk.write path (Text.Utf8.encode text) s).2) := rfl
  unfold deliver
  rw [hout]
  dsimp only
  rw [run_bind, hrun]
  cases (disk.write path (Text.Utf8.encode text) s).1 with
  | error e => exact ⟨lines, rfl⟩
  | ok done =>
    obtain ⟨later, hlog⟩ := comesTo_log settings .info (fun _ => ["wrote " ++ path])
      (s := (disk.write path (Text.Utf8.encode text) s).2) lines
    refine ⟨later, ?_⟩
    dsimp only
    rw [run_bind, hlog]
    rfl

/-- The outcome of a job does not depend on where its output goes. -/
theorem outcome_printing (files : Contents) (job : Invocation) :
    files.outcome job.printing = files.outcome job := rfl

section
variable {disk : Disk (StateM σ)} (h : disk.ReadsOnly) {arguments : List String} {job : Invocation}
  (s : σ)
include h

/-- Without a file for its output a task prints what it would have written. -/
theorem run_printing {text : String} (hargs : Invocation.ofArguments arguments = .ok job.printing)
    (htext : (disk.contents s).outcome job = .ok text) :
    ∃ diagnostics, run disk arguments s = (⟨.status 0, text, diagnostics⟩, s) := by
  have hjob : (perform disk job.printing).ComesTo s _ := comesTo_perform h s fun _ => rfl
  rw [outcome_printing, htext] at hjob
  obtain ⟨lines, hrun⟩ := run_of_comesTo hargs hjob
  exact ⟨unlines lines, hrun⟩

/-- A job that comes to nothing is reported, wherever its output was to go. -/
theorem run_of_outcome_error {e : Failure} (hargs : Invocation.ofArguments arguments = .ok job)
    (he : (disk.contents s).outcome job = .error e) :
    ∃ lines, run disk arguments s = (reportOn (.error e) lines, s) := by
  by_cases htask : job.task = .render
  · obtain ⟨lines, hrun⟩ := run_render h s htask
    rw [run_accepted hargs, hrun, he]
    exact ⟨lines, rfl⟩
  · have hjob := comesTo_perform h s fun hrender => absurd hrender htask
    rw [he] at hjob
    exact run_of_comesTo hargs hjob

/-- A run that has no file for its output leaves the disk as it is. -/
theorem run_without_file (hargs : Invocation.ofArguments arguments = .ok job)
    (hout : ∀ path, job.task = .render → job.settings.output ≠ .value path) :
    ∃ result lines, run disk arguments s = (reportOn result lines, s) := by
  by_cases hprints : job.task = .render → job.settings.output = .unset
  · exact ⟨_, run_of_comesTo hargs (comesTo_perform h s hprints)⟩
  · obtain ⟨htask, hset⟩ := Classical.not_imp.mp hprints
    obtain ⟨lines, hrun⟩ := run_render h s htask
    rw [run_accepted hargs, hrun]
    cases (disk.contents s).outcome job with
    | error e => exact ⟨_, lines, rfl⟩
    | ok text =>
      dsimp only
      rw [deliver]
      cases houtput : job.settings.output with
      | unset => exact absurd houtput hset
      | value path => exact absurd houtput (hout path htask)
      | blank => exact ⟨.error .outputWithoutName, lines, rfl⟩

/-- A run that has a file for its output fails before it writes, or ends with the writing. -/
theorem run_with_file {path : String} (hargs : Invocation.ofArguments arguments = .ok job)
    (htask : job.task = .render) (hout : job.settings.output = .value path) :
    (∃ e lines, run disk arguments s = (reportOn (.error e) lines, s)) ∨
      ∃ text lines, (disk.contents s).outcome job = .ok text ∧
        run disk arguments s =
          (reportOn (match (disk.write path (Text.Utf8.encode text) s).1 with
            | .error e => .error (.file path e)
            | .ok () => .ok "") lines, (disk.write path (Text.Utf8.encode text) s).2) := by
  obtain ⟨lines, hrun⟩ := run_render h s htask
  rw [run_accepted hargs, hrun]
  cases houtcome : (disk.contents s).outcome job with
  | error e => exact .inl ⟨e, lines, rfl⟩
  | ok text =>
    obtain ⟨later, hdeliver⟩ := run_deliver hout disk text lines s
    refine .inr ⟨text, later, rfl, ?_⟩
    dsimp only
    rw [hdeliver]

end

/-- **A run changes nothing but its output.** A run that fails, with a report or at once, has printed
nothing and changed no file. A successful run with a file for its document prints nothing and
changes that file alone; the same command line without it prints what the file now holds. All
other successful runs leave the disk as it was. -/
theorem run_changes_only_its_output {disk : Disk (StateM σ)} {file? : σ → ι → Option (List UInt8)}
    {place? : σ → String → Option ι} (lawful : disk.Lawful file? place?)
    {arguments : List String} {job : Invocation}
    (h : Invocation.ofArguments arguments = .ok job) {s after : σ} {report : Report}
    (hrun : run disk arguments s = (report, after)) :
    (report.ending ≠ .status 0 → report.output = "" ∧ file? after = file? s) ∧
    (report.ending = .status 0 →
      (∀ path, job.task = .render → job.settings.output = .value path →
        report.output = "" ∧
        ∃ text place, place? after path = some place ∧
          file? after place = some (Text.Utf8.encode text) ∧
          (∀ other, other ≠ place → file? after other = file? s other) ∧
          (∃ fewer, fewer.Sublist arguments ∧ Invocation.ofArguments fewer = .ok job.printing) ∧
          ∀ fewer, Invocation.ofArguments fewer = .ok job.printing →
            ∃ diagnostics, run disk fewer s = (⟨.status 0, text, diagnostics⟩, s)) ∧
      ((job.task = .render → job.settings.output = .unset) → after = s)) := by
  have hreads := lawful.reads_only
  -- only a rendering with a file for its output comes to a write; all other runs keep the state
  by_cases hfile : ∃ path, job.task = .render ∧ job.settings.output = .value path
  · obtain ⟨path, htask, hout⟩ := hfile
    have hunset : ¬ (job.task = .render → job.settings.output = .unset) := by
      intro hprints
      rw [hout] at hprints
      cases hprints htask
    rcases run_with_file hreads s h htask hout with
      ⟨e, lines, hfailed⟩ | ⟨text, lines, houtcome, hwritten⟩
    · obtain ⟨rfl, rfl⟩ := Prod.mk.inj (hrun.symm.trans hfailed)
      exact ⟨fun _ => ⟨rfl, rfl⟩, fun hend => absurd hend e.ending_ne⟩
    · obtain ⟨rfl, rfl⟩ := Prod.mk.inj (hrun.symm.trans hwritten)
      cases hwrite : (disk.write path (Text.Utf8.encode text) s).1 with
      | error e =>
        refine ⟨fun _ => ⟨rfl, lawful.write_failed _ _ _ _ hwrite⟩, fun hend => ?_⟩
        exact absurd hend (Failure.ending_ne (.file path e))
      | ok done =>
        obtain ⟨place, hplace, hcontent, hothers⟩ := lawful.write_done _ _ _ hwrite
        refine ⟨fun hend => absurd rfl hend, fun _ => ⟨fun path' _ hout' => ?_,
          fun hprints => absurd hprints hunset⟩⟩
        obtain rfl : path = path' := by
          rw [hout] at hout'
          exact Setting.value.inj hout'
        exact ⟨rfl, text, place, hplace, hcontent, hothers, exists_ofArguments_printing h,
          fun fewer hfewer => run_printing hreads s hfewer houtcome⟩
  · have hnone : ∀ path, job.task = .render → job.settings.output ≠ .value path :=
      fun path htask hout => hfile ⟨path, htask, hout⟩
    obtain ⟨result, lines, hkept⟩ := run_without_file hreads s h hnone
    obtain ⟨rfl, rfl⟩ := Prod.mk.inj (hrun.symm.trans hkept)
    refine ⟨fun hend => ?_, fun _ => ⟨fun path htask hout => absurd hout (hnone path htask),
      fun _ => rfl⟩⟩
    cases result with
    | ok output => exact absurd rfl hend
    | error e => exact ⟨rfl, rfl⟩

/-- A directory with one program in it. -/
def oneProgram : FileTree := .directory [("p.logo", .file (Text.Utf8.encode "FORWARD 10\n"))]

/-- A picture is written to a new directory, and the same command line prints it without `-o`. A picture
of a missing program is not written, and every file is as it was. -/
theorem run_writes_picture :
    (∃ report after,
      run Disk.ofTree ["render", "p.logo", "-o", "out/p.svg"] oneProgram = (report, after) ∧
        report.output = "" ∧ ∃ text place, after.place? "out/p.svg" = some place ∧
          after.content? place = some (Text.Utf8.encode text) ∧
          ∃ diagnostics, run Disk.ofTree ["render", "p.logo"] oneProgram =
            (⟨.status 0, text, diagnostics⟩, oneProgram)) ∧
    ∃ report after,
      run Disk.ofTree ["render", "q.logo", "-o", "p.logo"] oneProgram = (report, after) ∧
        report.output = "" ∧ after.content? = oneProgram.content? := by
  constructor
  · have hjob : Invocation.ofArguments ["render", "p.logo", "-o", "out/p.svg"] =
        .ok ⟨.render, "p.logo", { Settings.initial with output := .value "out/p.svg" }⟩ := by
      rfl
    have hend : (runOnTree oneProgram ["render", "p.logo", "-o", "out/p.svg"]).1.ending =
        .status 0 := by
      decide +kernel
    rw [runOnTree] at hend
    rcases hrun : run Disk.ofTree ["render", "p.logo", "-o", "out/p.svg"] oneProgram with
      ⟨report, after⟩
    rw [hrun] at hend
    obtain ⟨houtput, text, place, hplace, hcontent, -, -, hprints⟩ :=
      ((run_changes_only_its_output lawful_ofTree hjob hrun).2 hend).1 _ rfl rfl
    exact ⟨report, after, rfl, houtput, text, place, hplace, hcontent,
      hprints ["render", "p.logo"] rfl⟩
  · have hjob : Invocation.ofArguments ["render", "q.logo", "-o", "p.logo"] =
        .ok ⟨.render, "q.logo", { Settings.initial with output := .value "p.logo" }⟩ := by
      rfl
    have hend : (runOnTree oneProgram ["render", "q.logo", "-o", "p.logo"]).1.ending ≠ .status 0 := by
      decide +kernel
    rw [runOnTree] at hend
    rcases hrun : run Disk.ofTree ["render", "q.logo", "-o", "p.logo"] oneProgram with ⟨report, after⟩
    rw [hrun] at hend
    obtain ⟨houtput, hcontents⟩ := (run_changes_only_its_output lawful_ofTree hjob hrun).1 hend
    exact ⟨report, after, rfl, houtput, hcontents⟩

end Turtle.CommandLine
