import Turtle.Proofs.Execution
import Turtle.Proofs.Job
import Turtle.Proofs.Markup
import Turtle.Picture

/-! The strokes of a program. A flat run draws one segment for each move with the pen down, and a
run draws what the flat run of its unrolled form draws, so the moves with the pen down can
be counted without running anything. A picture has one element for each of them, and a
summary gives their number. -/

namespace Turtle
open Command

/-- How many moves single commands make while the pen is down. -/
def movesPenDown : Bool → List Command → Nat
  | _, [] => 0
  | down, .forward _ :: rest => down.toNat + movesPenDown down rest
  | _, .pen down :: rest => movesPenDown down rest
  | down, _ :: rest => movesPenDown down rest

/-- A flat run that nothing stops draws once for each move with the pen down. -/
theorem length_drawn {flat : List Command} {cursor : Cursor}
    (hflat : ∀ command ∈ flat, command.isBlock = false) (h : (flatRun flat cursor).fault = none) :
    (flatRun flat cursor).drawn.length = movesPenDown cursor.penDown flat := by
  -- a command may lift or lower the pen, so the rest is taken from whatever cursor it leaves
  induction flat generalizing cursor with
  | nil => rfl
  | cons command rest ih =>
    have hrest : ∀ left, (flatRun rest left).fault = none →
        (flatRun rest left).drawn.length = movesPenDown left.penDown rest :=
      fun left => ih fun c hc => hflat c (List.mem_cons_of_mem _ hc)
    rw [flatRun] at h ⊢
    cases command with
    | forward distance =>
      rw [Cursor.apply, Cursor.forward] at h ⊢
      cases hstep : Cursor.displacement? cursor.heading distance with
      | none =>
        rw [hstep] at h
        cases h
      | some step =>
        rw [hstep] at h
        rw [movesPenDown]
        have hdrawn := hrest _ h
        refine List.length_append.trans ?_
        rw [hdrawn]
        cases cursor.penDown <;> rfl
    | turn | pen | setSize | setColor =>
      rw [Cursor.apply] at h ⊢
      exact hrest _ h
    | block count body => cases hflat _ List.mem_cons_self
    | blockEnd =>
      rw [Cursor.apply] at h
      cases h

/-- A run draws once for each move with the pen down of its unrolled form. -/
theorem length_segmentsAll {program : List Command} {cursor left : Cursor} {figures : List Figure}
    (h : Cursor.applyAll program cursor = .ok figures left) :
    (Figure.segmentsAll figures).length = movesPenDown cursor.penDown (unroll program) := by
  have hrun := mirrors_unroll program cursor
  simp only [h, Matches] at hrun
  have hflat : ∀ command ∈ unroll program, command.isBlock = false :=
    fun command hc => (mem_partsAll_of_mem_unroll program hc).2
  have hfault : (flatRun (unroll program) cursor).fault = none := by rw [hrun]
  have hlength := length_drawn hflat hfault
  rw [hrun] at hlength
  exact hlength

/-- What a summary says of the strokes. -/
theorem summary_eq (canvas : Canvas) (program : List Command) (figures : List Figure)
    (cursor : Cursor) : ∃ first last, CommandLine.summary canvas program figures cursor =
      CommandLine.unlines [first, s!"line segments: {(Figure.segmentsAll figures).length}", last] :=
  ⟨_, _, rfl⟩

open CommandLine in
/-- To validate an accepted program that runs on the canvas of a command line prints its summary. -/
theorem run_validate {σ : Type} {disk : Disk (StateM σ)} (hreads : disk.ReadsOnly) (s : σ)
    {arguments : List String} {job : Invocation} {canvas : Canvas} {text : String}
    {program : List Command} {figures : List Figure} {left : Cursor}
    (hargs : Invocation.ofArguments arguments = .ok job) (htask : job.task = .validate)
    (hcanvas : (disk.contents s).canvas job.settings = .ok canvas)
    (htext : (disk.contents s).text job.input = .ok text.toList)
    (hparse : Parse.program? text = .ok program)
    (hrun : Cursor.applyAll program canvas.cursor = .ok figures left) :
    ∃ diagnostics, run disk arguments s =
      (⟨.status 0, summary canvas program figures left, diagnostics⟩, s) := by
  have hprogram : (disk.contents s).program job.input = .ok program := by
    rw [Contents.program, htext]
    dsimp only [bind, Except.bind]
    rw [String.ofList_toList, hparse]
    rfl
  have hdrawing : (disk.contents s).drawing job = .ok ⟨canvas, program, figures, left⟩ := by
    rw [Contents.drawing, hcanvas, hprogram]
    dsimp only [bind, Except.bind]
    rw [Contents.drawn, hrun]
    rfl
  have houtcome : (disk.contents s).outcome job = .ok (summary canvas program figures left) := by
    rw [Contents.outcome, htask, hdrawing]
    rfl
  have hprints : job.task = .render → job.settings.output = .unset := by
    intro hrender
    rw [htask] at hrender
    cases hrender
  obtain ⟨lines, hreport⟩ := run_of_comesTo hargs (comesTo_perform hreads s hprints)
  rw [houtcome] at hreport
  exact ⟨unlines lines, hreport⟩

open Svg CommandLine in
/-- **A picture shows what is counted.** An accepted program draws one segment for each move with
the pen down. On every canvas and under every title its picture is a document in which
elements of lines begin as often as there are segments, in their order and with their texts,
after the one background. The summary gives their number, and it is what validating the program
on that canvas prints. -/
theorem picture_shows_every_stroke {text : String} {program : List Command}
    (h : Parse.program? text = .ok program) (canvas : Canvas) :
    ∃ figures left, Cursor.applyAll program canvas.cursor = .ok figures left ∧
      (Figure.segmentsAll figures).length = movesPenDown true (unroll program) ∧
      (∀ title, ∃ document rect, Picture.render canvas title text = .ok document ∧
        (offsets "<line".toList document.toList).length = movesPenDown true (unroll program) ∧
        (offsets "<line".toList document.toList).map (elementAt document.toList) =
          (Figure.segmentsAll figures).map
            (fun segment => ((Element.stroke segment).text canvas.places).toList) ∧
        offsets "<rect".toList document.toList = [rect] ∧
        ∀ line ∈ offsets "<line".toList document.toList, rect < line) ∧
      (∃ first last, summary canvas program figures left = unlines
        [first, s!"line segments: {movesPenDown true (unroll program)}", last]) ∧
      ∀ {σ : Type} {disk : Disk (StateM σ)} {arguments : List String} {job : Invocation} (s : σ),
        disk.ReadsOnly → Invocation.ofArguments arguments = .ok job → job.task = .validate →
        (disk.contents s).canvas job.settings = .ok canvas →
        (disk.contents s).text job.input = .ok text.toList →
        ∃ diagnostics, run disk arguments s =
          (⟨.status 0, summary canvas program figures left, diagnostics⟩, s) := by
  have hw : WellFormed program := (Parse.program?_eq_ok.mp h).wellFormed
  obtain ⟨figures, left, hrun, -, -⟩ := applyAll_of_wellFormed hw canvas.cursor
  have hcount : (Figure.segmentsAll figures).length = movesPenDown true (unroll program) :=
    length_segmentsAll hrun
  refine ⟨figures, left, hrun, hcount, fun title => ?_, ?_, ?_⟩
  · have hrender := Picture.render_of_run h hrun title
    obtain ⟨rect, hrect, hbefore, hlines⟩ :=
      Document.offsets_of_drawing (d := canvas.document title figures) rfl
    refine ⟨_, rect, hrender, ?_, hlines, hrect, hbefore⟩
    rw [← List.length_map, hlines, Document.strokeTexts, List.length_map, hcount]
  · rw [← hcount]
    exact summary_eq canvas program figures left
  · intro σ disk arguments job s hreads hargs htask hcanvas htext
    exact run_validate hreads s hargs htask hcanvas htext h hrun

/-- A directory with a program that draws three strokes. -/
def threeStrokes : FileTree :=
  .directory [("p.logo", .file (Text.Utf8.encode "REPEAT 3 [ F 5 U F 5 D ]"))]

open Svg CommandLine in
/-- Three strokes and three moves without one, under a title that looks like elements. -/
theorem picture_shows_every_stroke_repeated :
    Parse.program? "REPEAT 3 [ F 5 U F 5 D ]" =
        .ok [.block 3 [.forward 5, .pen false, .forward 5, .pen true]] ∧
      (∃ document rect, Picture.render Canvas.standard (some "<rect <line") "REPEAT 3 [ F 5 U F 5 D ]" =
          .ok document ∧ (offsets "<line".toList document.toList).length = 3 ∧
        offsets "<rect".toList document.toList = [rect]) ∧
      ∃ first last diagnostics, run Disk.ofTree ["validate", "p.logo"] threeStrokes =
        (⟨.status 0, unlines [first, "line segments: 3", last], diagnostics⟩, threeStrokes) := by
  have h : Parse.program? "REPEAT 3 [ F 5 U F 5 D ]" =
      .ok [.block 3 [.forward 5, .pen false, .forward 5, .pen true]] := by decide +kernel
  obtain ⟨figures, left, -, -, hrender, ⟨first, last, hsummary⟩, hvalidate⟩ :=
    picture_shows_every_stroke h Canvas.standard
  obtain ⟨document, rect, hdocument, hcount, -, hrect, -⟩ := hrender (some "<rect <line")
  refine ⟨h, ⟨document, rect, hdocument, hcount, hrect⟩, ?_⟩
  have hjob : Invocation.ofArguments ["validate", "p.logo"] =
      .ok ⟨.validate, "p.logo", .initial⟩ := rfl
  have htext : (Disk.ofTree.contents threeStrokes).text "p.logo" =
      .ok "REPEAT 3 [ F 5 U F 5 D ]".toList := Contents.text_of_encode rfl (by decide)
  obtain ⟨diagnostics, hrun⟩ :=
    hvalidate threeStrokes (fun _ _ => rfl) hjob rfl (Contents.canvas_initial _) htext
  rw [hsummary] at hrun
  exact ⟨first, last, diagnostics, hrun⟩

end Turtle
