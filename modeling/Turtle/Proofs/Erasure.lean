import Turtle.Proofs.FlatRuns

/-! Programs without their pen and style. Lifting and lowering the pen, widths and colours decide what
is drawn and how, never where the cursor goes. A run of a program and a run of it without those commands
therefore pass through the same places: the invariant is that the two cursors agree on position and
heading. What the one draws is a part of what the other draws with the pen down. -/

namespace Turtle

namespace Command

/-- Whether a command changes the pen or the style and nothing else. -/
def isStyle : Command → Bool
  | .pen _ | .setSize _ | .setColor _ => true
  | .forward _ | .turn _ | .block _ _ | .blockEnd => false

mutual

/-- A command without the commands of pen and style inside of it. -/
def erased : Command → List Command
  | .block count body => [.block count (erase body)]
  | command => if command.isStyle then [] else [command]

/-- A program without its commands of pen and style, at every depth. -/
def erase : List Command → List Command
  | [] => []
  | command :: rest => erased command ++ erase rest

end

@[simp] theorem erase_nil : erase [] = [] := by simp [erase]

@[simp] theorem erase_cons (command : Command) (rest : List Command) :
    erase (command :: rest) = erased command ++ erase rest := by simp [erase]

@[simp] theorem erased_block (count : Int) (body : List Command) :
    erased (.block count body) = [.block count (erase body)] := by simp [erased]

/-- A command of pen or style is left out. -/
theorem erase_cons_of_isStyle {command : Command} (h : command.isStyle = true) (rest : List Command) :
    erase (command :: rest) = erase rest := by
  cases command <;> simp_all [erased, isStyle]

/-- Every other single command stays. -/
theorem erase_cons_of_not_isStyle {command : Command} (hb : command.isBlock = false)
    (h : command.isStyle = false) (rest : List Command) :
    erase (command :: rest) = command :: erase rest := by
  cases command <;> simp_all [erased, isStyle, isBlock]

theorem erase_append (first second : List Command) :
    erase (first ++ second) = erase first ++ erase second := by
  induction first with
  | nil => simp
  | cons command rest ih => simp [ih]

theorem erase_copies (times : Nat) (body : List Command) :
    erase (List.replicate times body).flatten = (List.replicate times (erase body)).flatten := by
  induction times with
  | zero => simp
  | succ times ih => simp [List.replicate_succ, erase_append, ih]

/-- To erase and to unroll can be done in either order. -/
theorem unroll_erase (program : List Command) : unroll (erase program) = erase (unroll program) := by
  induction program using programInduction with
  | nil => simp
  | single command rest hb ih =>
    rw [unroll_cons, unrolled_of_not_block hb, List.singleton_append]
    cases h : command.isStyle with
    | true => rw [erase_cons_of_isStyle h, erase_cons_of_isStyle h, ih]
    | false =>
      rw [erase_cons_of_not_isStyle hb h, erase_cons_of_not_isStyle hb h, unroll_cons,
        unrolled_of_not_block hb, ih, List.singleton_append]
  | block count body rest ihBody ih =>
    rw [erase_cons, erased_block, List.singleton_append, unroll_cons, unroll_cons, unrolled_block,
      unrolled_block, erase_append, erase_copies, ihBody, ih]

/-- Nothing of pen and style is left, at any depth. -/
theorem not_isStyle_of_mem_erase (program : List Command) :
    ∀ part ∈ partsAll (erase program), part.isStyle = false := by
  induction program using programInduction with
  | nil => simp
  | single command rest hb ih =>
    cases h : command.isStyle with
    | true => rwa [erase_cons_of_isStyle h]
    | false =>
      rw [erase_cons_of_not_isStyle hb h, partsAll_cons, parts_of_not_block hb]
      exact List.forall_mem_cons.mpr ⟨h, ih⟩
  | block count body rest ihBody ih =>
    rw [erase_cons, erased_block, List.singleton_append, partsAll_cons, parts_block]
    exact List.forall_mem_cons.mpr ⟨rfl, List.forall_mem_append.mpr ⟨ihBody, ih⟩⟩

end Command

open Command

/-- The two ends of a segment. -/
def Segment.ends (segment : Segment) : Point × Point := (segment.start, segment.finish)

/-- Two cursors stand at one place and look the same way, whatever their pens and styles. -/
def SamePlace (a b : Cursor) : Prop := a.position = b.position ∧ a.heading = b.heading

theorem SamePlace.refl (a : Cursor) : SamePlace a a := ⟨rfl, rfl⟩

theorem SamePlace.moved {a b : Cursor} (h : SamePlace a b) (step : Binary64 × Binary64) :
    SamePlace (a.moved step) (b.moved step) := by
  obtain ⟨hposition, hheading⟩ := h
  exact ⟨by rw [Cursor.moved, Cursor.moved, hposition], hheading⟩

theorem SamePlace.turned {a b : Cursor} (h : SamePlace a b) (side : Turn) :
    SamePlace { a with heading := a.heading.turn side } { b with heading := b.heading.turn side } :=
  ⟨h.1, congrArg (Heading.turn side) h.2⟩

/-- Where a move draws, it draws from the same place to the same place. -/
theorem SamePlace.ends {a b : Cursor} (h : SamePlace a b) (step : Binary64 × Binary64) :
    (a.strokeTo step).ends = (b.strokeTo step).ends :=
  Prod.ext h.1 (h.moved step).1

variable {flat : List Command}

theorem IsFlat.erase {within : Int → Prop} (h : IsFlat within flat) : IsFlat within (erase flat) := by
  induction h with
  | nil =>
    rw [erase_nil]
    exact .nil
  | forward hd _ ih =>
    rw [erase_cons_of_not_isStyle rfl rfl]
    exact .forward hd ih
  | turn _ ih =>
    rw [erase_cons_of_not_isStyle rfl rfl]
    exact .turn ih
  | pen _ ih | setSize _ ih | setColor _ ih => rwa [erase_cons_of_isStyle rfl]

/-- A move that can be carried out takes both runs along by one displacement. -/
theorem SamePlace.exists_step {a b : Cursor} (h : SamePlace a b) {distance : Int}
    (hd : IsDistance distance) (rest : List Command) : ∃ step,
      flatRun (.forward distance :: rest) a =
        { flatRun rest (a.moved step) with
          drawn := a.strokes step ++ (flatRun rest (a.moved step)).drawn } ∧
      flatRun (erase (.forward distance :: rest)) b =
        { flatRun (erase rest) (b.moved step) with
          drawn := b.strokes step ++ (flatRun (erase rest) (b.moved step)).drawn } := by
  obtain ⟨step, hstep⟩ := displacement?_of_fits hd a.heading
  refine ⟨step, flatRun_forward a _ hstep, ?_⟩
  rw [erase_cons_of_not_isStyle rfl rfl]
  exact flatRun_forward b _ (h.2 ▸ hstep)

/-- **Run lemma.** From one place, a flat program and what is left of it without pen and style come to
one place. -/
theorem samePlace_flatRun (h : IsFlat IsDistance flat) {a b : Cursor} (hplace : SamePlace a b) :
    SamePlace (flatRun flat a).cursor (flatRun (erase flat) b).cursor := by
  induction h generalizing a b with
  | nil => exact hplace
  | forward hd _ ih =>
    obtain ⟨step, ha, hb⟩ := hplace.exists_step hd _
    rw [ha, hb]
    exact ih (hplace.moved step)
  | turn _ ih =>
    rw [erase_cons_of_not_isStyle rfl rfl, flatRun_turn, flatRun_turn]
    exact ih (hplace.turned _)
  | pen _ ih | setSize _ ih | setColor _ ih =>
    rw [erase_cons_of_isStyle rfl]
    simp only [flatRun_pen, flatRun_setSize, flatRun_setColor]
    exact ih hplace

/-- With the pen down throughout, all that the program draws is drawn in the same order, and more where
the program lifts the pen. -/
theorem sublist_flatRun (h : IsFlat IsDistance flat) {a b : Cursor} (hplace : SamePlace a b)
    (hdown : b.penDown = true) :
    ((flatRun flat a).drawn.map Segment.ends).Sublist
      ((flatRun (erase flat) b).drawn.map Segment.ends) := by
  induction h generalizing a b with
  | nil => exact .slnil
  | forward hd _ ih =>
    obtain ⟨step, ha, hb⟩ := hplace.exists_step hd _
    rw [ha, hb]
    have hrest := ih (hplace.moved step) hdown
    simp only [Cursor.strokes, hdown, if_true, List.map_append, List.map_cons, List.map_nil]
    rw [← hplace.ends step]
    split
    · exact hrest.cons_cons _
    · exact hrest.cons _
  | turn _ ih =>
    rw [erase_cons_of_not_isStyle rfl rfl, flatRun_turn, flatRun_turn]
    exact ih (hplace.turned _) hdown
  | pen _ ih | setSize _ ih | setColor _ ih =>
    rw [erase_cons_of_isStyle rfl]
    simp only [flatRun_pen, flatRun_setSize, flatRun_setColor]
    exact ih hplace hdown

/-- If the pen is down and is not lifted, nothing is left out. -/
theorem ends_flatRun (h : IsFlat IsDistance flat) (hlift : .pen false ∉ flat) {a b : Cursor}
    (hplace : SamePlace a b) (hdown : a.penDown = true) (hdown' : b.penDown = true) :
    (flatRun flat a).drawn.map Segment.ends =
      (flatRun (erase flat) b).drawn.map Segment.ends := by
  induction h generalizing a b with
  | nil => rfl
  | forward hd _ ih =>
    obtain ⟨step, ha, hb⟩ := hplace.exists_step hd _
    rw [ha, hb]
    have hrest := ih (fun hc => hlift (List.mem_cons_of_mem _ hc)) (hplace.moved step) hdown hdown'
    simp only [Cursor.strokes, hdown, hdown', if_true, List.map_append, List.map_cons, List.map_nil]
    rw [hplace.ends step, hrest]
  | turn _ ih =>
    rw [erase_cons_of_not_isStyle rfl rfl, flatRun_turn, flatRun_turn]
    exact ih (fun hc => hlift (List.mem_cons_of_mem _ hc)) (hplace.turned _) hdown hdown'
  | @pen down _ _ ih =>
    cases down with
    | false => exact absurd List.mem_cons_self hlift
    | true =>
      rw [erase_cons_of_isStyle rfl, flatRun_pen]
      exact ih (fun hc => hlift (List.mem_cons_of_mem _ hc)) hplace rfl hdown'
  | setSize _ ih | setColor _ ih =>
    rw [erase_cons_of_isStyle rfl]
    simp only [flatRun_setSize, flatRun_setColor]
    exact ih (fun hc => hlift (List.mem_cons_of_mem _ hc)) hplace hdown hdown'

/-- A program without pen and style runs as far as the program does, and comes to the same place. -/
theorem exists_applyAll_erase {program : List Command} (h : Runnable program) {a b : Cursor}
    (hplace : SamePlace a b) :
    ∃ figures, Cursor.applyAll (erase program) b =
        .ok figures (flatRun (erase (unroll program)) b).cursor ∧
      Figure.segmentsAll figures = (flatRun (erase (unroll program)) b).drawn ∧
      SamePlace (flatRun (unroll program) a).cursor
        (flatRun (erase (unroll program)) b).cursor := by
  have hflat := h.isFlat_unroll
  have hfault : (flatRun (unroll (erase program)) b).fault = none := by
    rw [unroll_erase]
    exact fault_flatRun hflat.erase b
  obtain ⟨figures, hrun, hdrawn⟩ := exists_applyAll hfault
  rw [unroll_erase] at hrun hdrawn
  exact ⟨figures, hrun, hdrawn, samePlace_flatRun hflat hplace⟩

/-- **Pen and style never lead the cursor.** A program that can be run and the same program without its
commands of pen and style run from every cursor to the same place and heading. With the pen down
throughout, the second draws all that the first draws, in the same order and between the same points,
and the moves that the first makes with the pen up; if the first begins with the pen down and never
lifts it, both draw between exactly the same points. -/
theorem pen_and_style_never_lead {program : List Command} (h : Runnable program) (cursor : Cursor) :
    (∀ part ∈ partsAll (erase program), part.isStyle = false) ∧
    ∃ figures left, Cursor.applyAll program cursor = .ok figures left ∧
      (∃ plain last, Cursor.applyAll (erase program) cursor = .ok plain last ∧
        last.position = left.position ∧ last.heading = left.heading) ∧
      ∃ plain last, Cursor.applyAll (erase program) { cursor with penDown := true } = .ok plain last ∧
        last.position = left.position ∧ last.heading = left.heading ∧
        ((Figure.segmentsAll figures).map Segment.ends).Sublist
          ((Figure.segmentsAll plain).map Segment.ends) ∧
        (.pen false ∉ partsAll program → cursor.penDown = true →
          (Figure.segmentsAll figures).map Segment.ends =
            (Figure.segmentsAll plain).map Segment.ends) := by
  have hflat := h.isFlat_unroll
  have hplace : SamePlace cursor { cursor with penDown := true } := ⟨rfl, rfl⟩
  obtain ⟨figures, hrun, hdrawn⟩ := exists_applyAll (fault_flatRun hflat cursor)
  obtain ⟨plain, hplain, -, hsame⟩ := exists_applyAll_erase h (SamePlace.refl cursor)
  obtain ⟨all, hall, hmore, hsame'⟩ := exists_applyAll_erase h hplace
  refine ⟨not_isStyle_of_mem_erase program, figures, _, hrun, ⟨plain, _, hplain, hsame.1.symm, hsame.2.symm⟩,
    all, _, hall, hsame'.1.symm, hsame'.2.symm, ?_, ?_⟩
  · rw [hdrawn, hmore]
    exact sublist_flatRun hflat hplace rfl
  · intro hlift hdown
    rw [hdrawn, hmore]
    exact ends_flatRun hflat (fun hc => hlift (mem_partsAll_of_mem_unroll program hc).1) hplace hdown rfl

/-- A block that lifts the pen for one of two moves, and changes the width in a block of its own. -/
def brokenStroke : List Command :=
  [.block 2 [.pen false, .forward 5, .block 3 [.setSize (.ofNat 1), .turn .left], .pen true, .forward 3]]

/-- The same block with the pen down all the time. -/
def wholeStroke : List Command :=
  [.block 2 [.forward 5, .block 3 [.setSize (.ofNat 1), .turn .left], .forward 3]]

/-- The block with neither pen nor style. -/
def plainStroke : List Command := [.block 2 [.forward 5, .block 3 [.turn .left], .forward 3]]

/-- From the middle of the standard canvas, both blocks end where the plain one ends, and the plain one
draws between the same points as the block that never lifts the pen. -/
theorem pen_and_style_never_lead_broken :
    (Runnable brokenStroke ∧ ∃ figures left plain last,
      Cursor.applyAll brokenStroke Canvas.standard.cursor = .ok figures left ∧
      Cursor.applyAll plainStroke Canvas.standard.cursor = .ok plain last ∧
      last.position = left.position ∧ last.heading = left.heading) ∧
    Runnable wholeStroke ∧ ∃ figures left plain last,
      Cursor.applyAll wholeStroke Canvas.standard.cursor = .ok figures left ∧
      Cursor.applyAll plainStroke Canvas.standard.cursor = .ok plain last ∧
      last.position = left.position ∧ last.heading = left.heading ∧
      (Figure.segmentsAll figures).map Segment.ends = (Figure.segmentsAll plain).map Segment.ends := by
  constructor
  · have h : Runnable brokenStroke := by decide +kernel
    obtain ⟨-, figures, left, hrun, ⟨plain, last, hplain, hplace⟩, -⟩ :=
      pen_and_style_never_lead h Canvas.standard.cursor
    exact ⟨h, figures, left, plain, last, hrun, hplain, hplace⟩
  · have h : Runnable wholeStroke := by decide +kernel
    have hlift : .pen false ∉ partsAll wholeStroke := by decide +kernel
    have herase : erase wholeStroke = plainStroke := rfl
    have hdown : ∀ canvas : Canvas, { canvas.cursor with penDown := true } = canvas.cursor :=
      fun _ => rfl
    obtain ⟨-, figures, left, hrun, -, plain, last, hplain, hposition, hheading, -, hends⟩ :=
      pen_and_style_never_lead h Canvas.standard.cursor
    rw [herase, hdown] at hplain
    exact ⟨h, figures, left, plain, last, hrun, hplain, hposition, hheading, hends hlift rfl⟩

end Turtle
