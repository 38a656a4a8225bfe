import Turtle.Proofs.FlatRuns

/-! Connected strokes. Every move starts where the cursor stands, so a run draws one line that is broken
only where the cursor moves with the pen up. Whether the pen is down at each move can be told from
the commands alone; the moves with the pen down are the segments, in order, and two segments without
a move between them meet. Blocks do not matter: what they group is drawn in the same order. -/

namespace Turtle
open Command

/-- Whether a command moves the cursor. -/
def Command.isMove : Command → Bool
  | .forward _ => true
  | _ => false

/-- For each move of single commands, in order, whether the pen is down. -/
def penAtMoves : Bool → List Command → List Bool
  | _, [] => []
  | down, .forward _ :: rest => down :: penAtMoves down rest
  | _, .pen down :: rest => penAtMoves down rest
  | down, _ :: rest => penAtMoves down rest

/-- What is drawn by moves with the pen down (`true`) and up (`false`), from a point to a point: the
segments are the moves with the pen down, and where only moves with the pen up could separate two
segments, or a segment and an end, there is such a move or they meet. -/
structure Connected (start : Point) (pens : List Bool) (strokes : List Segment) (finish : Point) :
    Prop where
  count : strokes.length = pens.count true
  first : ∀ stroke, strokes.head? = some stroke → ∃ lifted after,
    pens = List.replicate lifted false ++ true :: after ∧ (lifted = 0 → stroke.start = start)
  next : ∀ i stroke later, strokes[i]? = some stroke → strokes[i + 1]? = some later →
    ∃ before lifted after, pens = before ++ true :: (List.replicate lifted false ++ true :: after) ∧
      before.count true = i ∧ (lifted = 0 → later.start = stroke.finish)
  last : ∀ stroke, strokes.getLast? = some stroke → ∃ before lifted,
    pens = before ++ true :: List.replicate lifted false ∧ (lifted = 0 → finish = stroke.finish)

/-- Moves lead from a point to a point and draw segments on the way. -/
inductive Leads : Point → List Bool → List Segment → Point → Prop
  | stay (point : Point) : Leads point [] [] point
  | draw {stroke : Segment} {pens : List Bool} {strokes : List Segment} {finish : Point} :
      Leads stroke.finish pens strokes finish →
      Leads stroke.start (true :: pens) (stroke :: strokes) finish
  | lift {start next finish : Point} {pens : List Bool} {strokes : List Segment} :
      Leads next pens strokes finish → Leads start (false :: pens) strokes finish

variable {start finish : Point} {pens : List Bool} {strokes : List Segment}

theorem Leads.count (h : Leads start pens strokes finish) : strokes.length = pens.count true := by
  induction h with
  | stay => rfl
  | draw _ ih => simp [ih]
  | lift _ ih => simp [ih]

/-- Without a segment all moves have the pen up, and without a move nothing is reached. -/
theorem Leads.of_nil (h : Leads start pens [] finish) :
    ∃ lifted, pens = List.replicate lifted false ∧ (lifted = 0 → finish = start) := by
  generalize hstrokes : ([] : List Segment) = strokes at h
  induction h with
  | stay => exact ⟨0, rfl, fun _ => rfl⟩
  | draw => cases hstrokes
  | lift _ ih =>
    obtain ⟨lifted, hpens, -⟩ := ih hstrokes
    exact ⟨lifted + 1, by rw [hpens, List.replicate_succ], nofun⟩

theorem Leads.first {stroke : Segment} (h : Leads start pens strokes finish)
    (hs : strokes.head? = some stroke) : ∃ lifted after,
      pens = List.replicate lifted false ++ true :: after ∧ (lifted = 0 → stroke.start = start) := by
  induction h with
  | stay => cases hs
  | draw =>
    obtain rfl := Option.some.inj hs
    exact ⟨0, _, rfl, fun _ => rfl⟩
  | lift _ ih =>
    obtain ⟨lifted, after, hpens, -⟩ := ih hs
    exact ⟨lifted + 1, after, by rw [hpens, List.replicate_succ, List.cons_append], nofun⟩

theorem Leads.next {i : Nat} {stroke later : Segment} (h : Leads start pens strokes finish)
    (hs : strokes[i]? = some stroke) (hl : strokes[i + 1]? = some later) :
    ∃ before lifted after, pens = before ++ true :: (List.replicate lifted false ++ true :: after) ∧
      before.count true = i ∧ (lifted = 0 → later.start = stroke.finish) := by
  induction h generalizing i with
  | stay => cases hs
  | draw hrest ih =>
    cases i with
    | zero =>
      obtain rfl := Option.some.inj hs
      obtain ⟨lifted, after, hpens, hmeet⟩ := hrest.first (List.head?_eq_getElem? ▸ hl)
      exact ⟨[], lifted, after, by rw [hpens]; rfl, rfl, hmeet⟩
    | succ i =>
      obtain ⟨before, lifted, after, hpens, hcount, hmeet⟩ := ih hs hl
      exact ⟨true :: before, lifted, after, by rw [hpens]; rfl, by simp [hcount], hmeet⟩
  | lift _ ih =>
    obtain ⟨before, lifted, after, hpens, hcount, hmeet⟩ := ih hs hl
    exact ⟨false :: before, lifted, after, by rw [hpens]; rfl, by simp [hcount], hmeet⟩

theorem Leads.last {stroke : Segment} (h : Leads start pens strokes finish)
    (hs : strokes.getLast? = some stroke) : ∃ before lifted,
      pens = before ++ true :: List.replicate lifted false ∧ (lifted = 0 → finish = stroke.finish) := by
  induction h with
  | stay => cases hs
  | @draw _ _ strokes _ hrest ih =>
    cases strokes with
    | nil =>
      obtain rfl := Option.some.inj hs
      obtain ⟨lifted, hpens, hmeet⟩ := hrest.of_nil
      exact ⟨[], lifted, by rw [hpens]; rfl, hmeet⟩
    | cons next more =>
      obtain ⟨before, lifted, hpens, hmeet⟩ := ih (List.getLast?_cons_cons ▸ hs)
      exact ⟨true :: before, lifted, by rw [hpens]; rfl, hmeet⟩
  | lift _ ih =>
    obtain ⟨before, lifted, hpens, hmeet⟩ := ih hs
    exact ⟨false :: before, lifted, by rw [hpens]; rfl, hmeet⟩

theorem Leads.connected (h : Leads start pens strokes finish) : Connected start pens strokes finish :=
  ⟨h.count, fun _ => h.first, fun _ _ _ => h.next, fun _ => h.last⟩

variable {flat : List Command}

/-- **Run lemma.** A flat run leads from the cursor's place to the place it comes to. -/
theorem leads_flatRun (h : IsFlat IsDistance flat) (cursor : Cursor) :
    Leads cursor.position (penAtMoves cursor.penDown flat) (flatRun flat cursor).drawn
      (flatRun flat cursor).cursor.position := by
  induction h generalizing cursor with
  | nil => exact .stay _
  | forward hd _ ih =>
    obtain ⟨step, hstep⟩ := displacement?_of_fits hd cursor.heading
    rw [flatRun_forward cursor _ hstep]
    have hrest : Leads (cursor.moved step).position (penAtMoves cursor.penDown _) _ _ :=
      ih (cursor.moved step)
    rw [penAtMoves, Cursor.strokes]
    cases hpen : cursor.penDown with
    | true =>
      rw [hpen] at hrest
      change Leads (cursor.strokeTo step).start (true :: _) (cursor.strokeTo step :: _) _
      exact .draw hrest
    | false =>
      rw [hpen] at hrest
      exact .lift hrest
  | @turn side _ _ ih =>
    rw [flatRun_turn]
    exact ih { cursor with heading := cursor.heading.turn side }
  | @pen down _ _ ih =>
    rw [flatRun_pen]
    exact ih { cursor with penDown := down }
  | @setSize width _ _ ih =>
    rw [flatRun_setSize]
    exact ih { cursor with width := width }
  | @setColor color _ _ ih =>
    rw [flatRun_setColor]
    exact ih { cursor with color := color }

/-- A pen that is down and not lifted is down at every move. -/
theorem count_penAtMoves (hlift : .pen false ∉ flat) :
    (penAtMoves true flat).count true = flat.countP (·.isMove) := by
  induction flat with
  | nil => rfl
  | cons command rest ih =>
    have hrest := ih fun hc => hlift (List.mem_cons_of_mem _ hc)
    cases command with
    | forward distance =>
      rw [penAtMoves, List.count_cons_self, List.countP_cons_of_pos rfl, hrest]
    | pen down =>
      cases down with
      | false => exact absurd List.mem_cons_self hlift
      | true => rwa [penAtMoves, List.countP_cons_of_neg Bool.false_ne_true]
    | turn | setSize | setColor | block | blockEnd =>
      rwa [penAtMoves, List.countP_cons_of_neg Bool.false_ne_true]
      all_goals nofun

/-- **Strokes are connected.** A program that can be run draws, from every cursor, segments that are its
moves with the pen down, in order. The first begins where the cursor stands unless a move with the
pen up comes before it, each begins where the one before it ends unless a move with the pen up
comes between them, and the cursor is left where the last one ends unless a move with the pen up
comes after it. If the pen is down and never lifted, there are as many segments as moves, each
counted once for each iteration of the blocks around it. -/
theorem strokes_are_connected {program : List Command} (h : Runnable program) (cursor : Cursor) :
    ∃ figures left, Cursor.applyAll program cursor = .ok figures left ∧
      Connected cursor.position (penAtMoves cursor.penDown (unroll program))
        (Figure.segmentsAll figures) left.position ∧
      (.pen false ∉ partsAll program → cursor.penDown = true →
        (Figure.segmentsAll figures).length = executionsAll isMove program) := by
  have hflat := h.isFlat_unroll
  obtain ⟨figures, hrun, hdrawn⟩ := exists_applyAll (fault_flatRun hflat cursor)
  have hleads := leads_flatRun hflat cursor
  rw [← hdrawn] at hleads
  refine ⟨figures, _, hrun, hleads.connected, fun hlift hdown => ?_⟩
  have hflatLift : .pen false ∉ unroll program :=
    fun hc => hlift (mem_partsAll_of_mem_unroll program hc).1
  rw [hleads.count, hdown, count_penAtMoves hflatLift, countP_unroll]

/-- A block of two moves in a block, the second of them with the pen up. -/
def dashes : List Command :=
  [.block 3 [.block 2 [.forward 4], .pen false, .forward 2, .pen true]]

/-- A block of two moves in a block, with the pen down at each of them. -/
def corners : List Command := [.block 3 [.block 2 [.forward 4], .turn .left, .forward 2]]

/-- The second segment of a dash meets the first; the third is apart. The corners are drawn in as
many segments as they have moves. -/
theorem strokes_are_connected_dashes :
    (Runnable dashes ∧ ∃ figures left,
      Cursor.applyAll dashes Canvas.standard.cursor = .ok figures left ∧
      Connected Canvas.standard.cursor.position
        [true, true, false, true, true, false, true, true, false]
        (Figure.segmentsAll figures) left.position) ∧
    Runnable corners ∧ ∃ figures left,
      Cursor.applyAll corners Canvas.standard.cursor = .ok figures left ∧
      (Figure.segmentsAll figures).length = 9 := by
  constructor
  · have h : Runnable dashes := by decide +kernel
    have hpens : penAtMoves Canvas.standard.cursor.penDown (unroll dashes) =
        [true, true, false, true, true, false, true, true, false] := by decide +kernel
    obtain ⟨figures, left, hrun, hconnected, -⟩ := strokes_are_connected h Canvas.standard.cursor
    rw [hpens] at hconnected
    exact ⟨h, figures, left, hrun, hconnected⟩
  · have h : Runnable corners := by decide +kernel
    have hlift : .pen false ∉ partsAll corners := by decide +kernel
    obtain ⟨figures, left, hrun, -, hcount⟩ := strokes_are_connected h Canvas.standard.cursor
    exact ⟨h, figures, left, hrun, hcount hlift rfl⟩

end Turtle
