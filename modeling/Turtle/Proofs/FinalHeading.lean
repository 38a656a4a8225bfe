import Turtle.Proofs.Turning

/-! The heading at the end of a run. The four headings are a cycle on which a turn to the left is one
step forwards, so a run moves the heading by its turns to the left less its turns to the right and
nothing else matters: not the moves, not the pen, and not how often a block is repeated, except for
the turns in it. The counts may be far too large for the turns to be made one by one. -/

namespace Turtle
open Command

namespace Heading

/-- The headings in the order in which a turn to the left passes through them. -/
def cycle : List Heading := [.east, .north, .west, .south]

theorem cycle_index (h : Heading) : cycle[h.index]? = some h := by
  cases h <;> rfl

theorem index_lt (h : Heading) : h.index < 4 := by
  cases h <;> decide

/-- Turns to the left are steps on the cycle. -/
theorem index_iterate_turn (k : Nat) (h : Heading) :
    ((turn .left)^[k] h).index = (h.index + k) % 4 := by
  induction k with
  | zero => exact (Nat.mod_eq_of_lt h.index_lt).symm
  | succ k ih =>
    rw [Function.iterate_succ_apply', index_turn_left, ih]
    omega

end Heading

/-- What the turns of an unrolled program come to on the cycle. -/
theorem emod_leftTurns_unroll (start : Nat) (program : List Command) :
    (((start + leftTurns (unroll program)) % 4 : Nat) : Int) = (start + netTurn program) % 4 := by
  rw [leftTurns, countP_unroll, countP_unroll, netTurn]
  omega

/-- A run that nothing stops ends at the heading that its turns lead to. -/
theorem index_heading_of_applyAll {program : List Command} (h : Runnable program) {cursor left : Cursor}
    {figures : List Figure} (hrun : Cursor.applyAll program cursor = .ok figures left) :
    (left.heading.index : Int) = (cursor.heading.index + netTurn program) % 4 := by
  have hflat := h.isFlat_unroll
  have hmatch := mirrors_unroll program cursor
  simp only [hrun, Matches] at hmatch
  have hheading := heading_flatRun hflat (fault_flatRun hflat cursor)
  rw [hmatch] at hheading
  rw [hheading, Heading.index_iterate_turn, emod_leftTurns_unroll]

/-- **The final heading.** A program that can be run ends, from every cursor, at the heading on the cycle
that is as many steps on as it executes turns to the left, and as many back as it executes turns to
the right, each counted once for each iteration of the blocks around it. Nothing else decides: any
other program, from any other cursor with the same heading, ends at the same heading if its turns
come to the same up to full circles. -/
theorem final_heading {program : List Command} (h : Runnable program) (cursor : Cursor) :
    ∃ figures left, Cursor.applyAll program cursor = .ok figures left ∧
      Heading.cycle[((cursor.heading.index + executionsAll (turnsTo .left) program -
        executionsAll (turnsTo .right) program : Int) % 4).toNat]? = some left.heading ∧
      ∀ other start, Runnable other → start.heading = cursor.heading →
        (4 : Int) ∣ netTurn other - netTurn program →
        ∃ drawn last, Cursor.applyAll other start = .ok drawn last ∧ last.heading = left.heading := by
  obtain ⟨figures, hrun, -⟩ := exists_applyAll (fault_flatRun h.isFlat_unroll cursor)
  have hindex := index_heading_of_applyAll h hrun
  refine ⟨figures, _, hrun, ?_, ?_⟩
  · rw [Int.add_sub_assoc, ← netTurn, ← hindex, Int.toNat_natCast, Heading.cycle_index]
  · intro other start ho hstart hcircles
    obtain ⟨drawn, hother, -⟩ := exists_applyAll (fault_flatRun ho.isFlat_unroll start)
    have hindex' := index_heading_of_applyAll ho hother
    rw [hstart] at hindex'
    refine ⟨drawn, _, hother, ?_⟩
    -- headings with the same place on the cycle are the same
    generalize (flatRun (unroll other) start).cursor.heading = last at hindex' ⊢
    generalize (flatRun (unroll program) cursor).cursor.heading = first at hindex ⊢
    have hsame : last.index = first.index := by omega
    exact Option.some.inj (by rw [← last.cycle_index, ← first.cycle_index, hsame])

/-- As many turns to the left as to the right in the inner blocks, more than any run could make one by
one, and one more to the right in each iteration of the outer block. -/
def spinning : List Command :=
  [.block 4294967295 [.turn .right, .block 65537 [.turn .left], .pen false,
    .block 65537 [.turn .right, .forward 4294967295]]]

/-- From the heading of the standard canvas it is one step forwards to the north, as it is for a single
turn to the left, with the pen up as well. -/
theorem final_heading_spinning :
    Runnable spinning ∧ ∃ figures left,
      Cursor.applyAll spinning Canvas.standard.cursor = .ok figures left ∧ left.heading = .north ∧
      ∃ drawn last, Cursor.applyAll [.turn .left] { Canvas.standard.cursor with penDown := false } =
        .ok drawn last ∧ last.heading = left.heading := by
  have h : Runnable spinning := by decide +kernel
  have hturn : Runnable [.turn .left] := by decide +kernel
  have hcircles : (4 : Int) ∣ netTurn [.turn .left] - netTurn spinning := by decide +kernel
  obtain ⟨figures, left, hrun, hheading, hothers⟩ := final_heading h Canvas.standard.cursor
  have hnorth : Heading.cycle[((Canvas.standard.cursor.heading.index +
      executionsAll (turnsTo .left) spinning - executionsAll (turnsTo .right) spinning : Int) %
        4).toNat]? = some .north := by decide +kernel
  exact ⟨h, figures, left, hrun, Option.some.inj (hheading.symm.trans hnorth),
    hothers _ { Canvas.standard.cursor with penDown := false } hturn rfl hcircles⟩

end Turtle
