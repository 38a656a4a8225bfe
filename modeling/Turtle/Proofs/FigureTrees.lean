import Turtle.Proofs.FlatRuns

/-! The figures of a run as trees. A block that has drawn nothing leaves no figure, and the figures that
its iterations have drawn are all in its group, so groups are never empty and never nest deeper than
the blocks that they come from. Both are kept when programs follow one another, hence by every
number of iterations, and `growsWithin` is the one induction over nested blocks. -/

namespace Turtle

namespace Figure

mutual

/-- A figure and all that is inside of it, the outer ones first. -/
def parts : Figure → List Figure
  | .segment stroke => [.segment stroke]
  | .group members => .group members :: partsAll members

/-- The parts of several figures, at every depth. -/
def partsAll : List Figure → List Figure
  | [] => []
  | figure :: rest => parts figure ++ partsAll rest

end

mutual

/-- How many groups enclose one another in a figure. -/
def nesting : Figure → Nat
  | .segment _ => 0
  | .group members => nestingAll members + 1

def nestingAll : List Figure → Nat
  | [] => 0
  | figure :: rest => max (nesting figure) (nestingAll rest)

end

/-- Induction over figures: the first of them is a segment, or a group of figures. -/
@[elab_as_elim]
theorem figureInduction {motive : List Figure → Prop} (nil : motive [])
    (segment : ∀ stroke rest, motive rest → motive (.segment stroke :: rest))
    (group : ∀ members rest, motive members → motive rest → motive (.group members :: rest)) :
    ∀ figures, motive figures
  | [] => nil
  | .segment stroke :: rest => segment stroke rest (figureInduction nil segment group rest)
  | .group members :: rest =>
    group members rest (figureInduction nil segment group members)
      (figureInduction nil segment group rest)

@[simp] theorem partsAll_nil : partsAll [] = [] := by simp [partsAll]

@[simp] theorem partsAll_cons (figure : Figure) (rest : List Figure) :
    partsAll (figure :: rest) = parts figure ++ partsAll rest := by simp [partsAll]

@[simp] theorem parts_segment (stroke : Segment) : parts (.segment stroke) = [.segment stroke] := by
  simp [parts]

@[simp] theorem parts_group (members : List Figure) :
    parts (.group members) = .group members :: partsAll members := by simp [parts]

@[simp] theorem nestingAll_nil : nestingAll [] = 0 := by simp [nestingAll]

@[simp] theorem nestingAll_cons (figure : Figure) (rest : List Figure) :
    nestingAll (figure :: rest) = max (nesting figure) (nestingAll rest) := by simp [nestingAll]

@[simp] theorem nesting_segment (stroke : Segment) : nesting (.segment stroke) = 0 := by
  simp [nesting]

@[simp] theorem nesting_group (members : List Figure) :
    nesting (.group members) = nestingAll members + 1 := by simp [nesting]

theorem partsAll_append (a b : List Figure) : partsAll (a ++ b) = partsAll a ++ partsAll b := by
  induction a with
  | nil => simp
  | cons figure rest ih => simp [ih]

theorem nestingAll_append (a b : List Figure) :
    nestingAll (a ++ b) = max (nestingAll a) (nestingAll b) := by
  induction a with
  | nil => simp
  | cons figure rest ih => simp [ih, Nat.max_assoc]

theorem nesting_le_nestingAll {figure : Figure} {figures : List Figure} (h : figure ∈ figures) :
    figure.nesting ≤ nestingAll figures := by
  induction figures with
  | nil => cases h
  | cons first rest ih =>
    rw [nestingAll_cons]
    rcases List.mem_cons.mp h with rfl | h
    · exact Nat.le_max_left _ _
    · exact Nat.le_trans (ih h) (Nat.le_max_right _ _)

/-- No group is empty, at any depth. -/
def Full (figures : List Figure) : Prop := ∀ members, .group members ∈ partsAll figures → members ≠ []

theorem full_nil : Full [] := by simp [Full]

theorem full_append {a b : List Figure} : Full (a ++ b) ↔ Full a ∧ Full b := by
  simp only [Full, partsAll_append, List.mem_append, or_imp, forall_and]

theorem full_cons {figure : Figure} {rest : List Figure} :
    Full (figure :: rest) ↔ Full [figure] ∧ Full rest :=
  full_append (a := [figure])

theorem full_segment (stroke : Segment) : Full [.segment stroke] := by simp [Full]

theorem full_group {members : List Figure} : Full [.group members] ↔ members ≠ [] ∧ Full members := by
  simp [Full]

/-- Where no group is empty every figure holds a segment. -/
theorem Full.segmentsAll_ne_nil {figures : List Figure} (h : Full figures) (hne : figures ≠ []) :
    segmentsAll figures ≠ [] := by
  induction figures using figureInduction with
  | nil => exact absurd rfl hne
  | segment stroke rest _ => simp [segmentsAll, segments]
  | group members rest ihMembers _ =>
    obtain ⟨hmembers, hfull⟩ := full_group.mp (full_cons.mp h).1
    have hsegments := ihMembers hfull hmembers
    simp [segmentsAll, segments, hsegments]

theorem Full.segments_ne_nil {figures : List Figure} (h : Full figures) {figure : Figure}
    (hmem : figure ∈ figures) : figure.segments ≠ [] := by
  obtain ⟨before, after, rfl⟩ := List.append_of_mem hmem
  have hfigure := (full_cons.mp (full_append.mp h).2).1
  have hsegments := hfigure.segmentsAll_ne_nil (List.cons_ne_nil _ _)
  simpa [segmentsAll] using hsegments

end Figure

open Command Figure

/-- What a program draws, from whatever cursor, has no empty group and no more groups inside one
another than a bound. -/
def GrowsWithin (bound : Nat) (program : List Command) : Prop :=
  ∀ cursor figures left, Cursor.applyAll program cursor = .ok figures left →
    Full figures ∧ nestingAll figures ≤ bound

theorem growsWithin_nil (bound : Nat) : GrowsWithin bound [] := by
  intro cursor figures left h
  rw [Cursor.applyAll] at h
  obtain ⟨rfl, -⟩ := EStateM.Result.ok.inj h
  exact ⟨full_nil, by simp⟩

theorem GrowsWithin.append {bound : Nat} {first second : List Command} (hf : GrowsWithin bound first)
    (hs : GrowsWithin bound second) : GrowsWithin bound (first ++ second) := by
  intro cursor figures left h
  obtain ⟨drawn, mid, more, hfirst, hsecond, rfl⟩ := Cursor.exists_of_applyAll_append h
  obtain ⟨hfull, hle⟩ := hf _ _ _ hfirst
  obtain ⟨hfull', hle'⟩ := hs _ _ _ hsecond
  exact ⟨full_append.mpr ⟨hfull, hfull'⟩, by rw [nestingAll_append]; omega⟩

theorem GrowsWithin.mono {bound most : Nat} {program : List Command} (h : GrowsWithin bound program)
    (hle : bound ≤ most) : GrowsWithin most program := by
  intro cursor figures left hrun
  obtain ⟨hfull, hdeep⟩ := h _ _ _ hrun
  exact ⟨hfull, Nat.le_trans hdeep hle⟩

theorem GrowsWithin.copies {bound : Nat} {body : List Command} (h : GrowsWithin bound body)
    (times : Nat) : GrowsWithin bound (List.replicate times body).flatten := by
  induction times with
  | zero => exact growsWithin_nil bound
  | succ times ih =>
    rw [List.replicate_succ, List.flatten_cons]
    exact h.append ih

/-- What a command without a body draws: nothing, or a segment for a move. -/
theorem figure_of_apply {command : Command} (hb : command.isBlock = false) {cursor next : Cursor}
    {figure : Option Figure} (h : Cursor.apply command cursor = .ok figure next) :
    figure = none ∨ ∃ distance stroke, command = .forward distance ∧ figure = some (.segment stroke) := by
  cases command with
  | forward distance =>
    rw [Cursor.apply, Cursor.forward] at h
    cases hstep : Cursor.displacement? cursor.heading distance with
    | none =>
      rw [hstep] at h
      cases h
    | some step =>
      rw [hstep] at h
      obtain ⟨rfl, -⟩ := EStateM.Result.ok.inj h
      cases cursor.penDown with
      | true => exact .inr ⟨distance, _, rfl, rfl⟩
      | false => exact .inl rfl
  | turn | pen | setSize | setColor =>
    rw [Cursor.apply] at h
    exact .inl (EStateM.Result.ok.inj h).1.symm
  | block => cases hb
  | blockEnd =>
    rw [Cursor.apply] at h
    cases h

/-- What a block draws: nothing, or the group of what the copies of its body draw. -/
theorem figure_of_apply_block {count : Int} {body : List Command} {cursor next : Cursor}
    {figure : Option Figure} (h : Cursor.apply (.block count body) cursor = .ok figure next) :
    ∃ members, Cursor.applyAll (List.replicate count.toNat body).flatten cursor = .ok members next ∧
      (members = [] ∧ figure = none ∨ members ≠ [] ∧ figure = some (.group members)) := by
  rw [Cursor.apply_block] at h
  split at h
  · cases h
  · rename_i members last hrun
    obtain ⟨rfl, rfl⟩ := EStateM.Result.ok.inj h
    refine ⟨members, hrun, ?_⟩
    cases members with
    | nil => exact .inl ⟨rfl, rfl⟩
    | cons first more => exact .inr ⟨List.cons_ne_nil _ _, rfl⟩

theorem growsWithin_single {command : Command} (hb : command.isBlock = false) :
    GrowsWithin 0 [command] := by
  intro cursor figures left h
  obtain ⟨figure, next, more, happly, hrest, rfl⟩ := Cursor.exists_of_applyAll_cons h
  obtain ⟨rfl, -⟩ := EStateM.Result.ok.inj hrest
  rcases figure_of_apply hb happly with rfl | ⟨distance, stroke, rfl, rfl⟩
  · exact ⟨full_nil, by simp⟩
  · exact ⟨full_segment stroke, by simp⟩

theorem growsWithin_block {bound : Nat} {body : List Command} (count : Int)
    (h : GrowsWithin bound body) : GrowsWithin (bound + 1) [.block count body] := by
  intro cursor figures left hrun
  obtain ⟨figure, next, more, happly, hrest, rfl⟩ := Cursor.exists_of_applyAll_cons hrun
  obtain ⟨rfl, -⟩ := EStateM.Result.ok.inj hrest
  obtain ⟨members, hcopies, hfigure⟩ := figure_of_apply_block happly
  obtain ⟨hfull, hle⟩ := h.copies count.toNat _ _ _ hcopies
  rcases hfigure with ⟨-, rfl⟩ | ⟨hne, rfl⟩
  · exact ⟨full_nil, by simp⟩
  · exact ⟨full_group.mpr ⟨hne, hfull⟩, by simpa using hle⟩

/-- Every program grows within its own nesting. -/
theorem growsWithin (program : List Command) : GrowsWithin (Command.nestingAll program) program := by
  induction program using programInduction with
  | nil => exact growsWithin_nil _
  | single command rest hb ih =>
    rw [Command.nestingAll_cons, nesting_of_not_block hb, Nat.zero_max]
    exact ((growsWithin_single hb).mono (Nat.zero_le _)).append ih
  | block count body rest ihBody ih =>
    rw [Command.nestingAll_cons, nesting_block]
    exact ((growsWithin_block count ihBody).mono (Nat.le_max_left _ _)).append
      (ih.mono (Nat.le_max_right _ _))

/-- A figure as a command can draw it: a move draws a segment and a block a group, even of a single
figure, with no more groups inside one another than blocks; nothing else draws. -/
def Depicts (command : Command) (figure : Figure) : Prop :=
  ((∃ distance stroke, command = .forward distance ∧ figure = .segment stroke) ∨
    ∃ count body members, command = .block count body ∧ figure = .group members) ∧
  figure.nesting ≤ command.nesting

/-- **Step lemma.** A command leaves no figure exactly if it draws no segment, and otherwise one of
its own kind. -/
theorem figure_of_command {command : Command} {cursor next : Cursor} {figure : Option Figure}
    (h : Cursor.apply command cursor = .ok figure next) :
    (figure = none ↔ (flatRun (unrolled command) cursor).drawn = []) ∧
      ∀ drawn, figure = some drawn → Depicts command drawn := by
  have hrun : Cursor.applyAll [command] cursor = .ok (figure.toList ++ []) next := by
    rw [Cursor.applyAll_cons, h]
    rfl
  rw [List.append_nil] at hrun
  have hflat := mirrors_unroll [command] cursor
  simp only [hrun, Matches, unroll_cons, unroll_nil, List.append_nil] at hflat
  obtain ⟨hfull, hdeep⟩ := growsWithin [command] _ _ _ hrun
  rw [Command.nestingAll_cons, Command.nestingAll_nil, Nat.max_zero] at hdeep
  rw [hflat]
  refine ⟨?_, ?_⟩
  · cases figure with
    | none => simp [segmentsAll]
    | some drawn => simpa using hfull.segmentsAll_ne_nil (List.cons_ne_nil _ _)
  · rintro drawn rfl
    refine ⟨?_, Nat.le_trans (nesting_le_nestingAll (List.mem_singleton_self _)) hdeep⟩
    cases hb : command.isBlock with
    | false =>
      rcases figure_of_apply hb h with hnone | ⟨distance, stroke, rfl, hfigure⟩
      · cases hnone
      · exact .inl ⟨distance, stroke, rfl, Option.some.inj hfigure⟩
    | true =>
      cases command with
      | block count body =>
        obtain ⟨members, -, ⟨-, hnone⟩ | ⟨-, hfigure⟩⟩ := figure_of_apply_block h
        · cases hnone
        · exact .inr ⟨count, body, members, rfl, Option.some.inj hfigure⟩
      | forward | turn | pen | setSize | setColor | blockEnd => cases hb

/-- **Figures mirror their commands.** A program that can be run leaves figures without an empty group at
any depth, so each of them holds a segment. They are what its commands leave one after another:
every command leaves no figure exactly if it draws no segment, and otherwise a single one, a segment
for a move and a group for a block, in which groups nest no deeper than the blocks of the command.
For a program that is read from a text that is no deeper than the deepest block. -/
theorem figures_mirror_commands {program : List Command} (h : Runnable program) (cursor : Cursor) :
    ∃ figures left, Cursor.applyAll program cursor = .ok figures left ∧
      (∀ members, .group members ∈ partsAll figures → members ≠ []) ∧
      (∀ figure ∈ figures, figure.segments ≠ []) ∧
      (∀ before command after, program = before ++ command :: after →
        ∃ drawn here figure next more, Cursor.applyAll before cursor = .ok drawn here ∧
          Cursor.apply command here = .ok figure next ∧
          Cursor.applyAll after next = .ok more left ∧
          figures = drawn ++ figure.toList ++ more ∧
          (figure = none ↔ (flatRun (unrolled command) here).drawn = []) ∧
          ∀ drawn, figure = some drawn → Depicts command drawn) ∧
      ∀ text, Parse.program? text = .ok program → ∀ figure ∈ figures, figure.nesting ≤ deepestBlock := by
  obtain ⟨figures, hrun, -⟩ := exists_applyAll (fault_flatRun h.isFlat_unroll cursor)
  obtain ⟨hfull, hdeep⟩ := growsWithin program _ _ _ hrun
  refine ⟨figures, _, hrun, hfull, fun _ => hfull.segments_ne_nil, ?_, ?_⟩
  · rintro before command after rfl
    obtain ⟨drawn, here, later, hbefore, hlater, rfl⟩ := Cursor.exists_of_applyAll_append hrun
    obtain ⟨figure, next, more, happly, hafter, rfl⟩ := Cursor.exists_of_applyAll_cons hlater
    obtain ⟨hnone, hsome⟩ := figure_of_command happly
    exact ⟨drawn, here, figure, next, more, hbefore, happly, hafter, by rw [List.append_assoc], hnone,
      hsome⟩
  · intro text hparse figure hmem
    have hnested := (Parse.program?_eq_ok.mp hparse).wellFormed.nested
    exact Nat.le_trans (nesting_le_nestingAll hmem) (Nat.le_trans hdeep hnested)

/-- A block that lifts the pen after its first stroke, a deeper one that is carried out with the pen up,
and a block of a single stroke. -/
def blinking : List Command :=
  [.block 2 [.forward 1, .pen false], .block 1 [.block 2 [.turn .left, .forward 3]],
    .block 1 [.pen true, .forward 7]]

/-- The second block leaves a figure only if it draws, and no figure is empty or too deep. -/
theorem figures_mirror_commands_blinking :
    Runnable blinking ∧
      Parse.program? "REPEAT 2 [ F 1 U ]\nREPEAT 1 [ REPEAT 2 [ L F 3 ] ]\nREPEAT 1 [ D F 7 ]" =
        .ok blinking ∧
      ∃ figures left, Cursor.applyAll blinking Canvas.standard.cursor = .ok figures left ∧
        (∀ figure ∈ figures, figure.segments ≠ [] ∧ figure.nesting ≤ deepestBlock) ∧
        ∃ drawn here figure next more,
          Cursor.applyAll [.block 2 [.forward 1, .pen false]] Canvas.standard.cursor = .ok drawn here ∧
          Cursor.apply (.block 1 [.block 2 [.turn .left, .forward 3]]) here = .ok figure next ∧
          figures = drawn ++ figure.toList ++ more ∧
          (figure = none ↔ (flatRun [.turn .left, .forward 3, .turn .left, .forward 3] here).drawn = []) := by
  have h : Runnable blinking := by decide +kernel
  have hparse :
      Parse.program? "REPEAT 2 [ F 1 U ]\nREPEAT 1 [ REPEAT 2 [ L F 3 ] ]\nREPEAT 1 [ D F 7 ]" =
        .ok blinking := by decide +kernel
  obtain ⟨figures, left, hrun, -, hsegments, hcommands, hdeep⟩ :=
    figures_mirror_commands h Canvas.standard.cursor
  obtain ⟨drawn, here, figure, next, more, hbefore, happly, -, hfigures, hnone, -⟩ :=
    hcommands [.block 2 [.forward 1, .pen false]] (.block 1 [.block 2 [.turn .left, .forward 3]])
      [.block 1 [.pen true, .forward 7]] rfl
  exact ⟨h, hparse, figures, left, hrun,
    fun figure hmem => ⟨hsegments figure hmem, hdeep _ hparse figure hmem⟩,
    drawn, here, figure, next, more, hbefore, happly, hfigures, hnone⟩

end Turtle
