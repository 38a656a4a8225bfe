import Turtle.Proofs.Execution

/-! Runs command by command. A flat run that nothing stops is the run of the program, and what it does is
said here once for each kind of command: a move takes the cursor along and draws if the pen is down,
and every other command changes one field of the cursor. Facts on runs are then inductions on flat
programs, and the commands of a kind that a run executes are counted without running anything. -/

namespace Turtle
open Command

namespace Command

/-- What a run can carry out, a body apart: distances within the limit, and no end of a block. -/
def Runs : Command → Prop
  | .forward distance => 0 ≤ distance ∧ distance ≤ largestNatural
  | .turn _ | .pen _ | .setSize _ | .setColor _ | .block _ _ => True
  | .blockEnd => False

instance : DecidablePred Runs
  | .forward _ => inferInstanceAs (Decidable (_ ∧ _))
  | .turn _ | .pen _ | .setSize _ | .setColor _ | .block _ _ => inferInstanceAs (Decidable True)
  | .blockEnd => inferInstanceAs (Decidable False)

mutual

/-- How often a run executes the commands of a kind. What stands in a block is executed in each of its
iterations; a negative count is none. -/
def executions (kind : Command → Bool) : Command → Nat
  | .block count body => count.toNat * executionsAll kind body
  | command => (kind command).toNat

def executionsAll (kind : Command → Bool) : List Command → Nat
  | [] => 0
  | command :: rest => executions kind command + executionsAll kind rest

end

@[simp] theorem executionsAll_nil (kind : Command → Bool) : executionsAll kind [] = 0 := by
  simp [executionsAll]

@[simp] theorem executionsAll_cons (kind : Command → Bool) (command : Command) (rest : List Command) :
    executionsAll kind (command :: rest) = executions kind command + executionsAll kind rest := by
  simp [executionsAll]

@[simp] theorem executions_block (kind : Command → Bool) (count : Int) (body : List Command) :
    executions kind (.block count body) = count.toNat * executionsAll kind body := by
  simp [executions]

theorem executions_of_not_block (kind : Command → Bool) {command : Command}
    (h : command.isBlock = false) : executions kind command = (kind command).toNat := by
  cases command <;> simp_all [executions, isBlock]

/-- The executions of a kind are its commands in the unrolled form. -/
theorem countP_unroll (kind : Command → Bool) (program : List Command) :
    (unroll program).countP kind = executionsAll kind program := by
  induction program using programInduction with
  | nil => simp
  | single command rest hb ih =>
    rw [unroll_cons, unrolled_of_not_block hb, executionsAll_cons, executions_of_not_block kind hb, ← ih]
    cases h : kind command <;> simp [h, Nat.add_comm]
  | block count body rest ihBody ih =>
    rw [unroll_cons, unrolled_block, executionsAll_cons, executions_block, ← ih, ← ihBody,
      List.countP_append, List.countP_flatten, List.map_replicate, List.sum_replicate_nat]

end Command

/-- A program that can be run: all of its parts can be carried out. -/
def Runnable (program : List Command) : Prop := ∀ part ∈ partsAll program, part.Runs

instance (program : List Command) : Decidable (Runnable program) :=
  inferInstanceAs (Decidable (∀ part ∈ partsAll program, part.Runs))

/-- Single commands with distances of a kind, and no end of a block. -/
inductive IsFlat (within : Int → Prop) : List Command → Prop
  | nil : IsFlat within []
  | forward {distance : Int} {rest : List Command} :
      within distance → IsFlat within rest → IsFlat within (.forward distance :: rest)
  | turn {side : Turn} {rest : List Command} : IsFlat within rest → IsFlat within (.turn side :: rest)
  | pen {down : Bool} {rest : List Command} : IsFlat within rest → IsFlat within (.pen down :: rest)
  | setSize {width : Binary64} {rest : List Command} :
      IsFlat within rest → IsFlat within (.setSize width :: rest)
  | setColor {color : Color} {rest : List Command} :
      IsFlat within rest → IsFlat within (.setColor color :: rest)

/-- A distance that every program can write. -/
def IsDistance (distance : Int) : Prop := 0 ≤ distance ∧ distance ≤ largestNatural

theorem isFlat_of_forall {within : Int → Prop} {flat : List Command}
    (h : ∀ command ∈ flat, command.isBlock = false ∧ command ≠ .blockEnd ∧
      ∀ distance, command = .forward distance → within distance) : IsFlat within flat := by
  induction flat with
  | nil => exact .nil
  | cons command rest ih =>
    obtain ⟨hb, hend, hdistance⟩ := h command List.mem_cons_self
    have hrest := ih fun c hc => h c (List.mem_cons_of_mem _ hc)
    cases command with
    | forward distance => exact .forward (hdistance _ rfl) hrest
    | turn => exact .turn hrest
    | pen => exact .pen hrest
    | setSize => exact .setSize hrest
    | setColor => exact .setColor hrest
    | block => cases hb
    | blockEnd => exact absurd rfl hend

/-- The unrolled form of a program without ends of blocks. -/
theorem isFlat_unroll_of_noEnd {program : List Command}
    (h : ∀ part ∈ partsAll program, part ≠ .blockEnd) : IsFlat (fun _ => True) (unroll program) := by
  refine isFlat_of_forall fun command hc => ?_
  obtain ⟨hmem, hb⟩ := mem_partsAll_of_mem_unroll program hc
  exact ⟨hb, h command hmem, fun _ _ => trivial⟩

theorem Runnable.isFlat_unroll {program : List Command} (h : Runnable program) :
    IsFlat IsDistance (unroll program) := by
  refine isFlat_of_forall fun command hc => ?_
  obtain ⟨hmem, hb⟩ := mem_partsAll_of_mem_unroll program hc
  have hruns := h command hmem
  refine ⟨hb, ?_, ?_⟩
  · rintro rfl
    exact hruns
  · rintro distance rfl
    exact hruns

namespace Cursor

/-- A cursor that has moved by a displacement. -/
def moved (cursor : Cursor) (step : Binary64 × Binary64) : Cursor :=
  { cursor with position := ⟨cursor.position.x + step.1, cursor.position.y + step.2⟩ }

/-- The segment that a move by a displacement draws with the pen down. -/
def strokeTo (cursor : Cursor) (step : Binary64 × Binary64) : Segment :=
  ⟨cursor.position, (cursor.moved step).position, cursor.width, cursor.color⟩

/-- What a move by a displacement draws. -/
def strokes (cursor : Cursor) (step : Binary64 × Binary64) : List Segment :=
  if cursor.penDown then [cursor.strokeTo step] else []

end Cursor

/-! One step of a flat run, for each kind of command. -/

section
variable (cursor : Cursor) (rest : List Command)

theorem flatRun_forward {distance : Int} {step : Binary64 × Binary64}
    (h : Cursor.displacement? cursor.heading distance = some step) :
    flatRun (.forward distance :: rest) cursor =
      { flatRun rest (cursor.moved step) with
        drawn := cursor.strokes step ++ (flatRun rest (cursor.moved step)).drawn } := by
  rw [flatRun, Cursor.apply, Cursor.forward, h]
  cases hpen : cursor.penDown <;>
    simp [Cursor.advance, Cursor.strokes, Cursor.strokeTo, Cursor.moved, hpen, Figure.segmentsAll,
      Figure.segments]

/-- A command that draws nothing leaves the rest to be run from where it leads. -/
theorem flatRun_of_apply {command : Command} {next : Cursor}
    (h : Cursor.apply command cursor = .ok none next) :
    flatRun (command :: rest) cursor = flatRun rest next := by
  rw [flatRun, h]
  rfl

theorem flatRun_turn (side : Turn) : flatRun (.turn side :: rest) cursor =
    flatRun rest { cursor with heading := cursor.heading.turn side } :=
  flatRun_of_apply cursor rest rfl

theorem flatRun_pen (down : Bool) : flatRun (.pen down :: rest) cursor =
    flatRun rest { cursor with penDown := down } :=
  flatRun_of_apply cursor rest rfl

theorem flatRun_setSize (width : Binary64) : flatRun (.setSize width :: rest) cursor =
    flatRun rest { cursor with width := width } :=
  flatRun_of_apply cursor rest rfl

theorem flatRun_setColor (color : Color) : flatRun (.setColor color :: rest) cursor =
    flatRun rest { cursor with color := color } :=
  flatRun_of_apply cursor rest rfl

end

/-- A flat run that nothing stops is what the program comes to. -/
theorem exists_applyAll {program : List Command} {cursor : Cursor}
    (h : (flatRun (unroll program) cursor).fault = none) :
    ∃ figures, Cursor.applyAll program cursor = .ok figures (flatRun (unroll program) cursor).cursor ∧
      Figure.segmentsAll figures = (flatRun (unroll program) cursor).drawn := by
  have hrun := mirrors_unroll program cursor
  cases hp : Cursor.applyAll program cursor with
  | error e left =>
    rw [hp] at hrun
    obtain ⟨drawn, hd⟩ := hrun
    rw [hd] at h
    cases h
  | ok figures left =>
    simp only [hp, Matches] at hrun
    rw [hrun]
    exact ⟨figures, rfl, rfl⟩

/-- Nothing stops a flat run of distances within the limit. -/
theorem fault_flatRun {flat : List Command} (h : IsFlat IsDistance flat) (cursor : Cursor) :
    (flatRun flat cursor).fault = none := by
  induction h generalizing cursor with
  | nil => rfl
  | forward hd _ ih =>
    obtain ⟨step, hstep⟩ := displacement?_of_fits hd cursor.heading
    rw [flatRun_forward cursor _ hstep]
    exact ih _
  | turn _ ih | pen _ ih | setSize _ ih | setColor _ ih =>
    simp only [flatRun_turn, flatRun_pen, flatRun_setSize, flatRun_setColor, ih]

end Turtle
