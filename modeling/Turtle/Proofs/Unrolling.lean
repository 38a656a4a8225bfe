import Turtle.Canvas.Basic
import Turtle.Proofs.Tree

/-! Unrolled programs. A block stands for its body written out once for each iteration, so
every program stands for a flat one without blocks. A flat run carries single commands out
one after another and keeps nothing but the segments, the cursor and the first fault. A run
of a program and the flat run of its unrolled form are the same run: `mirrors_unroll` is the
one induction over nested blocks, and facts on runs can be shown for flat runs instead. -/

namespace Turtle

namespace Command

mutual

/-- The single commands that a command stands for. -/
def unrolled : Command → List Command
  | .block count body => (List.replicate count.toNat (unroll body)).flatten
  | command => [command]

/-- The flat program that a program stands for. -/
def unroll : List Command → List Command
  | [] => []
  | command :: rest => unrolled command ++ unroll rest

end

@[simp] theorem unroll_nil : unroll [] = [] := by simp [unroll]

@[simp] theorem unroll_cons (command : Command) (rest : List Command) :
    unroll (command :: rest) = unrolled command ++ unroll rest := by simp [unroll]

@[simp] theorem unrolled_block (count : Int) (body : List Command) :
    unrolled (.block count body) = (List.replicate count.toNat (unroll body)).flatten := by
  simp [unrolled]

theorem unrolled_of_not_block {command : Command} (h : command.isBlock = false) :
    unrolled command = [command] := by
  cases command <;> simp_all [unrolled, isBlock]

theorem mem_flatten_replicate {α : Type} {a : α} {n : Nat} {as : List α}
    (h : a ∈ (List.replicate n as).flatten) : a ∈ as := by
  obtain ⟨copy, hc, ha⟩ := List.mem_flatten.mp h
  rwa [(List.mem_replicate.mp hc).2] at ha

/-- What is left after unrolling are the parts of the program that have no body. -/
theorem mem_partsAll_of_mem_unroll {command : Command} (program : List Command)
    (h : command ∈ unroll program) :
    command ∈ partsAll program ∧ command.isBlock = false := by
  induction program using programInduction with
  | nil => simp at h
  | single first rest hf ih =>
    rw [unroll_cons, unrolled_of_not_block hf] at h
    rw [partsAll_cons, parts_of_not_block hf]
    rcases List.mem_append.mp h with h | h
    · rw [List.mem_singleton.mp h]
      exact ⟨by simp, hf⟩
    · exact ⟨List.mem_append_right _ (ih h).1, (ih h).2⟩
  | block count body rest ihBody ih =>
    rw [unroll_cons, unrolled_block] at h
    rw [partsAll_cons, parts_block]
    rcases List.mem_append.mp h with h | h
    · obtain ⟨hp, hb⟩ := ihBody (mem_flatten_replicate h)
      exact ⟨by simp [hp], hb⟩
    · exact ⟨List.mem_append_right _ (ih h).1, (ih h).2⟩

end Command

open Command

/-- What single commands come to when they are carried out one after another: the segments
drawn, the cursor, and the fault that has stopped them. A fault leaves the cursor as the
commands before have made it. -/
structure FlatRun where
  drawn : List Segment
  cursor : Cursor
  fault : Option RunError

/-- Carries out single commands one after another. -/
def flatRun : List Command → Cursor → FlatRun
  | [], cursor => ⟨[], cursor, none⟩
  | command :: rest, cursor =>
    match Cursor.apply command cursor with
    | .error e _ => ⟨[], cursor, some e⟩
    | .ok figure left =>
      let later := flatRun rest left
      { later with drawn := Figure.segmentsAll figure.toList ++ later.drawn }

/-- A flat run of two programs is a run of the first, and of the second if nothing has
stopped the first. -/
theorem flatRun_append (first second : List Command) (cursor : Cursor) :
    flatRun (first ++ second) cursor =
      match flatRun first cursor with
      | ⟨drawn, left, none⟩ =>
        { flatRun second left with drawn := drawn ++ (flatRun second left).drawn }
      | stopped => stopped := by
  induction first generalizing cursor with
  | nil => simp [flatRun]
  | cons command rest ih =>
    simp only [List.cons_append, flatRun]
    cases Cursor.apply command cursor with
    | error e left => rfl
    | ok figure left =>
      simp only [ih left]
      obtain ⟨drawn, last, _ | e⟩ := flatRun rest left <;> simp

/-- A single command that fails leaves the cursor as it was. -/
theorem apply_error_of_not_block {command : Command} {cursor left : Cursor} {e : RunError}
    (hb : command.isBlock = false) (h : Cursor.apply command cursor = .error e left) :
    left = cursor := by
  cases command with
  | block => simp [isBlock] at hb
  | forward distance =>
    rw [Cursor.apply, Cursor.forward] at h
    cases hd : Cursor.displacement? cursor.heading distance with
    | none =>
      rw [hd] at h
      exact (EStateM.Result.error.inj h).2.symm
    | some step =>
      rw [hd] at h
      cases h
  | blockEnd =>
    rw [Cursor.apply] at h
    exact (EStateM.Result.error.inj h).2.symm
  | turn | pen | setSize | setColor =>
    rw [Cursor.apply] at h
    cases h

namespace Cursor

theorem applyAll_cons (command : Command) (rest : List Command) (cursor : Cursor) :
    applyAll (command :: rest) cursor =
      match apply command cursor with
      | .error e left => .error e left
      | .ok figure left =>
        match applyAll rest left with
        | .error e last => .error e last
        | .ok figures last => .ok (figure.toList ++ figures) last := by
  rw [applyAll]
  simp only [bind, EStateM.bind, pure, EStateM.pure]
  cases apply command cursor with
  | error e left => rfl
  | ok figure left =>
    dsimp only
    cases applyAll rest left <;> rfl

theorem applyAll_append (first second : List Command) (cursor : Cursor) :
    applyAll (first ++ second) cursor =
      match applyAll first cursor with
      | .error e left => .error e left
      | .ok figures left =>
        match applyAll second left with
        | .error e last => .error e last
        | .ok more last => .ok (figures ++ more) last := by
  induction first generalizing cursor with
  | nil =>
    simp only [List.nil_append, applyAll, pure, EStateM.pure]
    cases applyAll second cursor <;> rfl
  | cons command rest ih =>
    rw [List.cons_append, applyAll_cons, applyAll_cons]
    cases apply command cursor with
    | error e left => rfl
    | ok figure left =>
      simp only [ih left]
      cases applyAll rest left with
      | error e last => rfl
      | ok figures last =>
        dsimp only
        cases applyAll second last <;> simp

/-- A run of two programs that ends is a run of the first and a run of the second from where it led. -/
theorem exists_of_applyAll_append {first second : List Command} {cursor left : Cursor}
    {figures : List Figure} (h : applyAll (first ++ second) cursor = .ok figures left) :
    ∃ drawn mid more, applyAll first cursor = .ok drawn mid ∧
      applyAll second mid = .ok more left ∧ figures = drawn ++ more := by
  rw [applyAll_append] at h
  split at h
  · cases h
  · rename_i drawn mid hfirst
    split at h
    · cases h
    · rename_i more last hsecond
      obtain ⟨rfl, rfl⟩ := EStateM.Result.ok.inj h
      exact ⟨drawn, mid, more, hfirst, hsecond, rfl⟩

theorem exists_of_applyAll_cons {command : Command} {rest : List Command} {cursor left : Cursor}
    {figures : List Figure} (h : applyAll (command :: rest) cursor = .ok figures left) :
    ∃ figure next more, apply command cursor = .ok figure next ∧
      applyAll rest next = .ok more left ∧ figures = figure.toList ++ more := by
  rw [applyAll_cons] at h
  split at h
  · cases h
  · rename_i figure next happly
    split at h
    · cases h
    · rename_i more last hrest
      obtain ⟨rfl, rfl⟩ := EStateM.Result.ok.inj h
      exact ⟨figure, next, more, happly, hrest, rfl⟩

/-- To iterate a body is to carry out its copies, after what has been drawn before. -/
theorem iterate_applyAll (body : List Command) (times : Nat) (drawn : List Figure)
    (cursor : Cursor) :
    iterate (applyAll body) times drawn cursor =
      match applyAll (List.replicate times body).flatten cursor with
      | .error e left => .error e left
      | .ok figures left => .ok (drawn.reverse ++ figures) left := by
  induction times generalizing drawn cursor with
  | zero => simp [iterate, applyAll, pure, EStateM.pure]
  | succ times ih =>
    rw [iterate, List.replicate_succ, List.flatten_cons, applyAll_append]
    simp only [bind, EStateM.bind]
    cases applyAll body cursor with
    | error e left => rfl
    | ok more left =>
      simp only [ih]
      cases applyAll (List.replicate times body).flatten left <;> simp

/-- A block draws the group of what the copies of its body draw. -/
theorem apply_block (count : Int) (body : List Command) (cursor : Cursor) :
    apply (.block count body) cursor =
      match applyAll (List.replicate count.toNat body).flatten cursor with
      | .error e left => .error e left
      | .ok figures left => .ok (groupOf figures) left := by
  rw [apply]
  simp only [bind, EStateM.bind, iterate_applyAll, List.reverse_nil, List.nil_append]
  cases applyAll (List.replicate count.toNat body).flatten cursor <;> rfl

@[simp] theorem segmentsAll_groupOf (figures : List Figure) :
    Figure.segmentsAll (groupOf figures).toList = Figure.segmentsAll figures := by
  cases figures <;> simp [groupOf, Figure.segmentsAll, Figure.segments]

end Cursor

/-- A run comes to the same as a flat run: the same segments on success, the same fault on
failure, and the same cursor on both. -/
def Matches (run : EStateM.Result RunError Cursor (List Figure)) (flat : FlatRun) : Prop :=
  match run with
  | .ok figures left => flat = ⟨Figure.segmentsAll figures, left, none⟩
  | .error e left => ∃ drawn, flat = ⟨drawn, left, some e⟩

/-- From every cursor, a program runs as a flat program does. -/
def Mirrors (program flat : List Command) : Prop :=
  ∀ cursor, Matches (Cursor.applyAll program cursor) (flatRun flat cursor)

theorem mirrors_nil : Mirrors [] [] := fun _ => rfl

theorem Mirrors.append {first second flat more : List Command} (hf : Mirrors first flat)
    (hs : Mirrors second more) : Mirrors (first ++ second) (flat ++ more) := by
  intro cursor
  have h := hf cursor
  rw [Cursor.applyAll_append, flatRun_append]
  cases hr : Cursor.applyAll first cursor with
  | error e left =>
    rw [hr] at h
    obtain ⟨drawn, hd⟩ := h
    rw [hd]
    exact ⟨drawn, rfl⟩
  | ok figures left =>
    have h' := hs left
    simp only [hr, Matches] at h
    rw [h]
    dsimp only
    cases hr' : Cursor.applyAll second left with
    | error e last =>
      rw [hr'] at h'
      obtain ⟨drawn, hd⟩ := h'
      exact ⟨Figure.segmentsAll figures ++ drawn, by simp [hd]⟩
    | ok more last =>
      rw [hr'] at h'
      simp only [Matches] at h' ⊢
      simp [h']

theorem Mirrors.replicate {body flat : List Command} (h : Mirrors body flat) (times : Nat) :
    Mirrors (List.replicate times body).flatten (List.replicate times flat).flatten := by
  induction times with
  | zero => exact mirrors_nil
  | succ times ih =>
    simp only [List.replicate_succ, List.flatten_cons]
    exact h.append ih

theorem mirrors_single {command : Command} (h : command.isBlock = false) :
    Mirrors [command] [command] := by
  intro cursor
  rw [Cursor.applyAll_cons]
  simp only [flatRun]
  cases happ : Cursor.apply command cursor with
  | error e left =>
    obtain rfl := apply_error_of_not_block h happ
    exact ⟨[], rfl⟩
  | ok figure left => simp [Matches, Cursor.applyAll, pure, EStateM.pure]

theorem mirrors_block {body flat : List Command} (count : Int) (h : Mirrors body flat) :
    Mirrors [.block count body] (List.replicate count.toNat flat).flatten := by
  intro cursor
  have h' := h.replicate count.toNat cursor
  rw [Cursor.applyAll_cons, Cursor.apply_block]
  cases hr : Cursor.applyAll (List.replicate count.toNat body).flatten cursor with
  | error e left => rwa [hr] at h'
  | ok figures left =>
    rw [hr] at h'
    simpa [Matches, Cursor.applyAll, pure, EStateM.pure] using h'

/-- Every program runs as its unrolled form does. -/
theorem mirrors_unroll (program : List Command) : Mirrors program (unroll program) := by
  induction program using programInduction with
  | nil => exact mirrors_nil
  | single command rest hc ih =>
    rw [unroll_cons, unrolled_of_not_block hc]
    exact (mirrors_single hc).append ih
  | block count body rest ihBody ih =>
    rw [unroll_cons, unrolled_block]
    exact (mirrors_block count ihBody).append ih

end Turtle
