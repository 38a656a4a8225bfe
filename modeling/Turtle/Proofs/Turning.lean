import Turtle.Proofs.FlatRuns
import Turtle.Proofs.WholeNumbers

/-! Turned drawings. A run knows nothing of where it starts and which way is north: from a cursor that is
turned by quarter turns it goes the same way turned, as long as all coordinates are whole and small
enough for their sums to be exact. The invariant of two such runs is that the offsets from their
starts differ by those quarter turns. Each iteration of a body is such a run from where the one
before has led, so the offsets of four iterations cancel unless the body turns by full circles. -/

namespace Turtle
open Command

/-- An offset after a quarter turn to the left. The second axis points down. -/
def quarterTurn (v : Int × Int) : Int × Int := (v.2, -v.1)

theorem quarterTurn_add (v w : Int × Int) : quarterTurn (v + w) = quarterTurn v + quarterTurn w := by
  ext
  · rfl
  · exact Int.neg_add

theorem quarterTurn_zero : quarterTurn 0 = 0 := rfl

theorem iterate_quarterTurn_add (k : Nat) (v w : Int × Int) :
    quarterTurn^[k] (v + w) = quarterTurn^[k] v + quarterTurn^[k] w := by
  induction k with
  | zero => rfl
  | succ k ih => rw [Function.iterate_succ_apply', Function.iterate_succ_apply',
      Function.iterate_succ_apply', ih, quarterTurn_add]

theorem iterate_quarterTurn_zero (k : Nat) : quarterTurn^[k] 0 = 0 :=
  Function.iterate_fixed quarterTurn_zero k

theorem iterate_quarterTurn_mod (k : Nat) (v : Int × Int) :
    quarterTurn^[k] v = quarterTurn^[k % 4] v := by
  have hcircle : quarterTurn^[4] = id := by
    funext v
    simp [quarterTurn]
  conv_lhs => rw [← Nat.mod_add_div k 4, Function.iterate_add_apply, Function.iterate_mul, hcircle]
  rw [Function.iterate_id, id_eq]

namespace Heading

/-- The offset of a move along a heading. -/
def offset (heading : Heading) (distance : Int) : Int × Int :=
  (distance * heading.unit.1, distance * heading.unit.2)

theorem offset_turn_left (heading : Heading) (distance : Int) :
    (heading.turn .left).offset distance = quarterTurn (heading.offset distance) := by
  cases heading <;> simp [offset, unit, turn, quarterTurn]

/-- A heading that is turned leads to the offset that is turned. -/
theorem offset_iterate_turn (k : Nat) (heading : Heading) (distance : Int) :
    ((turn .left)^[k] heading).offset distance = quarterTurn^[k] (heading.offset distance) := by
  induction k with
  | zero => rfl
  | succ k ih => rw [Function.iterate_succ_apply', Function.iterate_succ_apply', offset_turn_left, ih]

/-- To turn right is to turn left three times. -/
theorem turn_right_eq (heading : Heading) : turn .right heading = (turn .left)^[3] heading := by
  cases heading <;> rfl

theorem turn_comm (side : Turn) (heading : Heading) :
    turn side (turn .left heading) = turn .left (turn side heading) := by
  cases side <;> cases heading <;> rfl

theorem turn_iterate_comm (side : Turn) (k : Nat) (heading : Heading) :
    turn side ((turn .left)^[k] heading) = (turn .left)^[k] (turn side heading) := by
  induction k with
  | zero => rfl
  | succ k ih => rw [Function.iterate_succ_apply', Function.iterate_succ_apply', turn_comm, ih]

/-- Four quarter turns are none. -/
theorem iterate_turn_four (k : Nat) (heading : Heading) : (turn .left)^[4 * k] heading = heading := by
  have hcircle : (turn .left)^[4] = id := by
    funext heading
    cases heading <;> rfl
  rw [Function.iterate_mul, hcircle, Function.iterate_id, id_eq]

end Heading

/-- A point with whole coordinates. -/
def Point.IsAt (point : Point) (place : Int × Int) : Prop :=
  point.x.IsInteger place.1 ∧ point.y.IsInteger place.2

instance (point : Point) (place : Int × Int) : Decidable (point.IsAt place) :=
  inferInstanceAs (Decidable (_ ∧ _))

theorem Point.IsAt.unique {point : Point} {place place' : Int × Int} (h : point.IsAt place)
    (h' : point.IsAt place') : place = place' :=
  Prod.ext (h.1.unique h'.1) (h.2.unique h'.2)

/-- A point with both coordinates below `2 ^ 53` in magnitude. -/
def Point.IsNear (point : Point) : Prop := point.x.IsNear ∧ point.y.IsNear

instance (point : Point) : Decidable point.IsNear := inferInstanceAs (Decidable (_ ∧ _))

/-- Single commands that are all carried out, and at coordinates below `2 ^ 53` in magnitude only. A
distance beyond the range of numbers leads nowhere near. -/
def StaysNear : List Command → Cursor → Prop
  | [], cursor => cursor.position.IsNear
  | command :: rest, cursor => cursor.position.IsNear ∧
    ∃ figure next, Cursor.apply command cursor = .ok figure next ∧ StaysNear rest next

instance StaysNear.decidable :
    (flat : List Command) → (cursor : Cursor) → Decidable (StaysNear flat cursor)
  | [], cursor => inferInstanceAs (Decidable cursor.position.IsNear)
  | command :: rest, cursor =>
    match h : Cursor.apply command cursor with
    | .error _ _ => isFalse (by simp [StaysNear, h])
    | .ok _ next =>
      have := StaysNear.decidable rest next
      decidable_of_iff (cursor.position.IsNear ∧ StaysNear rest next) (by simp [StaysNear, h])

/-- Two points are as far from two origins, but for quarter turns. -/
def TurnedAbout (k : Nat) (origin origin' : Int × Int) (point point' : Point) : Prop :=
  ∃ place place', point.IsAt place ∧ point'.IsAt place' ∧
    place' - origin' = quarterTurn^[k] (place - origin)

/-- Two segments of one style are turned about two origins. -/
structure TurnedSegment (k : Nat) (origin origin' : Int × Int) (segment segment' : Segment) : Prop where
  start : TurnedAbout k origin origin' segment.start segment'.start
  finish : TurnedAbout k origin origin' segment.finish segment'.finish
  width : segment'.width = segment.width
  color : segment'.color = segment.color

/-- Two cursors are turned about two origins, whatever their pens and styles. -/
structure TurnedCursor (k : Nat) (origin origin' : Int × Int) (a b : Cursor) : Prop where
  position : TurnedAbout k origin origin' a.position b.position
  heading : b.heading = (Heading.turn .left)^[k] a.heading

/-- Two cursors draw alike. -/
structure SameStyle (a b : Cursor) : Prop where
  penDown : b.penDown = a.penDown
  width : b.width = a.width
  color : b.color = a.color

section
variable {command : Command} {flat rest : List Command} {cursor : Cursor}

theorem StaysNear.near (h : StaysNear flat cursor) : cursor.position.IsNear := by
  cases flat with
  | nil => exact h
  | cons => exact h.1

theorem StaysNear.forward {distance : Int} (h : StaysNear (.forward distance :: rest) cursor) :
    ∃ step, Cursor.displacement? cursor.heading distance = some step ∧
      StaysNear rest (cursor.moved step) := by
  obtain ⟨-, figure, next, happly, hrest⟩ := h
  rw [Cursor.apply, Cursor.forward] at happly
  cases hstep : Cursor.displacement? cursor.heading distance with
  | none =>
    rw [hstep] at happly
    cases happly
  | some step =>
    rw [hstep] at happly
    obtain ⟨-, rfl⟩ := EStateM.Result.ok.inj happly
    exact ⟨step, rfl, hrest⟩

/-- A command that is carried out leaves the rest to be run from where it leads. -/
theorem StaysNear.step {figure : Option Figure} {next : Cursor} (h : StaysNear (command :: rest) cursor)
    (happly : Cursor.apply command cursor = .ok figure next) : StaysNear rest next := by
  obtain ⟨-, figure', next', happly', hrest⟩ := h
  obtain ⟨-, rfl⟩ := EStateM.Result.ok.inj (happly.symm.trans happly')
  exact hrest

/-- Nothing stops the run. -/
theorem StaysNear.fault (h : StaysNear flat cursor) : (flatRun flat cursor).fault = none := by
  induction flat generalizing cursor with
  | nil => rfl
  | cons command rest ih =>
    obtain ⟨-, figure, next, happly, hrest⟩ := h
    rw [flatRun, happly]
    exact ih hrest

/-- Where the first part of a run leads, the second part begins. -/
theorem StaysNear.append {first second : List Command} (h : StaysNear (first ++ second) cursor) :
    StaysNear first cursor ∧ StaysNear second (flatRun first cursor).cursor := by
  induction first generalizing cursor with
  | nil => exact ⟨h.near, h⟩
  | cons command rest ih =>
    obtain ⟨hnear, figure, next, happly, hrest⟩ := h
    obtain ⟨hfirst, hsecond⟩ := ih hrest
    rw [flatRun, happly]
    exact ⟨⟨hnear, figure, next, happly, hfirst⟩, hsecond⟩

/-- A move between places near zero leads from whole coordinates to whole coordinates. -/
theorem Point.IsAt.moved {place : Int × Int} {distance : Int} {step : Binary64 × Binary64}
    (h : cursor.position.IsAt place) (hnear : cursor.position.IsNear)
    (hstep : Cursor.displacement? cursor.heading distance = some step)
    (hnext : (cursor.moved step).position.IsNear) :
    (cursor.moved step).position.IsAt
      (place + cursor.heading.offset (Binary64.nearInteger distance)) := by
  obtain ⟨hx, hy⟩ := natAbs_unit_le cursor.heading
  obtain ⟨dx, dy⟩ := step
  simp only [Cursor.displacement?, Option.bind_eq_bind, Option.bind_eq_some_iff, Option.pure_def,
    Option.some.injEq, Prod.mk.injEq] at hstep
  obtain ⟨dx', hdx, dy', hdy, rfl, rfl⟩ := hstep
  have hatX := h.1.add_ofInt? hnear.1 hdx hnext.1
  have hatY := h.2.add_ofInt? hnear.2 hdy hnext.2
  rw [Binary64.nearInteger_mul _ hx] at hatX
  rw [Binary64.nearInteger_mul _ hy] at hatY
  exact ⟨hatX, hatY⟩

end

section
variable {k : Nat} {origin origin' : Int × Int} {a b : Cursor} {flat : List Command}

theorem TurnedCursor.turned (h : TurnedCursor k origin origin' a b) (side : Turn) :
    TurnedCursor k origin origin' { a with heading := a.heading.turn side }
      { b with heading := b.heading.turn side } :=
  ⟨h.position, (congrArg (Heading.turn side) h.heading).trans (Heading.turn_iterate_comm side k _)⟩

/-- A move takes both cursors along, each in its own heading. -/
theorem TurnedCursor.moved {distance : Int} {step step' : Binary64 × Binary64}
    (h : TurnedCursor k origin origin' a b)
    (ha : a.position.IsNear) (hstep : Cursor.displacement? a.heading distance = some step)
    (ha' : (a.moved step).position.IsNear)
    (hb : b.position.IsNear) (hstep' : Cursor.displacement? b.heading distance = some step')
    (hb' : (b.moved step').position.IsNear) :
    TurnedCursor k origin origin' (a.moved step) (b.moved step') := by
  obtain ⟨⟨place, place', hat, hat', hplace⟩, hheading⟩ := h
  refine ⟨⟨_, _, hat.moved ha hstep ha', hat'.moved hb hstep' hb', ?_⟩, hheading⟩
  rw [hheading, Heading.offset_iterate_turn, add_sub_right_comm, hplace, ← iterate_quarterTurn_add,
    add_sub_right_comm]

/-- What a move draws. -/
theorem TurnedCursor.strokes {step step' : Binary64 × Binary64} (h : TurnedCursor k origin origin' a b)
    (hnext : TurnedCursor k origin origin' (a.moved step) (b.moved step')) (hstyle : SameStyle a b) :
    List.Forall₂ (TurnedSegment k origin origin') (a.strokes step) (b.strokes step') := by
  rw [Cursor.strokes, Cursor.strokes, hstyle.penDown]
  split
  · exact .cons ⟨h.position, hnext.position, hstyle.width, hstyle.color⟩ .nil
  · exact .nil

/-- **Run lemma.** Two cursors that are turned about two origins are so after a run, and if they begin
with one pen and style, what they draw is. -/
theorem TurnedCursor.flatRun (hflat : IsFlat (fun _ => True) flat)
    (h : TurnedCursor k origin origin' a b) (ha : StaysNear flat a) (hb : StaysNear flat b) :
    TurnedCursor k origin origin' (flatRun flat a).cursor (flatRun flat b).cursor ∧
      (SameStyle a b → List.Forall₂ (TurnedSegment k origin origin') (Turtle.flatRun flat a).drawn
        (Turtle.flatRun flat b).drawn) := by
  induction hflat generalizing a b with
  | nil => exact ⟨h, fun _ => .nil⟩
  | forward _ _ ih =>
    obtain ⟨step, hstep, harest⟩ := ha.forward
    obtain ⟨step', hstep', hbrest⟩ := hb.forward
    have hnext := h.moved ha.near hstep harest.near hb.near hstep' hbrest.near
    obtain ⟨hcursor, hdrawn⟩ := ih hnext harest hbrest
    rw [flatRun_forward a _ hstep, flatRun_forward b _ hstep']
    exact ⟨hcursor, fun hs =>
      List.rel_append (h.strokes hnext hs) (hdrawn ⟨hs.penDown, hs.width, hs.color⟩)⟩
  | turn _ ih =>
    obtain ⟨hcursor, hdrawn⟩ := ih (h.turned _) (ha.step rfl) (hb.step rfl)
    rw [flatRun_turn, flatRun_turn]
    exact ⟨hcursor, fun hs => hdrawn ⟨hs.penDown, hs.width, hs.color⟩⟩
  | @pen down _ _ ih =>
    have hnext : TurnedCursor k origin origin' { a with penDown := down } { b with penDown := down } :=
      ⟨h.position, h.heading⟩
    obtain ⟨hcursor, hdrawn⟩ := ih hnext (ha.step rfl) (hb.step rfl)
    rw [flatRun_pen, flatRun_pen]
    exact ⟨hcursor, fun hs => hdrawn ⟨rfl, hs.width, hs.color⟩⟩
  | @setSize width _ _ ih =>
    have hnext : TurnedCursor k origin origin' { a with width := width } { b with width := width } :=
      ⟨h.position, h.heading⟩
    obtain ⟨hcursor, hdrawn⟩ := ih hnext (ha.step rfl) (hb.step rfl)
    rw [flatRun_setSize, flatRun_setSize]
    exact ⟨hcursor, fun hs => hdrawn ⟨hs.penDown, rfl, hs.color⟩⟩
  | @setColor color _ _ ih =>
    have hnext : TurnedCursor k origin origin' { a with color := color } { b with color := color } :=
      ⟨h.position, h.heading⟩
    obtain ⟨hcursor, hdrawn⟩ := ih hnext (ha.step rfl) (hb.step rfl)
    rw [flatRun_setColor, flatRun_setColor]
    exact ⟨hcursor, fun hs => hdrawn ⟨hs.penDown, hs.width, rfl⟩⟩

theorem TurnedCursor.of_isAt (ha : a.position.IsAt origin) (hb : b.position.IsAt origin')
    (hheading : b.heading = (Heading.turn .left)^[k] a.heading) :
    TurnedCursor k origin origin' a b := by
  refine ⟨⟨origin, origin', ha, hb, ?_⟩, hheading⟩
  rw [sub_self, sub_self, iterate_quarterTurn_zero]

end

namespace Command

/-- Whether a command turns to a side. -/
def turnsTo (side : Turn) : Command → Bool
  | .turn other => other == side
  | _ => false

/-- The quarter turns to the left that a run executes, less those to the right. -/
def netTurn (program : List Command) : Int :=
  executionsAll (turnsTo .left) program - executionsAll (turnsTo .right) program

/-- The turns of single commands, each of them to the left. -/
def leftTurns (flat : List Command) : Nat :=
  flat.countP (turnsTo .left) + 3 * flat.countP (turnsTo .right)

theorem leftTurns_cons_of_not_turn {command : Command} (h : ∀ side, turnsTo side command = false)
    (rest : List Command) : leftTurns (command :: rest) = leftTurns rest := by
  simp [leftTurns, h]

theorem leftTurns_left (rest : List Command) :
    leftTurns (.turn .left :: rest) = leftTurns rest + 1 := by
  simp [leftTurns, turnsTo]
  omega

theorem leftTurns_right (rest : List Command) :
    leftTurns (.turn .right :: rest) = leftTurns rest + 3 := by
  simp [leftTurns, turnsTo]
  omega

theorem leftTurns_unroll_mod {program : List Command} (h : ¬ (4 : Int) ∣ netTurn program) :
    leftTurns (unroll program) % 4 ≠ 0 := by
  rw [leftTurns, countP_unroll, countP_unroll]
  rw [netTurn] at h
  omega

end Command

section
variable {flat : List Command} {cursor : Cursor}

/-- A flat run that nothing stops turns the cursor by its turns, wherever it begins. -/
theorem heading_flatRun {within : Int → Prop} (hflat : IsFlat within flat)
    (h : (flatRun flat cursor).fault = none) :
    (flatRun flat cursor).cursor.heading = (Heading.turn .left)^[leftTurns flat] cursor.heading := by
  induction hflat generalizing cursor with
  | nil => rfl
  | @forward distance rest _ _ ih =>
    cases hstep : Cursor.displacement? cursor.heading distance with
    | none =>
      rw [flatRun, Cursor.apply, Cursor.forward, hstep] at h
      cases h
    | some step =>
      rw [flatRun_forward cursor rest hstep] at h ⊢
      rw [leftTurns_cons_of_not_turn fun _ => rfl]
      exact ih h
  | @turn side rest _ ih =>
    rw [flatRun_turn] at h ⊢
    rw [ih h]
    cases side with
    | left => rw [leftTurns_left, Function.iterate_succ_apply]
    | right => rw [leftTurns_right, Function.iterate_add_apply, ← Heading.turn_right_eq]
  | pen _ ih =>
    rw [flatRun_pen] at h ⊢
    rw [leftTurns_cons_of_not_turn fun _ => rfl]
    exact ih h
  | setSize _ ih =>
    rw [flatRun_setSize] at h ⊢
    rw [leftTurns_cons_of_not_turn fun _ => rfl]
    exact ih h
  | setColor _ ih =>
    rw [flatRun_setColor] at h ⊢
    rw [leftTurns_cons_of_not_turn fun _ => rfl]
    exact ih h

theorem StaysNear.cursor_append {first second : List Command} (h : StaysNear first cursor) :
    (flatRun (first ++ second) cursor).cursor =
      (flatRun second (flatRun first cursor).cursor).cursor := by
  have hfault := h.fault
  rw [flatRun_append]
  cases hrun : flatRun first cursor with
  | mk drawn left fault =>
    rw [hrun] at hfault
    obtain rfl : fault = none := hfault
    rfl

/-- The iterations of a body add up offsets of which each is the first one turned. -/
theorem StaysNear.copies (hflat : IsFlat (fun _ => True) flat) {origin v : Int × Int}
    (hat : cursor.position.IsAt origin) (hfirst : StaysNear flat cursor)
    (hv : (flatRun flat cursor).cursor.position.IsAt (origin + v)) (n : Nat)
    (h : StaysNear (List.replicate n flat).flatten cursor) :
    (flatRun (List.replicate n flat).flatten cursor).cursor.position.IsAt
        (origin + ∑ i ∈ Finset.range n, quarterTurn^[leftTurns flat * i] v) ∧
      (flatRun (List.replicate n flat).flatten cursor).cursor.heading =
        (Heading.turn .left)^[leftTurns flat * n] cursor.heading := by
  induction n with
  | zero => simpa [flatRun] using hat
  | succ n ih =>
    rw [List.replicate_succ', List.flatten_append, List.flatten_singleton] at h ⊢
    obtain ⟨hbefore, hlast⟩ := h.append
    obtain ⟨hplace, hheading⟩ := ih hbefore
    obtain ⟨⟨⟨place, place', hp, hp', hoffset⟩, -⟩, -⟩ :=
      (TurnedCursor.of_isAt hat hplace hheading).flatRun hflat hfirst hlast
    obtain rfl := hp.unique hv
    rw [add_sub_cancel_left, sub_eq_iff_eq_add'] at hoffset
    rw [hbefore.cursor_append, heading_flatRun hflat hlast.fault, hheading, ← Function.iterate_add_apply,
      Finset.sum_range_succ, ← add_assoc, ← hoffset, Nat.mul_succ, Nat.add_comm]
    exact ⟨hp', rfl⟩

end

/-- Four offsets of which each is turned against the one before cancel, unless they are not turned. -/
theorem sum_iterate_quarterTurn {t : Nat} (ht : t % 4 ≠ 0) (v : Int × Int) :
    ∑ i ∈ Finset.range 4, quarterTurn^[t * i] v = 0 := by
  have hterm (i : Nat) : quarterTurn^[t * i] v = quarterTurn^[t % 4 * i % 4] v := by
    rw [iterate_quarterTurn_mod, ← Nat.mod_mul_mod]
  obtain ⟨x, y⟩ := v
  simp only [hterm, Finset.sum_range_succ, Finset.sum_range_zero]
  obtain h | h | h : t % 4 = 1 ∨ t % 4 = 2 ∨ t % 4 = 3 := by omega
  all_goals
    simp only [h, quarterTurn, Function.iterate_succ, Function.iterate_zero, Function.comp_apply, id_eq,
      Nat.reduceMul, Nat.reduceMod, Prod.mk_add_mk, Prod.mk_eq_zero, zero_add, neg_neg]
    omega

/-- A block of four iterations that do not turn by full circles comes back to where it has begun. -/
theorem StaysNear.returns {flat : List Command} {cursor : Cursor} {origin : Int × Int}
    (hflat : IsFlat (fun _ => True) flat) (hturn : leftTurns flat % 4 ≠ 0)
    (hat : cursor.position.IsAt origin) (h : StaysNear (List.replicate 4 flat).flatten cursor) :
    (flatRun (List.replicate 4 flat).flatten cursor).cursor.position.IsAt origin ∧
      (flatRun (List.replicate 4 flat).flatten cursor).cursor.heading = cursor.heading := by
  have hfirst : StaysNear flat cursor := by
    rw [List.replicate_succ, List.flatten_cons] at h
    exact h.append.1
  obtain ⟨⟨⟨_, place, _, hplace, -⟩, -⟩, -⟩ :=
    (TurnedCursor.of_isAt (k := 0) hat hat rfl).flatRun hflat hfirst hfirst
  have hv : (flatRun flat cursor).cursor.position.IsAt (origin + (place - origin)) := by
    rwa [add_sub_cancel]
  obtain ⟨hend, hheading⟩ := hfirst.copies hflat hat hv 4 h
  rw [sum_iterate_quarterTurn hturn, add_zero] at hend
  rw [Nat.mul_comm, Heading.iterate_turn_four] at hheading
  exact ⟨hend, hheading⟩

/-- **A run turns with its start.** Take a program without an end of a block and two cursors of one pen and
style, the heading of the second turned left `k` times against the first, at whole coordinates and so
that both runs keep to coordinates below `2 ^ 53`, where sums are exact. Both draw the same number of
segments, of the same widths and colours, and end at headings that differ by the same `k` turns; all
ends of segments and the place that is reached are, seen from where each run began, the same but for
`k` quarter turns. Therefore four iterations of a body that does not turn by full circles come back to
where they have begun, and to the same heading. -/
theorem runs_turn_with_start {program : List Command}
    (hend : ∀ part ∈ partsAll program, part ≠ .blockEnd) :
    (∀ k origin origin' (first second : Cursor), SameStyle first second →
      second.heading = (Heading.turn .left)^[k] first.heading →
      first.position.IsAt origin → second.position.IsAt origin' →
      StaysNear (unroll program) first → StaysNear (unroll program) second →
      ∃ figures left figures' left', Cursor.applyAll program first = .ok figures left ∧
        Cursor.applyAll program second = .ok figures' left' ∧
        List.Forall₂ (TurnedSegment k origin origin') (Figure.segmentsAll figures)
          (Figure.segmentsAll figures') ∧
        TurnedCursor k origin origin' left left') ∧
    (¬ (4 : Int) ∣ netTurn program → ∀ (cursor : Cursor) origin, cursor.position.IsAt origin →
      StaysNear (unroll [.block 4 program]) cursor →
      ∃ figures left, Cursor.applyAll [.block 4 program] cursor = .ok figures left ∧
        left.position.IsAt origin ∧ left.heading = cursor.heading) := by
  have hflat := isFlat_unroll_of_noEnd hend
  constructor
  · intro k origin origin' first second hstyle hheading hat hat' hnear hnear'
    obtain ⟨figures, hrun, hdrawn⟩ := exists_applyAll hnear.fault
    obtain ⟨figures', hrun', hdrawn'⟩ := exists_applyAll hnear'.fault
    obtain ⟨hcursor, hturned⟩ :=
      (TurnedCursor.of_isAt hat hat' hheading).flatRun hflat hnear hnear'
    refine ⟨figures, _, figures', _, hrun, hrun', ?_, hcursor⟩
    rw [hdrawn, hdrawn']
    exact hturned hstyle
  · intro hturn cursor origin hat hnear
    obtain ⟨figures, hrun, -⟩ := exists_applyAll hnear.fault
    have hcopies : unroll [.block 4 program] = (List.replicate 4 (unroll program)).flatten := by
      rw [unroll_cons, unrolled_block, unroll_nil, List.append_nil]
      rfl
    rw [hcopies] at hnear hrun
    obtain ⟨hplace, hheading⟩ := hnear.returns hflat (leftTurns_unroll_mod hturn) hat
    exact ⟨figures, _, hrun, hplace, hheading⟩

/-- A stroke, three turns to the left in a block of their own, and a move with the pen up. -/
def hook : List Command := [.forward 30, .block 3 [.turn .left], .pen false, .forward 10, .pen true]

/-- The same style at another place, the other way round. -/
def turnedStart : Cursor :=
  { Canvas.standard.cursor with position := ⟨.ofNat 7, .ofNat 320⟩, heading := .west }

/-- From the middle of the standard canvas and from a place to the left of it. -/
theorem runs_turn_with_start_hook :
    (∀ part ∈ partsAll hook, part ≠ .blockEnd) ∧ ∃ figures left figures' left',
      Cursor.applyAll hook Canvas.standard.cursor = .ok figures left ∧
      Cursor.applyAll hook turnedStart = .ok figures' left' ∧
      List.Forall₂ (TurnedSegment 2 (320, 320) (7, 320)) (Figure.segmentsAll figures)
        (Figure.segmentsAll figures') ∧
      left'.heading = (Heading.turn .left)^[2] left.heading ∧
      ∃ all last, Cursor.applyAll [.block 4 hook] Canvas.standard.cursor = .ok all last ∧
        last.position.IsAt (320, 320) ∧ last.heading = .east := by
  have hend : ∀ part ∈ partsAll hook, part ≠ .blockEnd := by decide +kernel
  have hstyle (cursor : Cursor) : SameStyle cursor
    { cursor with position := ⟨.ofNat 7, .ofNat 320⟩, heading := .west } := ⟨rfl, rfl, rfl⟩
  have hat : Canvas.standard.cursor.position.IsAt (320, 320) := by decide +kernel
  have hat' : turnedStart.position.IsAt (7, 320) := by decide +kernel
  have hnear : StaysNear (unroll hook) Canvas.standard.cursor := by decide +kernel
  have hnear' : StaysNear (unroll hook) turnedStart := by decide +kernel
  have hnearAll : StaysNear (unroll [.block 4 hook]) Canvas.standard.cursor := by decide +kernel
  have hturn : ¬ (4 : Int) ∣ netTurn hook := by decide +kernel
  obtain ⟨hrelated, hreturns⟩ := runs_turn_with_start hend
  obtain ⟨figures, left, figures', left', hrun, hrun', hdrawn, hturned⟩ :=
    hrelated 2 _ _ _ turnedStart (hstyle _) rfl hat hat' hnear hnear'
  exact ⟨hend, figures, left, figures', left', hrun, hrun', hdrawn, hturned.heading,
    hreturns hturn _ _ hat hnearAll⟩

end Turtle
