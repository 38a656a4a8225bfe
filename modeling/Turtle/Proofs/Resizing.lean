import Mathlib.Data.List.Basic
import Turtle.Proofs.Description
import Turtle.Proofs.Job

/-! A size on the command line against a size in the description. Both give the same canvas but for
its start: a start that leaves a coordinate out is completed when the description is read, so
it lies in the middle of the described canvas and stays there when the size changes. A
start that is left out as a whole is the middle of the canvas as it is in the end. -/

namespace Turtle.CommandLine
open Json (Value member?)
open Description

/-- A setting that can stand for a length: none, or a number above zero. -/
def Setting.IsSize : Setting Binary64 → Prop
  | .unset => True
  | .blank => False
  | .value x => x.isPositive = true

/-- The length of a setting, or another if it has none. -/
def Setting.sizeOr (other : Binary64) : Setting Binary64 → Binary64
  | .unset | .blank => other
  | .value x => x

/-- A setting as an entry of a description. -/
def Setting.members (name : String) : Setting Binary64 → List (String × Value)
  | .unset | .blank => []
  | .value x => [(name, .number x)]

/-- A description whose size is replaced by the size in settings. -/
def Settings.sized (settings : Settings) (members : List (String × Value)) :
    List (String × Value) :=
  members ++ settings.width.members "width" ++ settings.height.members "height"

/-- A description has a start without a coordinate of a name. -/
def LeavesOut (members : List (String × Value)) (name : String) : Prop :=
  ∃ start, member? "start" members = some (.object start) ∧ member? name start = none

variable {α : Type} {members : List (String × Value)} {name : String} {settings : Settings}
  {canvas : Canvas}

theorem member?_append_members {other : String} (hne : name ≠ other) (setting : Setting Binary64) :
    member? name (members ++ setting.members other) = member? name members := by
  cases setting with
  | unset | blank => rw [Setting.members, List.append_nil]
  | value x =>
    have hother : (name == other) = false := beq_false_of_ne hne
    simp [Setting.members, member?, List.lookup_cons, hother]

/-- A replaced size does not concern the other entries. -/
theorem entry_sized (hwidth : name ≠ "width") (hheight : name ≠ "height")
    (readEntry : Value → Except CanvasError α) (absent : α) :
    entry (settings.sized members) name readEntry absent = entry members name readEntry absent := by
  rw [entry, Settings.sized, member?_append_members hheight, member?_append_members hwidth, entry]

theorem entry_members {path : String} {absent x : Binary64} (setting : Setting Binary64)
    (h : entry members name (number path) absent = .ok x) :
    entry (members ++ setting.members name) name (number path) absent = .ok (setting.sizeOr x) := by
  cases setting with
  | unset | blank =>
    rw [Setting.members, List.append_nil]
    exact h
  | value y =>
    rw [entry, Setting.members, Json.member?_append_self]
    rfl

theorem override_eq_ok {option : String} {setting : Setting Binary64} (h : setting.IsSize)
    (x : Binary64) : override option x setting = .ok (setting.sizeOr x) := by
  cases setting with
  | unset => rfl
  | blank => exact h.elim
  | value y => exact if_pos h

theorem isPositive_sizeOr {setting : Setting Binary64} {x : Binary64} (h : setting.IsSize)
    (hx : x.isPositive = true) : (setting.sizeOr x).isPositive = true := by
  cases setting with
  | unset | blank => exact hx
  | value y => exact h

/-- A canvas with the size of settings in place of its own. -/
def Settings.resized (settings : Settings) (canvas : Canvas) : Canvas :=
  { canvas with
    width := settings.width.sizeOr canvas.width
    height := settings.height.sizeOr canvas.height }

theorem resize_eq_ok (canvas : Canvas) (hwidth : settings.width.IsSize) (hheight : settings.height.IsSize) :
    resize settings canvas = .ok (settings.resized canvas) := by
  rw [resize, override_eq_ok hwidth, override_eq_ok hheight]
  rfl

theorem size_sized {width height : Binary64} (hwidth : settings.width.IsSize)
    (hheight : settings.height.IsSize) (h : size members = .ok (width, height)) :
    size (settings.sized members) =
      .ok (settings.width.sizeOr width, settings.height.sizeOr height) := by
  obtain ⟨hw, hh, hpw, hph⟩ := size_eq_ok.mp h
  refine size_eq_ok.mpr ⟨?_, ?_, isPositive_sizeOr hwidth hpw, isPositive_sizeOr hheight hph⟩
  · rw [entry, Settings.sized, member?_append_members (by decide)]
    exact entry_members settings.width hw
  · refine entry_members settings.height ?_
    rw [entry, member?_append_members (by decide)]
    exact hh

/-- A start that is read with one size is read with another: a coordinate that it leaves out is
in the middle, and the others are the same. -/
theorem exists_startOf {width height : Binary64} {v : Value} {point : Point}
    (h : startOf width height v = .ok point) (width' height' : Binary64) :
    ∃ start point', v = .object start ∧ startOf width' height' v = .ok point' ∧
      (member? "x" start = none → point.x = width.half ∧ point'.x = width'.half) ∧
      (member? "x" start ≠ none → point'.x = point.x) ∧
      (member? "y" start = none → point.y = height.half ∧ point'.y = height'.half) ∧
      (member? "y" start ≠ none → point'.y = point.y) := by
  obtain ⟨start, rfl, hx, hy⟩ := startOf_eq_ok.mp h
  obtain ⟨x, hx', hmiddleX, hsameX⟩ := exists_entry hx (b := width'.half)
  obtain ⟨y, hy', hmiddleY, hsameY⟩ := exists_entry hy (b := height'.half)
  exact ⟨start, ⟨x, y⟩, rfl, startOf_eq_ok.mpr ⟨start, rfl, hx', hy'⟩, hmiddleX, hsameX, hmiddleY,
    hsameY⟩

theorem leavesOut_iff {start : List (String × Value)}
    (h : member? "start" members = some (.object start)) :
    LeavesOut members name ↔ member? name start = none := by
  constructor
  · rintro ⟨other, hother, hnone⟩
    rw [h] at hother
    obtain rfl := Value.object.inj (Option.some.inj hother)
    exact hnone
  · intro hnone
    exact ⟨start, h, hnone⟩

theorem startPoint_of_none (canvas : Canvas) (h : canvas.start = none) :
    canvas.startPoint = ⟨canvas.width.half, canvas.height.half⟩ := by
  rw [Canvas.startPoint, h]
  rfl

theorem startPoint_of_some (canvas : Canvas) {point : Point} (h : canvas.start = some point) :
    canvas.startPoint = point := by
  rw [Canvas.startPoint, h]
  rfl

/-- The canvas of a description with another size, by the start that this size gives. -/
theorem ofValue_sized (h : Canvas.ofValue (.object members) = .ok canvas)
    (hwidth : settings.width.IsSize) (hheight : settings.height.IsSize) (start : Option Point)
    (hstart : entry members "start" (fun v => some <$> startOf
      (settings.width.sizeOr canvas.width) (settings.height.sizeOr canvas.height) v) none =
        .ok start) :
    Canvas.ofValue (.object (settings.sized members)) =
      .ok { settings.resized canvas with start := start } := by
  obtain ⟨stroke, hall, hcolor⟩ := ofValue_eq_ok.mp h
  refine ofValue_eq_ok.mpr ⟨stroke, ?_, hcolor⟩
  exact {
    size := size_sized hwidth hheight hall.size
    background := (entry_sized (by decide) (by decide) _ _).trans hall.background
    places := by
      rw [places, entry_sized (by decide) (by decide)]
      exact hall.places
    start := (entry_sized (by decide) (by decide) _ _).trans hstart
    stroke := (entry_sized (by decide) (by decide) _ _).trans hall.stroke
    strokeWidth := hall.strokeWidth
    not_negative := hall.not_negative }

/-- **A size on the command line is the size of the description, but for the start.** Resizing a
described canvas gives the canvas of the description with that size, in all but its start point. A
coordinate that a start leaves out stays in the middle of the canvas as described, where
the resized description has it in the middle of the final one. Every other coordinate
is the same, and without a start both are the middle of the final canvas. -/
theorem resizing_keeps_described_middle (h : Canvas.ofValue (.object members) = .ok canvas)
    (hwidth : settings.width.IsSize) (hheight : settings.height.IsSize) :
    ∃ resized described, resize settings canvas = .ok resized ∧
      (∀ (files : Contents) (path : String) (text : List Char), settings.config = some path →
        path ≠ "" → files.text path = .ok text → Json.read text = .ok (.object members) →
        files.canvas settings = .ok resized) ∧
      Canvas.ofValue (.object (settings.sized members)) = .ok described ∧
      described = { resized with start := described.start } ∧
      (member? "start" members = none →
        resized.startPoint = ⟨resized.width.half, resized.height.half⟩) ∧
      (LeavesOut members "x" → resized.startPoint.x = canvas.width.half ∧
        described.startPoint.x = resized.width.half) ∧
      (¬ LeavesOut members "x" → resized.startPoint.x = described.startPoint.x) ∧
      (LeavesOut members "y" → resized.startPoint.y = canvas.height.half ∧
        described.startPoint.y = resized.height.half) ∧
      (¬ LeavesOut members "y" → resized.startPoint.y = described.startPoint.y) := by
  obtain ⟨stroke, hall, -⟩ := ofValue_eq_ok.mp h
  have hresize := resize_eq_ok canvas hwidth hheight
  have hfiles : ∀ (files : Contents) (path : String) (text : List Char),
      settings.config = some path → path ≠ "" → files.text path = .ok text →
      Json.read text = .ok (.object members) → files.canvas settings = .ok (settings.resized canvas) := by
    intro files path text hconfig hpath htext hread
    rw [Contents.canvas_of_description hconfig hpath htext hread, h]
    exact hresize
  rcases startEntry_eq_ok.mp hall.start with ⟨hmember, hnone⟩ | ⟨v, point, hmember, hpoint, hsome⟩
  · have hno : ∀ name, ¬ LeavesOut members name := by
      rintro name ⟨start, hstart, -⟩
      rw [hmember] at hstart
      cases hstart
    have hsized := ofValue_sized h hwidth hheight none (startEntry_eq_ok.mpr (.inl ⟨hmember, rfl⟩))
    have hresized := startPoint_of_none (settings.resized canvas) hnone
    have hdescribed := startPoint_of_none { settings.resized canvas with start := none } rfl
    have hsame := hresized.trans hdescribed.symm
    exact ⟨_, _, hresize, hfiles, hsized, rfl, fun _ => hresized,
      fun hout => absurd hout (hno _), fun _ => congrArg Point.x hsame,
      fun hout => absurd hout (hno _), fun _ => congrArg Point.y hsame⟩
  · -- the start is read twice, with the size as described and with the final one
    obtain ⟨start, point', rfl, hpoint', hmiddleX, hsameX, hmiddleY, hsameY⟩ :=
      exists_startOf hpoint (settings.width.sizeOr canvas.width) (settings.height.sizeOr canvas.height)
    have hsized := ofValue_sized h hwidth hheight (some point')
      (startEntry_eq_ok.mpr (.inr ⟨_, point', hmember, hpoint', rfl⟩))
    have hresized := startPoint_of_some (settings.resized canvas) hsome
    have hdescribed := startPoint_of_some { settings.resized canvas with start := some point' } rfl
    have hpresent : member? "start" members ≠ none := by simp [hmember]
    refine ⟨_, _, hresize, hfiles, hsized, rfl, fun hnone => absurd hnone hpresent, ?_⟩
    rw [hresized, hdescribed, leavesOut_iff hmember, leavesOut_iff hmember]
    exact ⟨hmiddleX, fun hgiven => (hsameX hgiven).symm, hmiddleY, fun hgiven => (hsameY hgiven).symm⟩

/-- A description of a start without its second coordinate. -/
def partialStart : List (String × Value) := [("start", .object [("x", .integer 10)])]

/-- A height of a hundred on the command line. -/
def lower : Settings := { Settings.initial with height := .value (.ofNat 100) }

/-- The same height with a description in a file. -/
def lowerFile : Settings := { lower with config := some "c.json" }

/-- The second coordinate stays in the middle of the height before, and the first one as described; a
file with the description has the resized canvas. -/
theorem resizing_keeps_described_middle_lower :
    ∃ canvas resized described, Canvas.ofValue (.object partialStart) = .ok canvas ∧
      resize lower canvas = .ok resized ∧
      (Disk.ofTree.contents (describedTree "\x7b\"start\": \x7b\"x\": 10\x7d\x7d")).canvas
        lowerFile = .ok resized ∧
      Canvas.ofValue (.object (lower.sized partialStart)) = .ok described ∧
      resized.startPoint.x = described.startPoint.x ∧
      resized.startPoint.y = canvas.height.half ∧ described.startPoint.y = resized.height.half := by
  have hsome : (Canvas.ofValue (.object partialStart)).toOption.isSome = true := by decide +kernel
  have hwidth : lowerFile.width.IsSize := trivial
  have hheight : lowerFile.height.IsSize := by
    have hpositive : (Binary64.ofNat 100).isPositive = true := by decide +kernel
    exact hpositive
  have hread : Json.read "\x7b\"start\": \x7b\"x\": 10\x7d\x7d".toList = .ok (.object partialStart) := by
    decide +kernel
  have hgiven : ¬ LeavesOut partialStart "x" := by
    rw [leavesOut_iff rfl]
    nofun
  cases hcanvas : Canvas.ofValue (.object partialStart) with
  | error e =>
    rw [hcanvas] at hsome
    cases hsome
  | ok canvas =>
    obtain ⟨resized, described, hresize, hfiles, hdescribed, -, -, -, hsame, hout, -⟩ :=
      resizing_keeps_described_middle hcanvas hwidth hheight
    obtain ⟨hkept, hmiddle⟩ := hout ⟨_, rfl, rfl⟩
    have hfile := hfiles _ "c.json" _ rfl (by decide) (text_describedTree (by decide)) hread
    exact ⟨canvas, resized, described, rfl, hresize, hfile, hdescribed, hsame hgiven, hkept, hmiddle⟩

/-- Resizing does not come to the same as a description of the size: the first cursor starts at
320, the second at 50. -/
theorem resized_start_differs :
    ((Canvas.ofValue (.object partialStart)).toOption.bind fun canvas =>
        (resize lower canvas).toOption.map Canvas.startPoint) = some ⟨.ofNat 10, .ofNat 320⟩ ∧
      (Canvas.ofValue (.object (lower.sized partialStart))).toOption.map Canvas.startPoint =
        some ⟨.ofNat 10, .ofNat 50⟩ ∧
      Binary64.ofNat 320 ≠ Binary64.ofNat 50 := by
  decide +kernel

end Turtle.CommandLine
