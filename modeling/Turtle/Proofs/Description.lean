import Turtle.Canvas.Description
import Turtle.Proofs.Stepwise

/-! Descriptions of canvases, entry by entry. A description is read by checks in a row, so it
gives a canvas if each of its entries is read as what the canvas has there, and an error if some
entry gives it after those before have been read. -/

namespace Turtle.Description
open Json (Value member?)

variable {α : Type} {members start : List (String × Value)} {name path : String} {v : Value}
  {readEntry : Value → Except CanvasError α}

theorem object_eq_ok : object path v = .ok members ↔ v = .object members := by
  cases v <;> simp [object]

theorem number_eq_ok {x : Binary64} :
    number path v = .ok x ↔ v = .number x ∨ ∃ n, v = .integer n ∧ Binary64.ofInt? n = some x := by
  -- the conversion of an integer that is not known is not to be begun, so it is taken as any function
  obtain ⟨convert, hconvert⟩ : ∃ convert, convert = Binary64.ofInt? := ⟨_, rfl⟩
  unfold number
  rw [← hconvert]
  split
  · rename_i n
    cases hn : convert n <;> simp [hn]
  · simp
  · rename_i hinteger hnumber
    refine ⟨nofun, ?_⟩
    rintro (rfl | ⟨n, rfl, -⟩)
    · exact absurd rfl (hnumber x)
    · exact absurd rfl (hinteger n)

theorem requirePositive_eq_ok {x : Binary64} : requirePositive path x = .ok () ↔ x.isPositive = true := by
  simp [requirePositive]

/-- Whether an entry is there decides whether the value in its place matters. -/
theorem exists_entry {a b x : α} (h : entry members name readEntry a = .ok x) :
    ∃ y, entry members name readEntry b = .ok y ∧
      (member? name members = none → x = a ∧ y = b) ∧ (member? name members ≠ none → y = x) := by
  unfold entry at h ⊢
  cases hmember : member? name members with
  | none =>
    rw [hmember] at h
    exact ⟨b, rfl, fun _ => ⟨(Except.ok.inj h).symm, rfl⟩, nofun⟩
  | some v =>
    rw [hmember] at h
    exact ⟨x, h, nofun, fun _ => rfl⟩

theorem size_eq_ok {width height : Binary64} :
    size members = .ok (width, height) ↔
      entry members "width" (number "width") Canvas.standard.width = .ok width ∧
      entry members "height" (number "height") Canvas.standard.height = .ok height ∧
      width.isPositive = true ∧ height.isPositive = true := by
  unfold size
  simp only [bind_eq_ok, pure_eq_ok]
  constructor
  · rintro ⟨w, hw, h, hh, ⟨⟩, hpw, ⟨⟩, hph, heq⟩
    obtain ⟨rfl, rfl⟩ := Prod.mk.inj heq
    exact ⟨hw, hh, requirePositive_eq_ok.mp hpw, requirePositive_eq_ok.mp hph⟩
  · rintro ⟨hw, hh, hpw, hph⟩
    exact ⟨width, hw, height, hh, (), requirePositive_eq_ok.mpr hpw, (),
      requirePositive_eq_ok.mpr hph, rfl⟩

theorem startOf_eq_ok {width height : Binary64} {point : Point} :
    startOf width height v = .ok point ↔ ∃ start, v = .object start ∧
      entry start "x" (number "start.x") width.half = .ok point.x ∧
      entry start "y" (number "start.y") height.half = .ok point.y := by
  unfold startOf
  simp only [bind_eq_ok, pure_eq_ok, object_eq_ok]
  constructor
  · rintro ⟨start, hstart, x, hx, y, hy, rfl⟩
    exact ⟨start, hstart, hx, hy⟩
  · rintro ⟨start, hstart, hx, hy⟩
    exact ⟨start, hstart, point.x, hx, point.y, hy, rfl⟩

/-- A canvas has no start if the description has none, and the start that is read otherwise. -/
theorem startEntry_eq_ok {width height : Binary64} {point : Option Point} :
    entry members "start" (fun v => some <$> startOf width height v) none = .ok point ↔
      member? "start" members = none ∧ point = none ∨
        ∃ v given, member? "start" members = some v ∧ startOf width height v = .ok given ∧
          point = some given := by
  unfold entry
  cases hmember : member? "start" members with
  | none => simp [eq_comm]
  | some v =>
    cases hpoint : startOf width height v with
    | error e => simp [hpoint, Functor.map, Except.map]
    | ok given => simp [hpoint, Functor.map, Except.map, eq_comm]

/-- What the entries of a description, and of the stroke in it, say of a canvas, except for the
colour of the stroke. -/
structure Describes (members inner : List (String × Value)) (canvas : Canvas) : Prop where
  size : size members = .ok (canvas.width, canvas.height)
  background : entry members "background" (color "background") Canvas.standard.background =
    .ok canvas.background
  places : places members = .ok canvas.places
  start : entry members "start" (fun v => some <$> startOf canvas.width canvas.height v) none =
    .ok canvas.start
  stroke : entry members "stroke" (object "stroke") [] = .ok inner
  strokeWidth : entry inner "width" (number "stroke.width") Canvas.standard.strokeWidth =
    .ok canvas.strokeWidth
  not_negative : requireNotNegative "stroke.width" canvas.strokeWidth = .ok ()

theorem beforeStrokeColor_eq_ok {canvas : Canvas} {stroke : List (String × Value)} :
    beforeStrokeColor members = .ok (canvas, stroke) ↔
      Describes members stroke canvas ∧ canvas.strokeColor = Canvas.standard.strokeColor := by
  unfold beforeStrokeColor
  simp only [bind_eq_ok, pure_eq_ok]
  constructor
  · rintro ⟨⟨w, h⟩, hsize, background, hbackground, places, hplaces, start, hstart, entries, hstroke,
      width, hwidth, ⟨⟩, hnonneg, heq⟩
    obtain ⟨rfl, rfl⟩ := Prod.mk.inj heq
    exact ⟨⟨hsize, hbackground, hplaces, hstart, hstroke, hwidth, hnonneg⟩, rfl⟩
  · rintro ⟨h, hcolor⟩
    refine ⟨_, h.size, _, h.background, _, h.places, _, h.start, _, h.stroke, _, h.strokeWidth, (),
      h.not_negative, ?_⟩
    rw [← hcolor]

/-- The canvas of a description has what its entries are read as. -/
theorem ofValue_eq_ok {canvas : Canvas} :
    Canvas.ofValue (.object members) = .ok canvas ↔
      ∃ stroke, Describes members stroke canvas ∧
        entry stroke "color" (color "stroke.color") Canvas.standard.strokeColor =
          .ok canvas.strokeColor := by
  unfold Canvas.ofValue
  simp only [bind_eq_ok, pure_eq_ok, object_eq_ok]
  constructor
  · rintro ⟨root, hroot, ⟨before, stroke⟩, hbefore, strokeColor, hcolor, rfl⟩
    obtain rfl := Value.object.inj hroot
    obtain ⟨h, -⟩ := beforeStrokeColor_eq_ok.mp hbefore
    exact ⟨stroke, ⟨h.size, h.background, h.places, h.start, h.stroke, h.strokeWidth, h.not_negative⟩,
      hcolor⟩
  · rintro ⟨stroke, h, hcolor⟩
    have hbefore : beforeStrokeColor members =
        .ok ({ canvas with strokeColor := Canvas.standard.strokeColor }, stroke) :=
      beforeStrokeColor_eq_ok.mpr ⟨⟨h.size, h.background, h.places, h.start, h.stroke, h.strokeWidth,
        h.not_negative⟩, rfl⟩
    exact ⟨members, rfl, _, hbefore, _, hcolor, rfl⟩

end Turtle.Description
