import Turtle.Picture
import Turtle.Proofs.Attributes
import Turtle.Proofs.CompactText
import Turtle.Proofs.Description
import Turtle.Proofs.FiniteNumbers

/-! Documents whose numbers are plain numerals. What a program adds to its canvas is finite, so a number
that is not comes from the description of the canvas: nothing there keeps infinities out of the
size and the stroke, or anything out of the start. The numbers of a document are plain exactly
if those of the canvas that it shows are finite. -/

namespace Turtle

/-! What is plain. -/

namespace Svg

/-- So many plain numerals, with one blank between two of them. -/
def IsPlainValue (count : Nat) (value : List Char) : Prop :=
  ∃ numerals : List PlainNumeral, numerals.length = count ∧
    value = [' '].intercalate (numerals.map PlainNumeral.text)

/-- The attributes whose values are numbers, and how many. -/
def measures : List (String × Nat) :=
  [("width", 1), ("height", 1), ("viewBox", 4), ("x", 1), ("y", 1), ("x1", 1), ("y1", 1), ("x2", 1),
    ("y2", 1), ("stroke-width", 1)]

/-- Every number among some attributes is a plain numeral. -/
def PlainNumbers (given : List (List Char × List Char)) : Prop :=
  ∀ pair ∈ given, ∀ measure ∈ measures, measure.1.toList = pair.1 → IsPlainValue measure.2 pair.2

/-- Every number in the text of a document is a plain numeral. -/
def HasPlainNumbers (document : String) : Prop := PlainNumbers (attributesOf document.toList)

theorem isPlainValue_one {value : List Char} :
    IsPlainValue 1 value ↔ ∃ n : PlainNumeral, value = n.text := by
  constructor
  · rintro ⟨numerals, hlength, rfl⟩
    obtain ⟨n, rfl⟩ := List.length_eq_one_iff.mp hlength
    exact ⟨n, List.intercalate_singleton⟩
  · rintro ⟨n, rfl⟩
    exact ⟨[n], rfl, List.intercalate_singleton.symm⟩

theorem isPlainValue_compact {places : Nat} {x : Binary64} :
    IsPlainValue 1 (x.compact places).toList ↔ x.isFinite = true :=
  isPlainValue_one.trans (Binary64.exists_text_eq_iff places x)

theorem plainNumbers_append {a b : List (List Char × List Char)} :
    PlainNumbers (a ++ b) ↔ PlainNumbers a ∧ PlainNumbers b := List.forall_mem_append

theorem plainNumbers_flatMap {α : Type} {pieces : List α} {given : α → List (List Char × List Char)} :
    PlainNumbers (pieces.flatMap given) ↔ ∀ piece ∈ pieces, PlainNumbers (given piece) := by
  simp only [PlainNumbers, List.mem_flatMap]
  exact ⟨fun h piece hpiece pair hpair => h pair ⟨piece, hpiece, hpair⟩,
    fun h pair ⟨piece, hpiece, hpair⟩ => h piece hpiece pair hpair⟩

theorem plainNumbers_characters {given : List (String × String)} :
    PlainNumbers (characters given) ↔
      ∀ pair ∈ given, ∀ measure ∈ measures, measure.1 = pair.1 → IsPlainValue measure.2 pair.2.toList := by
  simp only [PlainNumbers, characters, List.forall_mem_map, String.toList_inj]

/-- The view box is given by two zeros and the size. -/
theorem isPlainValue_viewBox {places : Nat} {width height : Binary64} (hw : width.isFinite = true)
    (hh : height.isFinite = true) :
    IsPlainValue 4 ("0 0 " ++ width.compact places ++ " " ++ height.compact places).toList := by
  obtain ⟨n, hn⟩ := (Binary64.exists_text_eq_iff places width).mpr hw
  obtain ⟨m, hm⟩ := (Binary64.exists_text_eq_iff places height).mpr hh
  refine ⟨[Binary64.zeroNumeral false, Binary64.zeroNumeral false, n, m], rfl, ?_⟩
  have hzero : (Binary64.zeroNumeral false).text = ['0'] := rfl
  simp [String.toList_append, hn, hm, hzero, List.intercalate]

/-- The numbers that a segment is drawn with. -/
def numbersOf (segment : Segment) : List Binary64 :=
  [segment.start.x, segment.start.y, segment.finish.x, segment.finish.y, segment.width]

theorem plainNumbers_background (places : Nat) (width height : Binary64) (color : Color) :
    PlainNumbers (characters ((Element.background width height color).pairs places)) ↔
      width.isFinite = true ∧ height.isFinite = true := by
  have hzero : IsPlainValue 1 ['0'] := isPlainValue_one.mpr ⟨Binary64.zeroNumeral false, rfl⟩
  rw [plainNumbers_characters]
  simp [Element.pairs, measures, isPlainValue_compact, hzero]

theorem plainNumbers_stroke (places : Nat) (segment : Segment) :
    PlainNumbers (characters ((Element.stroke segment).pairs places)) ↔
      ∀ x ∈ numbersOf segment, x.isFinite = true := by
  rw [plainNumbers_characters]
  simp [Element.pairs, measures, isPlainValue_compact, numbersOf]

theorem Document.plainNumbers_opening (d : Document) :
    PlainNumbers (characters d.openingPairs) ↔ d.size.1.isFinite = true ∧ d.size.2.isFinite = true := by
  have hbox : d.size.1.isFinite = true → d.size.2.isFinite = true →
      IsPlainValue 4 ("0 0 " ++ d.size.1.compact d.places ++ " " ++ d.size.2.compact d.places).toList :=
    isPlainValue_viewBox
  rw [plainNumbers_characters]
  simpa [openingPairs, measures, isPlainValue_compact] using hbox

theorem plainNumbers_first :
    PlainNumbers (characters [("version", "1.0"), ("encoding", "UTF-8")]) := by
  rw [plainNumbers_characters]
  simp [measures]

end Svg

namespace Canvas
open Svg

theorem size_document (canvas : Canvas) (title : Option String) (figures : List Figure) :
    (canvas.document title figures).size = (canvas.width, canvas.height) := by
  have hstrokes : ((Figure.segmentsAll figures).map Element.stroke).reverse.findSome? Element.size? = none := by
    refine List.findSome?_eq_none_iff.mpr fun element hmem => ?_
    obtain ⟨segment, -, rfl⟩ := List.mem_map.mp (List.mem_reverse.mp hmem)
    rfl
  rw [Document.size, document, List.reverse_cons, List.findSome?_append, hstrokes]
  rfl

/-- The numbers of a document are plain exactly if the size and the numbers of the segments are finite. -/
theorem hasPlainNumbers_document (canvas : Canvas) (title : Option String) (figures : List Figure) :
    HasPlainNumbers (canvas.document title figures).text ↔
      (canvas.width.isFinite = true ∧ canvas.height.isFinite = true) ∧
        ∀ segment ∈ Figure.segmentsAll figures, ∀ x ∈ numbersOf segment, x.isFinite = true := by
  have hpairs : characters (canvas.document title figures).pairs =
      characters [("version", "1.0"), ("encoding", "UTF-8")] ++
        characters (canvas.document title figures).openingPairs ++
        (characters ((Element.background canvas.width canvas.height canvas.background).pairs canvas.places) ++
          (Figure.segmentsAll figures).flatMap fun segment =>
            characters ((Element.stroke segment).pairs canvas.places)) := by
    simp only [Document.pairs, document, characters, List.map_append, List.flatMap_cons, List.flatMap_map,
      List.map_flatMap]
  rw [HasPlainNumbers, Document.attributesOf_text, hpairs, plainNumbers_append, plainNumbers_append,
    plainNumbers_append, plainNumbers_flatMap, Document.plainNumbers_opening, plainNumbers_background,
    size_document]
  simp only [plainNumbers_first, plainNumbers_stroke, true_and, and_self_left, ← and_assoc]

end Canvas

/-- A segment whose ends are as finite as a point, and whose width is a given one or finite: its numbers
are finite exactly if the point is, and the given width if it has that. -/
theorem numbersOf_isFinite_iff {segment : Segment} {point : Point} {width : Binary64}
    (hjoins : segment.JoinsAs point) (hwidth : segment.width = width ∨ segment.width.isFinite = true) :
    (∀ x ∈ Svg.numbersOf segment, x.isFinite = true) ↔
      (point.x.isFinite = true ∧ point.y.isFinite = true) ∧
        (segment.width = width → width.isFinite = true) := by
  obtain ⟨⟨hsx, hsy⟩, hfx, hfy⟩ := hjoins
  have hstroke : segment.width.isFinite = true ↔ (segment.width = width → width.isFinite = true) := by
    constructor
    · intro h heq
      rwa [← heq]
    · intro h
      rcases hwidth with heq | hfinite
      · rw [heq]
        exact h heq
      · exact hfinite
  simp only [Svg.numbersOf, List.forall_mem_cons, hsx, hsy, hfx, hfy, hstroke]
  constructor
  · rintro ⟨hx, hy, -, -, hw, -⟩
    exact ⟨⟨hx, hy⟩, hw⟩
  · rintro ⟨⟨hx, hy⟩, hw⟩
    exact ⟨hx, hy, hx, hy, hw, List.forall_mem_nil _⟩

/-! What a description gives. -/

namespace Description
open Json (Value member?)

variable {members inner : List (String × Value)} {name path : String}

/-- An entry is finite unless it is a number that is not. -/
def isFiniteEntry (members : List (String × Value)) (name : String) : Bool :=
  match member? name members with
  | some (.number x) => x.isFinite
  | _ => true

/-- The members of an entry, if it is an object. -/
def within (members : List (String × Value)) (name : String) : List (String × Value) :=
  match member? name members with
  | some (.object inner) => inner
  | _ => []

/-- The size, the start and the stroke are given by finite numbers, where they are given. -/
structure HasFiniteNumbers (members : List (String × Value)) : Prop where
  width : isFiniteEntry members "width" = true
  height : isFiniteEntry members "height" = true
  startX : isFiniteEntry (within members "start") "x" = true
  startY : isFiniteEntry (within members "start") "y" = true
  strokeWidth : isFiniteEntry (within members "stroke") "width" = true

/-- An integer is read as a finite number, so only a number that is given can be none. -/
theorem isFinite_of_entry {absent x : Binary64} (h : entry members name (number path) absent = .ok x)
    (hgiven : isFiniteEntry members name = true) (habsent : absent.isFinite = true) : x.isFinite = true := by
  unfold entry at h
  cases hmember : member? name members with
  | none =>
    rw [hmember] at h
    rw [← Except.ok.inj h]
    exact habsent
  | some v =>
    rw [hmember] at h
    rcases number_eq_ok.mp h with rfl | ⟨n, -, hn⟩
    · unfold isFiniteEntry at hgiven
      rwa [hmember] at hgiven
    · exact Binary64.isFinite_of_ofInt? hn

theorem isFinite_standard : Canvas.standard.width.isFinite = true ∧ Canvas.standard.height.isFinite = true ∧
    Canvas.standard.strokeWidth.isFinite = true := by decide +kernel

/-- The canvas of a description with finite numbers has finite numbers. -/
theorem Describes.isFinite {canvas : Canvas} (h : Describes members inner canvas)
    (hfinite : HasFiniteNumbers members) :
    (canvas.width.isFinite = true ∧ canvas.height.isFinite = true) ∧
      (canvas.startPoint.x.isFinite = true ∧ canvas.startPoint.y.isFinite = true) ∧
        canvas.strokeWidth.isFinite = true := by
  obtain ⟨hwidth, hheight, -, -⟩ := size_eq_ok.mp h.size
  obtain ⟨hwidth', hheight', hstroke'⟩ := isFinite_standard
  have hw : canvas.width.isFinite = true := isFinite_of_entry hwidth hfinite.width hwidth'
  have hh : canvas.height.isFinite = true := isFinite_of_entry hheight hfinite.height hheight'
  have hmiddleX : canvas.width.half.isFinite = true := by rw [Binary64.isFinite_half, hw]
  have hmiddleY : canvas.height.half.isFinite = true := by rw [Binary64.isFinite_half, hh]
  refine ⟨⟨hw, hh⟩, ?_, ?_⟩
  · rcases startEntry_eq_ok.mp h.start with ⟨-, hnone⟩ | ⟨v, given, hstart, hgiven, hsome⟩
    · rw [Canvas.startPoint, hnone]
      exact ⟨hmiddleX, hmiddleY⟩
    · obtain ⟨start, rfl, hx, hy⟩ := startOf_eq_ok.mp hgiven
      have hwithin : within members "start" = start := by rw [within, hstart]
      have hfinX := hfinite.startX
      have hfinY := hfinite.startY
      rw [hwithin] at hfinX hfinY
      rw [Canvas.startPoint, hsome]
      exact ⟨isFinite_of_entry hx hfinX hmiddleX, isFinite_of_entry hy hfinY hmiddleY⟩
  · have hwithin : within members "stroke" = inner := by
      have hstroke := h.stroke
      unfold entry at hstroke
      unfold within
      cases hmember : member? "stroke" members with
      | none =>
        rw [hmember] at hstroke
        exact Except.ok.inj hstroke
      | some v =>
        rw [hmember] at hstroke
        rw [object_eq_ok.mp hstroke]
    have hfinStroke := hfinite.strokeWidth
    rw [hwithin] at hfinStroke
    exact isFinite_of_entry h.strokeWidth hfinStroke hstroke'

end Description

open Svg Description in
/-- **The numbers of a document.** An accepted program has a picture on every canvas that is described.
The numbers of the picture are plain numerals exactly if the size of the canvas is finite, and also
the start if anything is drawn, and the width of the stroke if anything is drawn with it. So they are
plain if all numbers of the description are finite. -/
theorem numbers_plain_iff_finite {v : Json.Value} {canvas : Canvas} {text : String} {program : List Command}
    (hcanvas : Canvas.ofValue v = .ok canvas) (hparse : Parse.program? text = .ok program)
    (title : Option String) :
    ∃ document figures left, Picture.render canvas title text = .ok document ∧
      Cursor.applyAll program canvas.cursor = .ok figures left ∧
      (HasPlainNumbers document ↔ (canvas.width.isFinite = true ∧ canvas.height.isFinite = true) ∧
        ∀ segment ∈ Figure.segmentsAll figures,
          (canvas.startPoint.x.isFinite = true ∧ canvas.startPoint.y.isFinite = true) ∧
            (segment.width = canvas.strokeWidth → canvas.strokeWidth.isFinite = true)) ∧
      ∀ members, v = .object members → HasFiniteNumbers members → HasPlainNumbers document := by
  have hw : WellFormed program := (Parse.program?_eq_ok.mp hparse).wellFormed
  obtain ⟨figures, left, hrun, hsegments⟩ := segments_of_wellFormed hw canvas.cursor
  have hplain := (canvas.hasPlainNumbers_document title figures).trans (and_congr_right fun _ =>
    forall₂_congr fun segment hs => numbersOf_isFinite_iff (hsegments segment hs).1 (hsegments segment hs).2)
  refine ⟨_, figures, left, Picture.render_of_run hparse hrun title, hrun, hplain,
    fun members hv hfinite => ?_⟩
  subst hv
  obtain ⟨inner, hdescribes, -⟩ := ofValue_eq_ok.mp hcanvas
  obtain ⟨hsize, hstart, hstroke⟩ := hdescribes.isFinite hfinite
  exact hplain.mpr ⟨hsize, fun segment _ => ⟨hstart, fun _ => hstroke⟩⟩

/-- A description with large numbers and a start outside of the canvas. -/
def farStart : List (String × Json.Value) :=
  [("width", .integer 1000000000000000000000000000000), ("height", .number (.ofDecimal ⟨false, 1005, -1⟩)),
    ("start", .object [("y", .number (.ofDecimal ⟨true, 1, 300⟩))])]

open Svg Description in
/-- Two strokes that begin far away, under a title that looks like an attribute. -/
theorem numbers_plain_iff_finite_far :
    ∃ canvas document, Canvas.ofValue (.object farStart) = .ok canvas ∧
      Parse.program? "F 5\nL\nS 0.5\nF 1" =
        .ok [.forward 5, .turn .left, .setSize (.ofDecimal ⟨false, 5, -1⟩), .forward 1] ∧
      Picture.render canvas (some "x1=\"inf\"") "F 5\nL\nS 0.5\nF 1" = .ok document ∧
      HasPlainNumbers document := by
  have hsome : (Canvas.ofValue (.object farStart)).toOption.isSome = true := by decide +kernel
  have hparse : Parse.program? "F 5\nL\nS 0.5\nF 1" =
      .ok [.forward 5, .turn .left, .setSize (.ofDecimal ⟨false, 5, -1⟩), .forward 1] := by decide +kernel
  have hfinite : HasFiniteNumbers farStart := by constructor <;> decide +kernel
  cases hcanvas : Canvas.ofValue (.object farStart) with
  | error e =>
    rw [hcanvas] at hsome
    cases hsome
  | ok canvas =>
    obtain ⟨document, -, -, hrender, -, -, hplain⟩ :=
      numbers_plain_iff_finite hcanvas hparse (some "x1=\"inf\"")
    exact ⟨canvas, document, rfl, hparse, hrender, hplain farStart rfl hfinite⟩

/-- A description with an infinite stroke. -/
def infiniteStroke : List (String × Json.Value) :=
  [("stroke", .object [("width", .number (.infinite false))])]

open Svg in
/-- An infinite stroke width is accepted, and what is drawn with it is no plain numeral. -/
theorem infinite_width_is_written :
    ∃ canvas program document, Canvas.ofValue (.object infiniteStroke) = .ok canvas ∧
      Parse.program? "F 1" = .ok program ∧ Picture.render canvas none "F 1" = .ok document ∧
      ¬ HasPlainNumbers document := by
  have hparse : Parse.program? "F 1" = .ok [.forward 1] := by decide +kernel
  have hwidths : ((Canvas.ofValue (.object infiniteStroke)).toOption.bind fun canvas =>
      (Picture.ofText canvas "F 1").toOption.map fun drawn =>
        (Figure.segmentsAll drawn.1).map Segment.width) = some [.infinite false] := by decide +kernel
  cases hcanvas : Canvas.ofValue (.object infiniteStroke) with
  | error e =>
    rw [hcanvas] at hwidths
    cases hwidths
  | ok canvas =>
    rw [hcanvas] at hwidths
    cases hdrawn : Picture.ofText canvas "F 1" with
    | error e => simp [hdrawn, Except.toOption] at hwidths
    | ok drawn =>
      have hrender : Picture.render canvas none "F 1" = .ok (canvas.document none drawn.1).text := by
        rw [Picture.render, hdrawn]
        rfl
      have hmap : (Figure.segmentsAll drawn.1).map Segment.width = [.infinite false] := by
        simpa [hdrawn, Except.toOption] using hwidths
      refine ⟨canvas, _, _, rfl, hparse, hrender, fun hplain => ?_⟩
      obtain ⟨-, hfinite⟩ := (canvas.hasPlainNumbers_document none drawn.1).mp hplain
      have hmem : Binary64.infinite false ∈ (Figure.segmentsAll drawn.1).map Segment.width := by
        rw [hmap]
        exact List.mem_singleton_self _
      obtain ⟨segment, hs, hwidth⟩ := List.mem_map.mp hmem
      have hfin : segment.width.isFinite = true := hfinite segment hs _ (by simp [numbersOf])
      rw [hwidth] at hfin
      cases hfin

end Turtle
