import Mathlib.Data.List.Basic
import Turtle.Proofs.Description
import Turtle.Proofs.Effects
import Turtle.Proofs.JsonIntegers
import Turtle.Proofs.Rounding

/-! What a description fails by. Each check of a description has an error of its own, and a run
that meets it ends with the status two and a report. The conversion of an integer is no check: an
integer beyond the numbers ends the run at once, and it does so wherever a description
comes to one, once everything before it is in order. -/

namespace Turtle.Description
open Json (Value member?)
open CommandLine (Failure)

/-- How an error of a description ends a run: with a report, or at once. -/
def endingOf (e : CanvasError) : CommandLine.Ending × List String :=
  if e = .numberTooLarge then (.abort .numberTooLarge, [])
  else (.status 2, ["Config error: " ++ e.message])

/-- The error of a check: it is reported. -/
def IsReported (e : CanvasError) : Prop :=
  e ≠ .numberTooLarge ∧ (Failure.canvas e).ending = endingOf e

variable {α : Type} {members start stroke : List (String × Value)} {name path : String} {v : Value}
  {e : CanvasError}

/-! The errors of each reading. -/

theorem reported_of_object (h : object path v = .error e) : IsReported e := by
  cases v with
  | object members => cases h
  | null | bool | integer | number | string | array =>
    obtain rfl := Except.error.inj h
    exact ⟨nofun, rfl⟩

theorem reported_of_integer (h : integer path v = .error e) : IsReported e := by
  cases v with
  | integer n => cases h
  | null | bool | number | string | array | object =>
    obtain rfl := Except.error.inj h
    exact ⟨nofun, rfl⟩

theorem reported_of_color (h : color path v = .error e) : IsReported e := by
  unfold color at h
  split at h
  · split at h
    · cases h
    · obtain rfl := Except.error.inj h
      exact ⟨nofun, rfl⟩
  · simp only [bind_eq_error] at h
    rcases h with h | ⟨red, -, h | ⟨green, -, h | ⟨blue, -, h⟩⟩⟩
    · exact reported_of_integer h
    · exact reported_of_integer h
    · exact reported_of_integer h
    · split at h
      · cases h
      · obtain rfl := Except.error.inj h
        exact ⟨nofun, rfl⟩
  · obtain rfl := Except.error.inj h
    exact ⟨nofun, rfl⟩

theorem reported_of_requirePositive {x : Binary64} (h : requirePositive path x = .error e) :
    IsReported e := by
  unfold requirePositive at h
  split at h
  · cases h
  · obtain rfl := Except.error.inj h
    exact ⟨nofun, rfl⟩

theorem reported_of_requireNotNegative {x : Binary64} (h : requireNotNegative path x = .error e) :
    IsReported e := by
  unfold requireNotNegative at h
  split at h
  · cases h
  · obtain rfl := Except.error.inj h
    exact ⟨nofun, rfl⟩

theorem entry_eq_error {readEntry : Value → Except CanvasError α} {absent : α} :
    entry members name readEntry absent = .error e ↔
      ∃ v, member? name members = some v ∧ readEntry v = .error e := by
  unfold entry
  cases member? name members with
  | none => simp
  | some v => simp

theorem reported_of_places (h : places members = .error e) : IsReported e := by
  unfold places at h
  rw [bind_eq_error] at h
  rcases h with h | ⟨n, -, h⟩
  · obtain ⟨v, -, h⟩ := entry_eq_error.mp h
    exact reported_of_integer h
  · split at h
    · cases h
    · obtain rfl := Except.error.inj h
      exact ⟨nofun, rfl⟩

/-- An entry of a name is an integer that has no number. -/
def IsLarge (members : List (String × Value)) (name : String) : Prop :=
  ∃ n : Int, member? name members = some (.integer n) ∧ 2 ^ 1024 - 2 ^ 970 ≤ n.natAbs

/-- The one error of a number that is not reported is that of a large integer. -/
theorem number_error (h : number path v = .error e) :
    IsReported e ∨ e = .numberTooLarge ∧ ∃ n, v = .integer n ∧ Binary64.ofInt? n = none := by
  unfold number at h
  -- the conversion of an integer that is not known is not to be begun, so it is taken as any function
  obtain ⟨convert, hconvert⟩ : ∃ convert, convert = Binary64.ofInt? := ⟨_, rfl⟩
  rw [← hconvert] at h ⊢
  split at h
  · rename_i n
    split at h
    · cases h
    · rename_i hn
      exact .inr ⟨(Except.error.inj h).symm, n, rfl, hn⟩
  · cases h
  · obtain rfl := Except.error.inj h
    exact .inl ⟨nofun, rfl⟩

theorem number_of_none {n : Int} (hv : v = .integer n) (hn : Binary64.ofInt? n = none) :
    number path v = .error .numberTooLarge := by
  unfold number
  obtain ⟨convert, hconvert⟩ : ∃ convert, convert = Binary64.ofInt? := ⟨_, rfl⟩
  rw [← hconvert] at hn ⊢
  rw [hv]
  dsimp only
  rw [hn]

theorem entry_number_error {absent : Binary64}
    (h : entry members name (number path) absent = .error e) :
    IsReported e ∨ e = .numberTooLarge ∧ IsLarge members name := by
  obtain ⟨v, hmember, h⟩ := entry_eq_error.mp h
  rcases number_error h with h | ⟨rfl, n, rfl, hn⟩
  · exact .inl h
  · exact .inr ⟨rfl, n, hmember, Binary64.ofInt?_eq_none_iff.mp hn⟩

theorem entry_of_isLarge (h : IsLarge members name) (path : String) (absent : Binary64) :
    entry members name (number path) absent = .error .numberTooLarge := by
  obtain ⟨n, hmember, hn⟩ := h
  exact entry_eq_error.mpr
    ⟨_, hmember, number_of_none rfl (Binary64.ofInt?_eq_none_iff.mpr hn)⟩

/-- A description comes to a large integer: it has one where a number is expected, and everything
that is read before is in order. -/
inductive MeetsLarge (members : List (String × Value)) : Prop
  | width (h : IsLarge members "width")
  | height {width : Binary64}
      (hwidth : entry members "width" (number "width") Canvas.standard.width = .ok width)
      (h : IsLarge members "height")
  | startX {width height : Binary64} {background : Color} {count : Nat}
      {start : List (String × Value)} (hsize : size members = .ok (width, height))
      (hbackground : entry members "background" (color "background") Canvas.standard.background =
        .ok background)
      (hplaces : places members = .ok count)
      (hstart : member? "start" members = some (.object start)) (h : IsLarge start "x")
  | startY {width height x : Binary64} {background : Color} {count : Nat}
      {start : List (String × Value)} (hsize : size members = .ok (width, height))
      (hbackground : entry members "background" (color "background") Canvas.standard.background =
        .ok background)
      (hplaces : places members = .ok count)
      (hstart : member? "start" members = some (.object start))
      (hx : entry start "x" (number "start.x") width.half = .ok x) (h : IsLarge start "y")
  | strokeWidth {width height : Binary64} {background : Color} {count : Nat} {point : Option Point}
      {stroke : List (String × Value)} (hsize : size members = .ok (width, height))
      (hbackground : entry members "background" (color "background") Canvas.standard.background =
        .ok background)
      (hplaces : places members = .ok count)
      (hstart : entry members "start" (fun v => some <$> startOf width height v) none = .ok point)
      (hstroke : member? "stroke" members = some (.object stroke)) (h : IsLarge stroke "width")

theorem size_error (h : size members = .error e) :
    IsReported e ∨ e = .numberTooLarge ∧ (IsLarge members "width" ∨
      (∃ width, entry members "width" (number "width") Canvas.standard.width = .ok width) ∧
        IsLarge members "height") := by
  unfold size at h
  simp only [bind_eq_error] at h
  rcases h with h | ⟨width, hwidth, h | ⟨height, -, h | ⟨-, -, h | ⟨-, -, h⟩⟩⟩⟩
  · exact (entry_number_error h).imp_right fun ⟨he, hlarge⟩ => ⟨he, .inl hlarge⟩
  · exact (entry_number_error h).imp_right fun ⟨he, hlarge⟩ => ⟨he, .inr ⟨⟨width, hwidth⟩, hlarge⟩⟩
  · exact .inl (reported_of_requirePositive h)
  · exact .inl (reported_of_requirePositive h)
  · cases h

theorem startOf_error {width height : Binary64} (h : startOf width height v = .error e) :
    IsReported e ∨ e = .numberTooLarge ∧ ∃ start, v = .object start ∧ (IsLarge start "x" ∨
      (∃ x, entry start "x" (number "start.x") width.half = .ok x) ∧ IsLarge start "y") := by
  unfold startOf at h
  simp only [bind_eq_error, object_eq_ok] at h
  rcases h with h | ⟨start, rfl, h | ⟨x, hx, h | ⟨y, -, h⟩⟩⟩
  · exact .inl (reported_of_object h)
  · exact (entry_number_error h).imp_right fun ⟨he, hlarge⟩ => ⟨he, start, rfl, .inl hlarge⟩
  · exact (entry_number_error h).imp_right fun ⟨he, hlarge⟩ =>
      ⟨he, start, rfl, .inr ⟨⟨x, hx⟩, hlarge⟩⟩
  · cases h

theorem map_some_eq_error {x : Except CanvasError α} : some <$> x = .error e ↔ x = .error e := by
  cases x with
  | error e => exact ⟨fun h => congrArg _ (Except.error.inj h), fun h => congrArg _ (Except.error.inj h)⟩
  | ok a => exact ⟨nofun, nofun⟩

/-- A stroke with a large width stands in the description. -/
theorem member_of_isLarge (hstroke : entry members "stroke" (object "stroke") [] = .ok stroke)
    (h : IsLarge stroke name) : member? "stroke" members = some (.object stroke) := by
  unfold entry at hstroke
  split at hstroke
  · obtain rfl := Except.ok.inj hstroke
    obtain ⟨n, hmember, -⟩ := h
    cases hmember
  · rename_i v hmember
    rw [hmember, object_eq_ok.mp hstroke]

theorem beforeStrokeColor_error (h : beforeStrokeColor members = .error e) :
    IsReported e ∨ e = .numberTooLarge ∧ MeetsLarge members := by
  unfold beforeStrokeColor at h
  simp only [bind_eq_error] at h
  rcases h with h | ⟨⟨width, height⟩, hsize, h | ⟨background, hbackground, h | ⟨count, hplaces,
    h | ⟨point, hstart, h | ⟨stroke, hstroke, h | ⟨strokeWidth, -, h | ⟨-, -, h⟩⟩⟩⟩⟩⟩⟩
  · refine (size_error h).imp_right fun ⟨he, hlarge⟩ => ⟨he, ?_⟩
    rcases hlarge with hlarge | ⟨⟨width, hwidth⟩, hlarge⟩
    · exact .width hlarge
    · exact .height hwidth hlarge
  · obtain ⟨v, -, h⟩ := entry_eq_error.mp h
    exact .inl (reported_of_color h)
  · exact .inl (reported_of_places h)
  · obtain ⟨v, hmember, h⟩ := entry_eq_error.mp h
    refine (startOf_error (map_some_eq_error.mp h)).imp_right fun ⟨he, start, hv, hlarge⟩ => ⟨he, ?_⟩
    rw [hv] at hmember
    rcases hlarge with hlarge | ⟨⟨x, hx⟩, hlarge⟩
    · exact .startX hsize hbackground hplaces hmember hlarge
    · exact .startY hsize hbackground hplaces hmember hx hlarge
  · obtain ⟨v, -, h⟩ := entry_eq_error.mp h
    exact .inl (reported_of_object h)
  · refine (entry_number_error h).imp_right fun ⟨he, hlarge⟩ => ⟨he, ?_⟩
    exact .strokeWidth hsize hbackground hplaces hstart (member_of_isLarge hstroke hlarge) hlarge
  · exact .inl (reported_of_requireNotNegative h)
  · cases h

/-- A description that comes to a large integer fails by it. -/
theorem beforeStrokeColor_of_meetsLarge (h : MeetsLarge members) :
    beforeStrokeColor members = .error .numberTooLarge := by
  unfold beforeStrokeColor
  simp only [bind_eq_error]
  cases h with
  | width h => exact .inl (bind_eq_error.mpr (.inl (entry_of_isLarge h _ _)))
  | height hwidth h =>
    exact .inl (bind_eq_error.mpr (.inr ⟨_, hwidth, bind_eq_error.mpr (.inl (entry_of_isLarge h _ _))⟩))
  | startX hsize hbackground hplaces hstart h =>
    refine .inr ⟨_, hsize, .inr ⟨_, hbackground, .inr ⟨_, hplaces, .inl ?_⟩⟩⟩
    refine entry_eq_error.mpr ⟨_, hstart, map_some_eq_error.mpr ?_⟩
    exact bind_eq_error.mpr (.inr ⟨_, rfl, bind_eq_error.mpr (.inl (entry_of_isLarge h _ _))⟩)
  | startY hsize hbackground hplaces hstart hx h =>
    refine .inr ⟨_, hsize, .inr ⟨_, hbackground, .inr ⟨_, hplaces, .inl ?_⟩⟩⟩
    refine entry_eq_error.mpr ⟨_, hstart, map_some_eq_error.mpr ?_⟩
    exact bind_eq_error.mpr (.inr ⟨_, rfl, bind_eq_error.mpr
      (.inr ⟨_, hx, bind_eq_error.mpr (.inl (entry_of_isLarge h _ _))⟩)⟩)
  | strokeWidth hsize hbackground hplaces hstart hstroke h =>
    refine .inr ⟨_, hsize, .inr ⟨_, hbackground, .inr ⟨_, hplaces, .inr ⟨_, hstart,
      .inr ⟨_, ?_, .inl (entry_of_isLarge h _ _)⟩⟩⟩⟩⟩
    rw [entry, hstroke]
    rfl

theorem ofValue_error (h : Canvas.ofValue v = .error e) :
    IsReported e ∨ e = .numberTooLarge ∧ ∃ members, v = .object members ∧ MeetsLarge members := by
  unfold Canvas.ofValue at h
  simp only [bind_eq_error, object_eq_ok] at h
  rcases h with h | ⟨members, rfl, h | ⟨⟨canvas, stroke⟩, -, h | ⟨strokeColor, -, h⟩⟩⟩
  · exact .inl (reported_of_object h)
  · exact (beforeStrokeColor_error h).imp_right fun ⟨he, hmeets⟩ => ⟨he, members, rfl, hmeets⟩
  · obtain ⟨v, -, h⟩ := entry_eq_error.mp h
    exact .inl (reported_of_color h)
  · cases h

/-- A description ends the run at once exactly if it comes to a large integer. -/
theorem ofValue_eq_numberTooLarge :
    Canvas.ofValue v = .error .numberTooLarge ↔ ∃ members, v = .object members ∧ MeetsLarge members := by
  constructor
  · intro h
    rcases ofValue_error h with h | ⟨-, hmeets⟩
    · exact absurd rfl h.1
    · exact hmeets
  · rintro ⟨members, rfl, h⟩
    exact bind_eq_error.mpr (.inr ⟨members, rfl, bind_eq_error.mpr
      (.inl (beforeStrokeColor_of_meetsLarge h))⟩)

open CommandLine in
/-- **A description fails by a report, or by a large integer.** Every error of a description is
reported with the status two, but for one: an integer beyond the numbers ends the run at once, and
it does so exactly where the description comes to one. This is how every task that needs a
canvas ends on a file with that description. -/
theorem description_fails_by_report_or_large_integer (v : Value) :
    (∀ e, Canvas.ofValue v = .error e → (Failure.canvas e).ending = endingOf e) ∧
    (Canvas.ofValue v = .error .numberTooLarge ↔
      ∃ members, v = .object members ∧ MeetsLarge members) ∧
    ∀ {σ : Type} {disk : Disk (StateM σ)} {arguments : List String} {job : Invocation} (s : σ)
      (path : String) (text : List Char) (e : CanvasError), disk.ReadsOnly →
      Invocation.ofArguments arguments = .ok job → job.task ≠ .format →
      job.settings.config = some path → path ≠ "" → (disk.contents s).text path = .ok text →
      Json.read text = .ok v → Canvas.ofValue v = .error e →
      ∃ lines, run disk arguments s =
        (⟨(endingOf e).1, "", unlines (lines ++ (endingOf e).2)⟩, s) := by
  have hending : ∀ e, Canvas.ofValue v = .error e → (Failure.canvas e).ending = endingOf e := by
    intro e h
    rcases ofValue_error h with h | ⟨rfl, -⟩
    · exact h.2
    · rfl
  refine ⟨hending, ofValue_eq_numberTooLarge, ?_⟩
  intro σ disk arguments job s path text e hreads hargs htask hconfig hpath htext hread h
  have hcanvas : (disk.contents s).canvas job.settings = .error (.canvas e) := by
    rw [Contents.canvas_of_description hconfig hpath htext hread, h]
    rfl
  have hdrawing : (disk.contents s).drawing job = .error (.canvas e) := by
    rw [Contents.drawing, hcanvas]
    rfl
  have houtcome : (disk.contents s).outcome job = .error (.canvas e) := by
    rw [Contents.outcome]
    cases hcase : job.task with
    | render | validate =>
      rw [hdrawing]
      rfl
    | format => exact absurd hcase htask
  obtain ⟨lines, hrun⟩ := run_of_outcome_error hreads s hargs houtcome
  rw [reportOn, hending e h] at hrun
  exact ⟨lines, hrun⟩

/-- A description with a width beyond all numbers. -/
def tooWide : List (String × Value) := [("width", .integer (10 ^ 309 : Nat))]

theorem isLarge_tooWide : IsLarge tooWide "width" := by
  have hlarge : 2 ^ 1024 - 2 ^ 970 ≤ ((10 ^ 309 : Nat) : Int).natAbs := by decide +kernel
  exact ⟨_, rfl, hlarge⟩

/-- Such a width is not reported: it ends the run at once. -/
theorem too_wide_ends_at_once :
    Canvas.ofValue (.object tooWide) = .error .numberTooLarge ∧
      (Failure.canvas .numberTooLarge).ending = (.abort .numberTooLarge, []) :=
  ⟨ofValue_eq_numberTooLarge.mpr ⟨tooWide, rfl, .width isLarge_tooWide⟩, rfl⟩

/-- The digits of a power of ten. -/
def powerDigits (n : Nat) : List Char := '1' :: List.replicate n '0'

theorem isDigit_of_mem_zeros (n : Nat) : ∀ c ∈ List.replicate n '0', c.isDigit = true :=
  fun _ hc => List.eq_of_mem_replicate hc ▸ Number.isDigit_zero

theorem read_power {n : Nat} (h : n < Json.mostDigits) :
    Json.read (Json.widthText (powerDigits n)) = .ok (.object [("width", .integer (10 ^ n : Nat))]) := by
  have hvalue : Number.digitsValue (powerDigits n) = 10 ^ n := by
    rw [powerDigits, Number.digitsValue_cons, Number.digitsValue_zeros, List.length_replicate]
    exact Nat.one_mul _
  rw [← hvalue]
  exact Json.read_widthText rfl (by decide) (isDigit_of_mem_zeros n) (by rwa [List.length_replicate])

theorem no_return_power (n : Nat) : '\r' ∉ Json.widthText (powerDigits n) :=
  Json.no_return_widthText (List.forall_mem_cons.mpr ⟨rfl, isDigit_of_mem_zeros n⟩)

/-- The text of the description with a width beyond all numbers. -/
def tooWideText : String := String.ofList (Json.widthText (powerDigits 309))

open CommandLine in
theorem text_tooWide :
    (Disk.ofTree.contents (describedTree tooWideText)).text "c.json" =
      .ok (Json.widthText (powerDigits 309)) := by
  have htext : tooWideText.toList = Json.widthText (powerDigits 309) := String.toList_ofList
  rw [← htext]
  exact text_describedTree (htext ▸ no_return_power 309)

open CommandLine in
/-- To validate a program on the wide canvas ends at once, with nothing reported; to render it on a
flat one is refused with the status two. -/
theorem bad_descriptions_end_runs :
    (∃ lines, run Disk.ofTree ["validate", "p.logo", "--config", "c.json"] (describedTree tooWideText) =
      (⟨.abort .numberTooLarge, "", unlines (lines ++ [])⟩, describedTree tooWideText)) ∧
    ∃ lines, run Disk.ofTree ["render", "p.logo", "--config", "c.json"]
        (describedTree "\x7b\"height\": 0\x7d") =
      (⟨.status 2, "", unlines (lines ++ ["Config error: height must be > 0"])⟩,
        describedTree "\x7b\"height\": 0\x7d") := by
  constructor
  · have hjob : Invocation.ofArguments ["validate", "p.logo", "--config", "c.json"] =
        .ok ⟨.validate, "p.logo", { Settings.initial with config := some "c.json" }⟩ := rfl
    obtain ⟨-, hlarge, hruns⟩ := description_fails_by_report_or_large_integer (.object tooWide)
    have herror := hlarge.mpr ⟨tooWide, rfl, .width isLarge_tooWide⟩
    exact hruns (describedTree tooWideText) "c.json" _ _ (fun _ _ => rfl) hjob nofun rfl (by decide)
      text_tooWide (read_power (by decide)) herror
  · have hjob : Invocation.ofArguments ["render", "p.logo", "--config", "c.json"] =
        .ok ⟨.render, "p.logo", { Settings.initial with config := some "c.json" }⟩ := rfl
    have hread : Json.read "\x7b\"height\": 0\x7d".toList = .ok (.object [("height", .integer 0)]) := by
      decide +kernel
    have herror : Canvas.ofValue (.object [("height", .integer 0)]) = .error (.notPositive "height") := by
      decide +kernel
    obtain ⟨-, -, hruns⟩ :=
      description_fails_by_report_or_large_integer (.object [("height", .integer 0)])
    exact hruns (describedTree _) "c.json" _ _ (fun _ _ => rfl) hjob nofun rfl (by decide)
      (text_describedTree (by decide)) hread herror

end Turtle.Description
