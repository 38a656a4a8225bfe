import Turtle.Proofs.ColorLanguage
import Turtle.Proofs.Description
import Turtle.Proofs.Rounding

/-! Which descriptions are valid, and what a valid one says. Validity is asked of each entry that is
there, apart from the order of the checks: every check that a description passes says what one entry
must be, and an entry that is left out has a value that passes its own check. Nothing is looked at but
the entries of a canvas, so two descriptions that agree on them are read alike, errors included. -/

namespace Turtle.Description
open Grammar
open Json (Value member?)

/-- The number that a value stands for. Truth values stand for none, and an integer only if it can be
converted. -/
inductive IsNumber : Value → Binary64 → Prop
  | number (x : Binary64) : IsNumber (.number x) x
  | integer {n : Int} {x : Binary64} : Binary64.ofInt? n = some x → IsNumber (.integer n) x

/-- The colour that a value writes: in base sixteen, or by exactly three integers that are bytes. -/
inductive IsColor : Value → Color → Prop
  | word {word : String} {c : Color} : HexColor word.toList c → IsColor (.string word) c
  | amounts {c : Color} : c.IsBytes →
      IsColor (.array [.integer c.red, .integer c.green, .integer c.blue]) c

/-- A natural that counts places. -/
def IsPlaces (v : Value) (count : Nat) : Prop := v = .integer count

/-- A number that is at least zero, of either sign. -/
def AtLeastZero (x : Binary64) : Prop := x.isPositive = true ∨ x.isZero = true

/-- The entry of a name is as asked, if it is there. -/
def Asks (members : List (String × Value)) (name : String) (Asked : Value → Prop) : Prop :=
  ∀ v, member? name members = some v → Asked v

/-- The entry of a name says `x`, or it is left out and `x` is what stands for it. -/
def Tells {α : Type} (members : List (String × Value)) (name : String) (Reads : Value → α → Prop)
    (absent x : α) : Prop :=
  member? name members = none ∧ x = absent ∨ ∃ v, member? name members = some v ∧ Reads v x

/-- A valid description: what its entries must be, where they are there. -/
structure IsValid (members : List (String × Value)) : Prop where
  width : Asks members "width" fun v => ∃ x, IsNumber v x ∧ x.isPositive = true
  height : Asks members "height" fun v => ∃ x, IsNumber v x ∧ x.isPositive = true
  background : Asks members "background" fun v => ∃ c, IsColor v c
  places : Asks members "precision" fun v => ∃ count, IsPlaces v count ∧ count ≤ mostPlaces
  start : Asks members "start" fun v => ∃ start, v = .object start ∧
    Asks start "x" (fun v => ∃ x, IsNumber v x) ∧ Asks start "y" (fun v => ∃ y, IsNumber v y)
  stroke : Asks members "stroke" fun v => ∃ stroke, v = .object stroke ∧
    Asks stroke "width" (fun v => ∃ x, IsNumber v x ∧ AtLeastZero x) ∧
    Asks stroke "color" (fun v => ∃ c, IsColor v c)

/-- A start: an object, in which a coordinate that is left out is half of the size. -/
def IsStart (width height : Binary64) (v : Value) (start : Option Point) : Prop :=
  ∃ given point, v = .object given ∧ start = some point ∧
    Tells given "x" IsNumber width.half point.x ∧ Tells given "y" IsNumber height.half point.y

/-- What the entries of a stroke say of a canvas. -/
def TellsStroke (canvas : Canvas) (stroke : List (String × Value)) : Prop :=
  Tells stroke "width" IsNumber Canvas.standard.strokeWidth canvas.strokeWidth ∧
    Tells stroke "color" IsColor Canvas.standard.strokeColor canvas.strokeColor

/-- What the entries of a description say of a canvas, and the standard canvas where they are left
out. -/
structure Gives (members : List (String × Value)) (canvas : Canvas) : Prop where
  width : Tells members "width" IsNumber Canvas.standard.width canvas.width
  height : Tells members "height" IsNumber Canvas.standard.height canvas.height
  background : Tells members "background" IsColor Canvas.standard.background canvas.background
  places : Tells members "precision" IsPlaces Canvas.standard.places canvas.places
  start : Tells members "start" (IsStart canvas.width canvas.height) none canvas.start
  stroke : ∃ stroke, Tells members "stroke" (fun v inner => v = .object inner) [] stroke ∧
    TellsStroke canvas stroke

/-- Some names have the same entries. -/
def SameMembers (names : List String) (members others : List (String × Value)) : Prop :=
  ∀ name ∈ names, member? name members = member? name others

instance (names : List String) (members others : List (String × Value)) :
    Decidable (SameMembers names members others) :=
  inferInstanceAs (Decidable (∀ name ∈ names, member? name members = member? name others))

/-- Two entries are the same, or objects with the same entries of some names. -/
def Alike (names : List String) (entry other : Option Value) : Prop :=
  entry = other ∨ ∃ members others, entry = some (.object members) ∧ other = some (.object others) ∧
    SameMembers names members others

/-- Two descriptions have the same entries of a canvas, whatever else they have. -/
structure SameEntries (members others : List (String × Value)) : Prop where
  own : SameMembers ["width", "height", "background", "precision"] members others
  start : Alike ["x", "y"] (member? "start" members) (member? "start" others)
  stroke : Alike ["width", "color"] (member? "stroke" members) (member? "stroke" others)

variable {α : Type} {members others : List (String × Value)} {name path : String} {v : Value}
  {canvas : Canvas}

/-! What each reading says. -/

theorem number_eq_ok_iff {x : Binary64} : number path v = .ok x ↔ IsNumber v x := by
  rw [number_eq_ok]
  constructor
  · rintro (rfl | ⟨n, rfl, h⟩)
    · exact .number x
    · exact .integer h
  · rintro (_ | h)
    · exact .inl rfl
    · exact .inr ⟨_, rfl, h⟩

theorem integer_eq_ok {n : Int} : integer path v = .ok n ↔ v = .integer n := by
  cases v <;> simp [integer]

theorem color_eq_ok {c : Color} : color path v = .ok c ↔ IsColor v c := by
  constructor
  · intro h
    unfold color at h
    split at h
    · rename_i word
      cases hword : Color.ofHex? word.toList with
      | ok d =>
        rw [hword] at h
        obtain rfl := Except.ok.inj h
        exact .word (ofHex?_eq_ok_iff.mp hword)
      | error fault =>
        rw [hword] at h
        cases h
    · simp only [bind_eq_ok, integer_eq_ok] at h
      obtain ⟨red, rfl, green, rfl, blue, rfl, h⟩ := h
      have hread : color path (.array [.integer red, .integer green, .integer blue]) = .ok c := h
      rw [color_array path ⟨red, green, blue⟩] at hread
      split at hread
      · rename_i hbytes
        obtain rfl := Except.ok.inj hread
        exact .amounts hbytes
      · cases hread
    · cases h
  · rintro (h | h)
    · rcases color_string path _ with ⟨d, hd, hwrites⟩ | ⟨-, -, hnone⟩
      · rw [hd, h.unique hwrites]
      · exact absurd h (hnone _)
    · rw [color_array, if_pos h]

theorem requireNotNegative_eq_ok {x : Binary64} :
    requireNotNegative path x = .ok () ↔ AtLeastZero x := by
  simp only [requireNotNegative, AtLeastZero, ← Bool.or_eq_true]
  split <;> simp_all

/-- An entry is read as what it says. -/
theorem entry_eq_ok_iff {readEntry : Value → Except CanvasError α} {Reads : Value → α → Prop}
    (hread : ∀ v x, readEntry v = .ok x ↔ Reads v x) {absent x : α} :
    entry members name readEntry absent = .ok x ↔ Tells members name Reads absent x := by
  unfold entry Tells
  cases member? name members with
  | none => simp [eq_comm]
  | some v => simp [hread]

theorem entry_number_eq_ok_iff {absent x : Binary64} :
    entry members name (number path) absent = .ok x ↔ Tells members name IsNumber absent x :=
  entry_eq_ok_iff fun _ _ => number_eq_ok_iff

theorem entry_color_eq_ok_iff {absent c : Color} :
    entry members name (color path) absent = .ok c ↔ Tells members name IsColor absent c :=
  entry_eq_ok_iff fun _ _ => color_eq_ok

/-- The count of places is an integer that is checked to be a natural within the limit. -/
theorem places_eq_ok_iff {count : Nat} :
    places members = .ok count ↔
      Tells members "precision" IsPlaces Canvas.standard.places count ∧ count ≤ mostPlaces := by
  have hentry : ∀ n, entry members "precision" (integer "precision") Canvas.standard.places = .ok n ↔
      Tells members "precision" (fun v (n : Int) => v = .integer n) Canvas.standard.places n :=
    fun _ => entry_eq_ok_iff fun _ _ => integer_eq_ok
  have htells : Tells members "precision" IsPlaces Canvas.standard.places count ↔
      Tells members "precision" (fun v (n : Int) => v = .integer n) Canvas.standard.places count := by
    simp only [Tells, IsPlaces, Int.natCast_inj]
  rw [htells, places]
  simp only [bind_eq_ok, hentry]
  constructor
  · rintro ⟨n, hn, h⟩
    split at h
    · rename_i hbounds
      obtain ⟨hlow, hhigh⟩ := hbounds
      obtain rfl : n.toNat = count := Except.ok.inj h
      rw [Int.toNat_of_nonneg hlow]
      exact ⟨hn, by omega⟩
    · cases h
  · rintro ⟨hn, hle⟩
    exact ⟨count, hn, if_pos ⟨by omega, by omega⟩⟩

theorem start_eq_ok_iff :
    entry members "start" (fun v => some <$> startOf canvas.width canvas.height v) none =
        .ok canvas.start ↔
      Tells members "start" (IsStart canvas.width canvas.height) none canvas.start := by
  rw [startEntry_eq_ok, Tells]
  simp only [startOf_eq_ok, entry_number_eq_ok_iff]
  constructor
  · rintro (h | ⟨v, point, hmember, ⟨given, hv, hx, hy⟩, hstart⟩)
    · exact .inl h
    · exact .inr ⟨v, hmember, given, point, hv, hstart, hx, hy⟩
  · rintro (h | ⟨v, hmember, given, point, hv, hstart, hx, hy⟩)
    · exact .inl h
    · exact .inr ⟨v, point, hmember, ⟨given, hv, hx, hy⟩, hstart⟩

/-- The checks that a canvas passes after its entries have been read. -/
structure InBounds (canvas : Canvas) : Prop where
  width : canvas.width.isPositive = true
  height : canvas.height.isPositive = true
  places : canvas.places ≤ mostPlaces
  strokeWidth : AtLeastZero canvas.strokeWidth

/-- A description is read as the canvas that its entries give, if that canvas passes the checks. -/
theorem ofValue_eq_ok_iff :
    Canvas.ofValue (.object members) = .ok canvas ↔ Gives members canvas ∧ InBounds canvas := by
  rw [ofValue_eq_ok]
  constructor
  · rintro ⟨stroke, h, hcolor⟩
    obtain ⟨hwidth, hheight, hpw, hph⟩ := size_eq_ok.mp h.size
    obtain ⟨hplaces, hmost⟩ := places_eq_ok_iff.mp h.places
    refine ⟨?_, hpw, hph, hmost, requireNotNegative_eq_ok.mp h.not_negative⟩
    exact {
      width := entry_number_eq_ok_iff.mp hwidth
      height := entry_number_eq_ok_iff.mp hheight
      background := entry_color_eq_ok_iff.mp h.background
      places := hplaces
      start := start_eq_ok_iff.mp h.start
      stroke := ⟨stroke, (entry_eq_ok_iff fun _ _ => object_eq_ok).mp h.stroke,
        entry_number_eq_ok_iff.mp h.strokeWidth, entry_color_eq_ok_iff.mp hcolor⟩ }
  · rintro ⟨hgives, hbounds⟩
    obtain ⟨stroke, hstroke, hwidth, hcolor⟩ := hgives.stroke
    refine ⟨stroke, ?_, entry_color_eq_ok_iff.mpr hcolor⟩
    exact {
      size := size_eq_ok.mpr ⟨entry_number_eq_ok_iff.mpr hgives.width,
        entry_number_eq_ok_iff.mpr hgives.height, hbounds.width, hbounds.height⟩
      background := entry_color_eq_ok_iff.mpr hgives.background
      places := places_eq_ok_iff.mpr ⟨hgives.places, hbounds.places⟩
      start := start_eq_ok_iff.mpr hgives.start
      stroke := (entry_eq_ok_iff fun _ _ => object_eq_ok).mpr hstroke
      strokeWidth := entry_number_eq_ok_iff.mpr hwidth
      not_negative := requireNotNegative_eq_ok.mpr hbounds.strokeWidth }

/-! A valid description gives a canvas. -/

theorem Tells.asks {Reads : Value → α → Prop} {Asked : Value → Prop} {absent x : α}
    (h : Tells members name Reads absent x) (hread : ∀ v, Reads v x → Asked v) :
    Asks members name Asked := by
  intro v hv
  rcases h with ⟨hnone, -⟩ | ⟨w, hw, hreads⟩
  · rw [hnone] at hv
    cases hv
  · rw [hw] at hv
    obtain rfl := Option.some.inj hv
    exact hread w hreads

theorem asks_nil {Asked : Value → Prop} : Asks [] name Asked := by
  intro v hv
  cases hv

/-- An entry that is as asked says something that passes a check, if what stands for a missing one
passes it. -/
theorem Asks.exists_told {R : Value → α → Prop} {Asked : Value → Prop} {P : α → Prop} {absent : α}
    (h : Asks members name Asked) (habsent : P absent) (hread : ∀ v, Asked v → ∃ x, R v x ∧ P x) :
    ∃ x, Tells members name R absent x ∧ P x := by
  cases hmember : member? name members with
  | none => exact ⟨absent, .inl ⟨hmember, rfl⟩, habsent⟩
  | some v =>
    obtain ⟨x, hreads, hpasses⟩ := hread v (h v hmember)
    exact ⟨x, .inr ⟨v, hmember, hreads⟩, hpasses⟩

/-- An entry that can be read says something. -/
theorem Asks.exists_read {R : Value → α → Prop} (h : Asks members name fun v => ∃ x, R v x)
    (absent : α) : ∃ x, Tells members name R absent x := by
  have hread : ∀ v, (∃ x, R v x) → ∃ x, R v x ∧ True := fun v ⟨x, hx⟩ => ⟨x, hx, trivial⟩
  have habsent : (fun _ : α => True) absent := trivial
  obtain ⟨x, hx, -⟩ := h.exists_told habsent hread
  exact ⟨x, hx⟩

/-- The standard canvas passes its own checks. -/
theorem inBounds_standard : InBounds Canvas.standard := by
  refine ⟨?_, ?_, ?_, .inl ?_⟩ <;> decide +kernel

/-- A description is valid exactly if its entries give a canvas that passes the checks. -/
theorem isValid_iff : IsValid members ↔ ∃ canvas, Gives members canvas ∧ InBounds canvas := by
  constructor
  · intro h
    obtain ⟨width, hwidth, hpw⟩ := h.width.exists_told
      (P := fun x : Binary64 => x.isPositive = true) inBounds_standard.width fun _ => id
    obtain ⟨height, hheight, hph⟩ := h.height.exists_told
      (P := fun x : Binary64 => x.isPositive = true) inBounds_standard.height fun _ => id
    obtain ⟨background, hbackground⟩ := h.background.exists_read Canvas.standard.background
    obtain ⟨count, hcount, hmost⟩ := h.places.exists_told
      (P := fun count => count ≤ mostPlaces) inBounds_standard.places fun _ => id
    have hpoint : Asks members "start" fun v => ∃ start, IsStart width height v start := by
      intro v hv
      obtain ⟨given, hobject, hx, hy⟩ := h.start v hv
      obtain ⟨x, hx⟩ := hx.exists_read width.half
      obtain ⟨y, hy⟩ := hy.exists_read height.half
      exact ⟨some ⟨x, y⟩, given, ⟨x, y⟩, hobject, rfl, hx, hy⟩
    obtain ⟨start, hstart⟩ := hpoint.exists_read none
    -- the stroke is read before its entries are, and a missing one has none
    obtain ⟨stroke, hstroke, hasked⟩ := h.stroke.exists_told
      (R := fun v inner => v = .object inner)
      (P := fun stroke => Asks stroke "width" (fun v => ∃ x, IsNumber v x ∧ AtLeastZero x) ∧
        Asks stroke "color" (fun v => ∃ c, IsColor v c)) ⟨asks_nil, asks_nil⟩ fun _ => id
    obtain ⟨strokeWidth, hstrokeWidth, hnonneg⟩ :=
      hasked.1.exists_told (P := AtLeastZero) inBounds_standard.strokeWidth fun _ => id
    obtain ⟨strokeColor, hstrokeColor⟩ := hasked.2.exists_read Canvas.standard.strokeColor
    exact ⟨⟨width, height, background, count, strokeWidth, strokeColor, start⟩,
      ⟨hwidth, hheight, hbackground, hcount, hstart, stroke, hstroke, hstrokeWidth, hstrokeColor⟩,
      ⟨hpw, hph, hmost, hnonneg⟩⟩
  · rintro ⟨canvas, h, hbounds⟩
    obtain ⟨stroke, hstroke, hwidth, hcolor⟩ := h.stroke
    exact {
      width := h.width.asks fun _ hx => ⟨_, hx, hbounds.width⟩
      height := h.height.asks fun _ hx => ⟨_, hx, hbounds.height⟩
      background := h.background.asks fun _ hc => ⟨_, hc⟩
      places := h.places.asks fun _ hcount => ⟨_, hcount, hbounds.places⟩
      start := h.start.asks fun _ ⟨given, point, hv, _, hx, hy⟩ =>
        ⟨given, hv, hx.asks fun _ hx => ⟨_, hx⟩, hy.asks fun _ hy => ⟨_, hy⟩⟩
      stroke := hstroke.asks fun _ hv => ⟨stroke, hv,
        hwidth.asks fun _ hx => ⟨_, hx, hbounds.strokeWidth⟩, hcolor.asks fun _ hc => ⟨_, hc⟩⟩ }

/-! Entries of other names. -/

theorem object_object (path : String) (members : List (String × Value)) :
    object path (.object members) = pure members := rfl

theorem entry_congr (h : member? name members = member? name others)
    (readEntry : Value → Except CanvasError α) (absent : α) :
    entry members name readEntry absent = entry others name readEntry absent := by
  rw [entry, entry, h]

theorem size_congr (h : SameMembers ["width", "height", "background", "precision"] members others) :
    size members = size others := by
  simp only [size, entry_congr (h "width" (by simp)), entry_congr (h "height" (by simp))]

theorem places_congr (h : SameMembers ["width", "height", "background", "precision"] members others) :
    places members = places others := by
  simp only [places, entry_congr (h "precision" (by simp))]

theorem startEntry_congr (h : Alike ["x", "y"] (member? "start" members) (member? "start" others))
    (width height : Binary64) :
    entry members "start" (fun v => some <$> startOf width height v) none =
      entry others "start" (fun v => some <$> startOf width height v) none := by
  rcases h with h | ⟨start, start', hstart, hstart', hsame⟩
  · exact entry_congr h _ _
  · have hpoint : startOf width height (.object start) = startOf width height (.object start') := by
      simp only [startOf, object_object, pure_bind, entry_congr (hsame "x" (by simp)),
        entry_congr (hsame "y" (by simp))]
    simp only [entry, hstart, hstart', hpoint]

/-- What is read behind the stroke is the same if it is the same for strokes with the same entries. -/
theorem stroke_bind_congr {β : Type}
    (h : Alike ["width", "color"] (member? "stroke" members) (member? "stroke" others))
    {next next' : List (String × Value) → Except CanvasError β}
    (hnext : ∀ stroke stroke', SameMembers ["width", "color"] stroke stroke' → next stroke = next' stroke') :
    (entry members "stroke" (object "stroke") [] >>= next) =
      (entry others "stroke" (object "stroke") [] >>= next') := by
  rcases h with h | ⟨stroke, stroke', hstroke, hstroke', hsame⟩
  · rw [entry_congr h]
    exact bind_congr fun stroke => hnext stroke stroke fun _ _ => rfl
  · have hread : entry members "stroke" (object "stroke") [] = .ok stroke := by rw [entry, hstroke]; rfl
    have hread' : entry others "stroke" (object "stroke") [] = .ok stroke' := by rw [entry, hstroke']; rfl
    rw [hread, hread']
    exact hnext stroke stroke' hsame

/-- Descriptions with the same entries are read alike, to the same canvas or the same error. -/
theorem ofValue_congr (h : SameEntries members others) :
    Canvas.ofValue (.object members) = Canvas.ofValue (.object others) := by
  simp only [Canvas.ofValue, object_object, beforeStrokeColor, pure_bind, bind_assoc]
  rw [size_congr h.own, places_congr h.own, entry_congr (h.own "background" (by simp))]
  refine bind_congr fun size => bind_congr fun background => bind_congr fun places => ?_
  rw [startEntry_congr h.start]
  refine bind_congr fun start => stroke_bind_congr h.stroke fun stroke stroke' hsame => ?_
  simp only [entry_congr (hsame "width" (by simp)), entry_congr (hsame "color" (by simp))]

/-- A canvas has no start of its own exactly if the description has no entry for it. -/
theorem Gives.start_eq_none_iff (h : Gives members canvas) :
    canvas.start = none ↔ member? "start" members = none := by
  rcases h.start with ⟨hmember, hnone⟩ | ⟨v, hmember, -, point, -, hsome, -, -⟩
  · simp [hmember, hnone]
  · simp [hmember, hsome]

/-- **Exactly the valid descriptions are accepted.** A value describes a canvas if and only if it is an
object whose entries, where they are there, are valid. The canvas has what the entries say, and what
the standard canvas has where they are left out; it has no start of its own exactly if none is described,
and a coordinate that a described start leaves out is half of the size. Entries of other names, of
the description, its start and its stroke, change neither the canvas nor the error. -/
theorem accepted_iff_valid (v : Value) :
    ((∃ canvas, Canvas.ofValue v = .ok canvas) ↔ ∃ members, v = .object members ∧ IsValid members) ∧
    (∀ members canvas, Canvas.ofValue (.object members) = .ok canvas →
      Gives members canvas ∧ (canvas.start = none ↔ member? "start" members = none)) ∧
    ∀ members others, SameEntries members others →
      Canvas.ofValue (.object members) = Canvas.ofValue (.object others) := by
  refine ⟨?_, fun members canvas h => ?_, fun members others h => ofValue_congr h⟩
  · constructor
    · rintro ⟨canvas, h⟩
      obtain ⟨members, hv, -⟩ := bind_eq_ok.mp h
      obtain rfl := object_eq_ok.mp hv
      exact ⟨members, rfl, isValid_iff.mpr ⟨canvas, ofValue_eq_ok_iff.mp h⟩⟩
    · rintro ⟨members, rfl, hvalid⟩
      obtain ⟨canvas, h⟩ := isValid_iff.mp hvalid
      exact ⟨canvas, ofValue_eq_ok_iff.mpr h⟩
  · obtain ⟨hgives, -⟩ := ofValue_eq_ok_iff.mp h
    exact ⟨hgives, hgives.start_eq_none_iff⟩

/-- A height, a start without its second coordinate and the colour of the stroke, among entries of
other names. -/
def someEntries : List (String × Value) :=
  [("height", .integer 100), ("title", .null),
    ("start", .object [("x", .integer 10), ("z", .bool true)]),
    ("stroke", .object [("color", .string "0xf80"), ("dash", .array [])])]

theorem isValid_someEntries : IsValid someEntries := by
  have hheight : ∃ x, IsNumber (.integer 100) x ∧ x.isPositive = true :=
    ⟨_, .integer (Binary64.ofInt?_of_natAbs_le (by decide)), by decide +kernel⟩
  have hx : ∃ x, IsNumber (.integer 10) x :=
    ⟨_, .integer (Binary64.ofInt?_of_natAbs_le (by decide))⟩
  have hcolor : IsColor (.string "0xf80") ⟨255, 136, 0⟩ := by
    have hread : color "stroke.color" (.string "0xf80") = .ok ⟨255, 136, 0⟩ := by decide +kernel
    exact color_eq_ok.mp hread
  exact {
    width := nofun
    height := fun v hv => Option.some.inj hv ▸ hheight
    background := nofun
    places := nofun
    start := fun v hv => Option.some.inj hv ▸
      ⟨_, rfl, fun x hv => Option.some.inj hv ▸ hx, nofun⟩
    stroke := fun v hv => Option.some.inj hv ▸
      ⟨_, rfl, nofun, fun c hc => Option.some.inj hc ▸ ⟨_, hcolor⟩⟩ }

/-- The same entries of a canvas in another order, without those of other names. -/
def ownEntries : List (String × Value) :=
  [("stroke", .object [("color", .string "0xf80")]), ("start", .object [("x", .integer 10)]),
    ("height", .integer 100)]

theorem sameEntries_ownEntries : SameEntries someEntries ownEntries where
  own := by decide +kernel
  start := .inr ⟨_, _, rfl, rfl, by decide +kernel⟩
  stroke := .inr ⟨_, _, rfl, rfl, by decide +kernel⟩

/-- The start is in the middle of the height that is described, and the entries of other names do not
matter. -/
theorem accepted_iff_valid_some :
    ∃ canvas, Canvas.ofValue (.object someEntries) = .ok canvas ∧
      Tells someEntries "height" IsNumber Canvas.standard.height canvas.height ∧
      (∃ point, canvas.start = some point ∧ point.y = canvas.height.half) ∧
      Canvas.ofValue (.object ownEntries) = .ok canvas := by
  obtain ⟨hvalid, hgives, hsame⟩ := accepted_iff_valid (.object someEntries)
  obtain ⟨canvas, hcanvas⟩ := hvalid.mpr ⟨_, rfl, isValid_someEntries⟩
  obtain ⟨h, -⟩ := hgives _ canvas hcanvas
  refine ⟨canvas, hcanvas, h.height, ?_, (hsame _ _ sameEntries_ownEntries).symm.trans hcanvas⟩
  rcases h.start with ⟨hnone, -⟩ | ⟨v, hv, given, point, hobject, hsome, -, hy⟩
  · cases hnone
  · rw [hobject] at hv
    obtain rfl := Value.object.inj (Option.some.inj hv)
    rcases hy with ⟨-, hmiddle⟩ | ⟨w, hw, -⟩
    · exact ⟨point, hsome, hmiddle⟩
    · cases hw

end Turtle.Description
