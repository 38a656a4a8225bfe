import Turtle.Proofs.Execution
import Turtle.Proofs.ShortestText

/-! Numbers that stay finite. The largest number is a step below the bound, and a distance is less than
half of that step, so no move takes a finite coordinate beyond the bound; neither does halving.
What is not finite stays so. Commands set finite widths only, so a run starts all its strokes from
points that are as finite as its own start, and draws them in its own width or a finite one. -/

namespace Turtle
open Command

/-- Below a power of two the numbers of 53 bits end a step before it. -/
theorem le_of_dvd_of_lt {units k : Nat} (hlt : units < 2 ^ (54 + k)) (h : 2 ^ (units.log2 - 52) ∣ units) :
    units + 2 * 2 ^ k ≤ 2 ^ (54 + k) := by
  have hbound : 2 ^ (54 + k) = 2 ^ 53 * (2 * 2 ^ k) := by
    rw [← Nat.pow_succ', ← Nat.pow_add]
    congr 1
    omega
  have hhalf : 2 ^ (53 + k) = 2 ^ 52 * (2 * 2 ^ k) := by
    rw [← Nat.pow_succ', ← Nat.pow_add]
    congr 1
    omega
  by_cases hsmall : units < 2 ^ (53 + k)
  · omega
  · have hpos : 0 < 2 ^ (53 + k) := Nat.two_pow_pos _
    have hlog : units.log2 = 53 + k := by
      refine (Nat.log2_eq_iff (by omega)).mpr ⟨Nat.not_lt.mp hsmall, ?_⟩
      rwa [show 53 + k + 1 = 54 + k by omega]
    obtain ⟨q, hq⟩ := h
    rw [hlog, show 53 + k - 52 = k + 1 by omega, Nat.pow_succ'] at hq
    have hquotient : q < 2 ^ 53 := by
      rw [hq, hbound, Nat.mul_comm] at hlt
      exact Nat.lt_of_mul_lt_mul_right hlt
    have hle : 2 * 2 ^ k * q ≤ 2 * 2 ^ k * (2 ^ 53 - 1) := Nat.mul_le_mul_left _ (by omega)
    omega

theorem log2_half_lt {n b : Nat} (hb : 0 < b) (h : n < 2 ^ (b + 1)) : (n / 2).log2 < b := by
  rw [Nat.pow_succ'] at h
  exact Binary64.log2_lt_of_lt hb (Nat.div_lt_of_lt_mul h)

namespace Binary64

theorem isFinite_ofQuotient {negative : Bool} {num den : Nat} (h : roundUnits num den < unitsBound) :
    (ofQuotient negative num den).isFinite = true := by
  rw [ofQuotient, dif_pos h]
  rfl

theorem isFinite_zero (negative : Bool) : (zero negative).isFinite = true := by
  rw [zero_eq negative isRepresentable_zero]
  rfl

theorem natAbs_add_signedUnits_le (s t : Bool) (m n : Nat) :
    (signedUnits s m + signedUnits t n).natAbs ≤ m + n := by
  cases s <;> cases t <;> simp only [signedUnits] <;> omega

/-- Adding a number of few units makes no number infinite and none finite. -/
theorem isFinite_add (x : Binary64) (negative : Bool) {units : Nat} (h : IsRepresentable units)
    (hunits : units < 2 ^ 2044) : (x + finite negative units h).isFinite = x.isFinite := by
  cases x with
  | nan => rfl
  | infinite => rfl
  | finite s m hm =>
    have hbound := hm.1
    rw [unitsBound, show 2098 = 54 + 2044 from rfl] at hbound
    have hle := le_of_dvd_of_lt hbound hm.2
    have hsum := natAbs_add_signedUnits_le s negative m units
    change (add (finite s m hm) (finite negative units h)).isFinite = true
    rw [add]
    split
    · exact isFinite_zero _
    · refine isFinite_ofQuotient (Nat.not_le.mp fun hround => ?_)
      rw [unitsBound, show 2098 = 54 + 2044 + 0 from rfl] at hround
      have hmany := (le_roundUnits_iff _ 2044 0).mp (by rwa [Nat.pow_zero, Nat.mul_one])
      generalize 2 ^ (54 + 2044) = bound at hle hmany
      generalize 2 ^ 2044 = step at hunits hle hmany
      omega

/-- Halving makes no number infinite and none finite. -/
theorem isFinite_half (x : Binary64) : x.half.isFinite = x.isFinite := by
  cases x with
  | nan => rfl
  | infinite => rfl
  | finite negative units h =>
    refine isFinite_ofQuotient ?_
    have hbound := h.1
    rw [unitsBound, show 2098 = 2097 + 1 from rfl] at hbound
    have hlog : (units / 2).log2 < 2097 := log2_half_lt (by decide) hbound
    rw [roundUnits, unitsBound]
    exact mul_two_pow_lt (roundDiv_shifted_le units 2) (by omega)

theorem isFinite_of_ofInt? {n : Int} {x : Binary64} (h : ofInt? n = some x) : x.isFinite = true := by
  rw [ofInt?] at h
  cases hx : ofQuotient (n < 0) (n.natAbs * unitsPerOne) 1 with
  | nan | infinite =>
    rw [hx] at h
    cases h
  | finite negative units bounded =>
    rw [hx] at h
    rw [← Option.some.inj h]
    rfl

end Binary64

/-! What a run keeps finite. -/

/-- A point is finite along the same axes as another one. -/
def IsFiniteAs (p q : Point) : Prop := p.x.isFinite = q.x.isFinite ∧ p.y.isFinite = q.y.isFinite

/-- A displacement within the limit makes no coordinate infinite and none finite. -/
theorem exists_displacement {distance : Int} (h : (Command.forward distance).Fits) (heading : Heading) :
    ∃ dx dy, Cursor.displacement? heading distance = some (dx, dy) ∧
      ∀ p : Point, IsFiniteAs ⟨p.x + dx, p.y + dy⟩ p := by
  obtain ⟨hx, hy⟩ := natAbs_mul_unit_le h heading
  have hfew : ∀ n : Int, n.natAbs ≤ 2 ^ 53 → n.natAbs * unitsPerOne < 2 ^ 2044 := by
    intro n hn
    rw [unitsPerOne]
    exact mul_two_pow_lt hn (by decide)
  rw [Cursor.displacement?, Binary64.ofInt?_of_natAbs_le hx, Binary64.ofInt?_of_natAbs_le hy]
  exact ⟨_, _, rfl, fun p =>
    ⟨Binary64.isFinite_add p.x _ _ (hfew _ hx), Binary64.isFinite_add p.y _ _ (hfew _ hy)⟩⟩

/-- A segment begins and ends at points that are as finite as a given one. -/
def Segment.JoinsAs (segment : Segment) (point : Point) : Prop :=
  IsFiniteAs segment.start point ∧ IsFiniteAs segment.finish point

/-- **Step lemma.** A single command that fits leaves the cursor at a point as finite as before, and
draws between such points. -/
theorem apply_keeps_isFiniteAs {point : Point} {command : Command} {before : Cursor}
    (hb : command.isBlock = false) (hfits : command.Fits) (h : IsFiniteAs before.position point) :
    ∃ figure after, Cursor.apply command before = .ok figure after ∧ IsFiniteAs after.position point ∧
      ∀ segment ∈ Figure.segmentsAll figure.toList, segment.JoinsAs point := by
  cases command with
  | forward distance =>
    obtain ⟨dx, dy, hd, hkeeps⟩ := exists_displacement hfits before.heading
    have hfinish : IsFiniteAs ⟨before.position.x + dx, before.position.y + dy⟩ point :=
      ⟨(hkeeps before.position).1.trans h.1, (hkeeps before.position).2.trans h.2⟩
    obtain ⟨figure, happly, hdrawn⟩ := apply_forward hd
    refine ⟨figure, _, happly, hfinish, fun segment hs => ?_⟩
    rw [hdrawn segment hs]
    exact ⟨h, hfinish⟩
  | turn | pen | setSize | setColor =>
    rw [Cursor.apply]
    exact ⟨none, _, rfl, h, by simp [Figure.segmentsAll]⟩
  | block => simp [isBlock] at hb
  | blockEnd => exact hfits.elim

/-- The segments of a run join points as finite as the start, and each has the width of the cursor or
a finite one. -/
theorem segments_of_wellFormed {program : List Command} (h : WellFormed program) (cursor : Cursor) :
    ∃ figures left, Cursor.applyAll program cursor = .ok figures left ∧
      ∀ segment ∈ Figure.segmentsAll figures, segment.JoinsAs cursor.position ∧
        (segment.width = cursor.width ∨ segment.width.isFinite = true) := by
  obtain ⟨figures, left, hrun, -, hjoins⟩ := applyAll_keeps cursor
    (fun c => IsFiniteAs c.position cursor.position) (fun s => s.JoinsAs cursor.position)
    (fun command hmem hb _ hkept => apply_keeps_isFiniteAs hb (h.fits command hmem) hkept) ⟨rfl, rfl⟩
  obtain ⟨figures', left', hrun', -, hstyles⟩ := applyAll_of_wellFormed h cursor
  rw [hrun] at hrun'
  obtain ⟨rfl, -⟩ := EStateM.Result.ok.inj hrun'
  refine ⟨figures, left, hrun, fun segment hs => ⟨hjoins segment hs, (hstyles segment hs).2.imp_right ?_⟩⟩
  exact fun hmem => (h.fits _ hmem).1

end Turtle
