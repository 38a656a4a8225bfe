import Turtle.Proofs.CompactText

/-! Whole numbers. Up to `2 ^ 53` every integer is a number, so sums of such integers are exact as long as
they stay within that bound. A distance beyond it may be rounded when it is converted; the rounding
does not look at the sign, so it is the same along every heading. A distance that leads from one place
near zero to another is below `2 ^ 54`, and no more is rounded than its last bit. -/

namespace Turtle.Binary64
open Turtle.Number

/-- A number is an integer, whatever the sign of its zero. -/
def IsInteger (x : Binary64) (n : Int) : Prop := x.isFinite = true ∧ x.value = n

instance (x : Binary64) (n : Int) : Decidable (x.IsInteger n) := inferInstanceAs (Decidable (_ ∧ _))

/-- A finite number is the integer that has as many units. -/
theorem isInteger_finite_iff {negative : Bool} {units : Nat} {h : IsRepresentable units} {n : Int} :
    (finite negative units h).IsInteger n ↔ signedUnits negative units = n * unitsPerOne := by
  have hpos : (unitsPerOne : ℚ) ≠ 0 := Nat.cast_ne_zero.mpr unitsPerOne_pos.ne'
  rw [IsInteger, value, div_eq_iff hpos]
  constructor
  · rintro ⟨-, hvalue⟩
    exact_mod_cast hvalue
  · intro hunits
    exact ⟨rfl, by exact_mod_cast hunits⟩

theorem IsInteger.exists_units {x : Binary64} {n : Int} (h : x.IsInteger n) :
    ∃ negative units bounded, x = finite negative units bounded ∧
      signedUnits negative units = n * unitsPerOne := by
  cases x with
  | nan | infinite => cases h.1
  | finite negative units bounded => exact ⟨_, _, _, rfl, isInteger_finite_iff.mp h⟩

theorem IsInteger.unique {x : Binary64} {m n : Int} (hm : x.IsInteger m) (hn : x.IsInteger n) : m = n := by
  exact_mod_cast hm.2.symm.trans hn.2

theorem signedUnits_natAbs (n : Int) : signedUnits (n < 0) n.natAbs = n := by
  by_cases h : n < 0
  · simp only [signedUnits, h, decide_true, if_true]
    omega
  · simp only [signedUnits, h, decide_false, Bool.false_eq_true, if_false]
    omega

theorem signedUnits_eq_sign_mul {n : Int} (h : n ≠ 0) (units : Nat) :
    signedUnits (n < 0) units = n.sign * units := by
  rcases Int.lt_or_gt_of_ne h with hneg | hpos
  · rw [Int.sign_eq_neg_one_of_neg hneg, decide_eq_true hneg, signedUnits, if_pos rfl, Int.neg_one_mul]
  · rw [Int.sign_eq_one_of_pos hpos, decide_eq_false (by omega), signedUnits,
      if_neg Bool.false_ne_true, Int.one_mul]

theorem signedUnits_mul (negative : Bool) (n c : Nat) :
    signedUnits negative (n * c) = signedUnits negative n * c := by
  cases negative <;> simp [signedUnits]

/-- The units of an integer with the sign of the integer. -/
theorem isInteger_of_natAbs {n : Int} (h : IsRepresentable (n.natAbs * unitsPerOne)) :
    (finite (n < 0) (n.natAbs * unitsPerOne) h).IsInteger n := by
  rw [isInteger_finite_iff, signedUnits_mul, signedUnits_natAbs]

theorem isInteger_zero (negative : Bool) : (zero negative).IsInteger 0 := by
  have hunits : signedUnits negative 0 = 0 := by cases negative <;> rfl
  rw [zero_eq negative isRepresentable_zero, isInteger_finite_iff, hunits, Int.zero_mul]

/-- A sum of integers that stays within 53 bits is exact. -/
theorem IsInteger.add {x y : Binary64} {m n : Int} (hx : x.IsInteger m) (hy : y.IsInteger n)
    (h : (m + n).natAbs ≤ 2 ^ 53) : (x + y).IsInteger (m + n) := by
  obtain ⟨s, a, ha, rfl, hm⟩ := hx.exists_units
  obtain ⟨t, b, hb, rfl, hn⟩ := hy.exists_units
  have hsum : signedUnits s a + signedUnits t b = (m + n) * unitsPerOne := by rw [hm, hn, Int.add_mul]
  have hpos : 0 < (unitsPerOne : Int) := Int.natCast_pos.mpr unitsPerOne_pos
  change (Binary64.add (finite s a ha) (finite t b hb)).IsInteger (m + n)
  rw [Binary64.add, hsum]
  split
  · rename_i hzero
    obtain hmn : m + n = 0 := (Int.mul_eq_zero.mp hzero).resolve_right hpos.ne'
    rw [hmn]
    exact isInteger_zero _
  · have hsign : decide ((m + n) * (unitsPerOne : Int) < 0) = decide (m + n < 0) :=
      decide_eq_decide.mpr ⟨fun hlt => Int.neg_of_mul_neg_right (Int.mul_comm _ _ ▸ hlt) hpos,
        fun hlt => Int.mul_neg_of_neg_of_pos hlt hpos⟩
    have hexact := ofQuotient_exact (decide (m + n < 0)) Nat.one_pos (isRepresentable_whole h)
    rw [hsign, Int.natAbs_mul, Int.natAbs_natCast]
    rw [Nat.mul_one] at hexact
    rw [hexact]
    exact isInteger_of_natAbs _

/-- The integer of 53 bits that is nearest to an integer below `2 ^ 54`. -/
def nearInteger (n : Int) : Int :=
  if n.natAbs ≤ 2 ^ 53 then n else n.sign * (2 * roundDiv n.natAbs 2 : Nat)

/-- Nearness does not depend on the sign. -/
theorem nearInteger_neg (n : Int) : nearInteger (-n) = -nearInteger n := by
  simp only [nearInteger, Int.natAbs_neg, Int.sign_neg, Int.neg_mul]
  split <;> rfl

theorem nearInteger_mul {unit : Int} (n : Int) (h : unit.natAbs ≤ 1) :
    nearInteger (n * unit) = nearInteger n * unit := by
  obtain rfl | rfl | rfl : unit = 0 ∨ unit = 1 ∨ unit = -1 := by omega
  · rw [Int.mul_zero, Int.mul_zero]
    rfl
  · rw [Int.mul_one, Int.mul_one]
  · rw [Int.mul_neg_one, Int.mul_neg_one, nearInteger_neg]

theorem mul_two_pow_succ (n e : Nat) : n * 2 ^ (1 + e) = 2 * n * 2 ^ e := by
  rw [Nat.pow_add, Nat.pow_one, ← Nat.mul_assoc, Nat.mul_comm n]

/-- An integer below `2 ^ 54` is converted to the nearest integer of 53 bits. -/
theorem exists_ofInt? {n : Int} (h : n.natAbs < 2 ^ 54) :
    ∃ x, ofInt? n = some x ∧ x.IsInteger (nearInteger n) := by
  unfold nearInteger
  split
  · rename_i hsmall
    exact ⟨_, ofInt?_of_natAbs_le hsmall, isInteger_of_natAbs _⟩
  · rename_i hlarge
    have hne : n ≠ 0 := by omega
    have hround := roundUnits_of_large (k := 0) 1074 (Nat.le_of_lt (Nat.not_le.mp hlarge)) h
    rw [Nat.pow_zero, Nat.mul_one, Nat.zero_add] at hround
    obtain ⟨-, hhigh⟩ := roundDiv_near (n := n.natAbs) (d := 2) (by decide)
    have hbound : roundUnits (n.natAbs * unitsPerOne) 1 < unitsBound := by
      rw [unitsPerOne, hround, unitsBound]
      exact mul_two_pow_lt (by omega) (by decide)
    have hunits : roundUnits (n.natAbs * unitsPerOne) 1 = 2 * roundDiv n.natAbs 2 * unitsPerOne := by
      rw [unitsPerOne, hround]
      exact mul_two_pow_succ _ _
    rw [ofInt?, ofQuotient, dif_pos hbound]
    refine ⟨_, rfl, isInteger_finite_iff.mpr ?_⟩
    rw [hunits, signedUnits_mul, signedUnits_eq_sign_mul hne]

/-- A number below `2 ^ 53`, whatever its sign. -/
def IsNear (x : Binary64) : Prop := x.isFinite = true ∧ |x.value| < 2 ^ 53

instance (x : Binary64) : Decidable x.IsNear := inferInstanceAs (Decidable (_ ∧ _))

theorem cast_lt_two_pow_mul_iff (n unit : Nat) : (n : ℚ) < 2 ^ 53 * unit ↔ n < 2 ^ 53 * unit := by
  norm_cast

theorem isNear_finite_iff {negative : Bool} {units : Nat} {h : IsRepresentable units} :
    (finite negative units h).IsNear ↔ units < 2 ^ 53 * unitsPerOne := by
  have hpos : (0 : ℚ) < unitsPerOne := Nat.cast_pos.mpr unitsPerOne_pos
  have habs : |(signedUnits negative units : ℚ)| = units := by
    cases negative <;> simp [signedUnits]
  rw [IsNear, value, abs_div, habs, abs_of_pos hpos, div_lt_iff₀ hpos, cast_lt_two_pow_mul_iff]
  exact and_iff_right rfl

theorem le_roundUnits_of_le {n b : Nat} (hb : 52 ≤ b) (h : 2 ^ b * unitsPerOne ≤ n) :
    2 ^ b * unitsPerOne ≤ roundUnits n 1 := by
  obtain ⟨e, he⟩ : ∃ e, unitsPerOne = 2 ^ e := ⟨1074, rfl⟩
  rw [he, ← Nat.pow_add] at h ⊢
  exact two_pow_le_roundUnits (by omega) h

/-- What is rounded to a number below `2 ^ 53` is below it itself. -/
theorem lt_of_isNear_ofQuotient {negative : Bool} {n : Nat} (h : (ofQuotient negative n 1).IsNear) :
    n < 2 ^ 53 * unitsPerOne := by
  by_contra hlarge
  have hround := le_roundUnits_of_le (b := 53) (by decide) (Nat.not_lt.mp hlarge)
  rw [ofQuotient] at h
  split at h
  · exact absurd (isNear_finite_iff.mp h) (Nat.not_lt.mpr hround)
  · cases h.1

theorem natAbs_lt_of_isNear_add {s t : Bool} {a b : Nat} {ha : IsRepresentable a}
    {hb : IsRepresentable b} (h : (finite s a ha + finite t b hb).IsNear) :
    (signedUnits s a + signedUnits t b).natAbs < 2 ^ 53 * unitsPerOne := by
  change (Binary64.add (finite s a ha) (finite t b hb)).IsNear at h
  rw [Binary64.add] at h
  split at h
  · rename_i hzero
    rw [hzero]
    exact Nat.mul_pos (by decide) unitsPerOne_pos
  · exact lt_of_isNear_ofQuotient h

theorem le_add_natAbs_add_signedUnits (s t : Bool) (a b : Nat) :
    b ≤ a + (signedUnits s a + signedUnits t b).natAbs := by
  cases s <;> cases t <;> simp only [signedUnits, if_true, Bool.false_eq_true, if_false] <;> omega

theorem two_pow_mul_add_self (b unit : Nat) : 2 ^ b * unit + 2 ^ b * unit = 2 ^ (b + 1) * unit := by
  rw [← Nat.add_mul, ← Nat.two_mul, Nat.pow_succ']

/-- A distance that leads from a place near zero to another. -/
theorem natAbs_lt_of_ofInt? {x d : Binary64} {n : Int} (hx : x.IsNear) (hd : ofInt? n = some d)
    (hsum : (x + d).IsNear) : n.natAbs < 2 ^ 54 := by
  by_contra hlarge
  have hround : 2 ^ (53 + 1) * unitsPerOne ≤ roundUnits (n.natAbs * unitsPerOne) 1 :=
    le_roundUnits_of_le (by decide) (Nat.mul_le_mul_right _ (Nat.not_lt.mp hlarge))
  rw [ofInt?, ofQuotient] at hd
  split at hd
  · obtain rfl := Option.some.inj hd
    cases x with
    | nan | infinite => cases hx.1
    | finite s a ha =>
      have hsmall := isNear_finite_iff.mp hx
      have hbetween := natAbs_lt_of_isNear_add hsum
      have hless := Nat.lt_of_le_of_lt (le_add_natAbs_add_signedUnits s _ a _)
        (Nat.add_lt_add hsmall hbetween)
      rw [two_pow_mul_add_self] at hless
      exact absurd hless (Nat.not_lt.mpr hround)
  · cases hd

/-- A distance between two places near zero leads from an integer to an integer. -/
theorem IsInteger.add_ofInt? {x d : Binary64} {m n : Int} (hx : x.IsInteger m) (hnear : x.IsNear)
    (hd : ofInt? n = some d) (hsum : (x + d).IsNear) : (x + d).IsInteger (m + nearInteger n) := by
  obtain ⟨d', hd', hint⟩ := exists_ofInt? (natAbs_lt_of_ofInt? hnear hd hsum)
  obtain rfl : d = d' := Option.some.inj (hd.symm.trans hd')
  refine hx.add hint ?_
  obtain ⟨s, a, ha, rfl, hm⟩ := hx.exists_units
  obtain ⟨t, b, hb, rfl, hn⟩ := hint.exists_units
  have hunits := natAbs_lt_of_isNear_add hsum
  rw [hm, hn, ← Int.add_mul, Int.natAbs_mul, Int.natAbs_natCast] at hunits
  exact Nat.le_of_lt (Nat.lt_of_mul_lt_mul_right hunits)

end Turtle.Binary64
