import Turtle.Number.Rounding

/-! Binary floating-point numbers of 64 bits. Every finite one is a whole number of the
least positive one, `2 ^ -1074`, with at most 53 significant bits. Counting in these
units makes each operation an exact computation on naturals followed by one rounding
to nearest, ties to even. The infinities, one not-a-number and the sign of zero
complete the type, and two numbers are equal exactly when their bits are. -/

namespace Turtle

/-- How many units make one. -/
def unitsPerOne : Nat := 2 ^ 1074

/-- The least count of units that is too large for a finite number. -/
def unitsBound : Nat := 2 ^ 2098

/-- At most 53 significant bits, and below the bound. -/
def IsRepresentable (units : Nat) : Prop :=
  units < unitsBound ∧ 2 ^ (units.log2 - 52) ∣ units

instance (units : Nat) : Decidable (IsRepresentable units) :=
  inferInstanceAs (Decidable (_ ∧ _))

inductive Binary64 where
  | nan
  | infinite (negative : Bool)
  | finite (negative : Bool) (units : Nat) (representable : IsRepresentable units)
  deriving DecidableEq

/-- The count of units nearest to `num / den` among those of 53 significant bits. -/
def roundUnits (num den : Nat) : Nat :=
  let shift := (num / den).log2 - 52
  Number.roundDiv num (den * 2 ^ shift) * 2 ^ shift

theorem roundDiv_shifted_le (num den : Nat) :
    Number.roundDiv num (den * 2 ^ ((num / den).log2 - 52)) ≤ 2 ^ 53 := by
  refine Nat.le_trans (Number.roundDiv_le _ _) ?_
  rw [← Nat.div_div_eq_div_mul]
  have hlt : num / den < 2 ^ 53 * 2 ^ ((num / den).log2 - 52) := by
    refine Nat.lt_of_lt_of_le Nat.lt_log2_self ?_
    rw [← Nat.pow_add]
    exact Nat.pow_le_pow_right (by decide) (by omega)
  exact Nat.div_lt_of_lt_mul (by rwa [Nat.mul_comm])

theorem dvd_of_significand_le {m : Nat} (shift : Nat) (h : m ≤ 2 ^ 53) :
    2 ^ ((m * 2 ^ shift).log2 - 52) ∣ m * 2 ^ shift := by
  rcases Nat.eq_or_lt_of_le h with rfl | hlt
  · rw [← Nat.pow_add, Nat.log2_two_pow]
    exact Nat.pow_dvd_pow 2 (by omega)
  · by_cases h0 : m = 0
    · simp [h0]
    · have hne : m * 2 ^ shift ≠ 0 :=
        Nat.mul_ne_zero h0 (Nat.pos_iff_ne_zero.mp (Nat.two_pow_pos _))
      have hlog : (m * 2 ^ shift).log2 < 53 + shift := by
        rw [Nat.log2_lt hne, Nat.pow_add]
        exact Nat.mul_lt_mul_of_pos_right hlt (Nat.two_pow_pos _)
      exact Nat.dvd_trans (Nat.pow_dvd_pow 2 (by omega)) (Nat.dvd_mul_left _ _)

theorem roundUnits_dvd (num den : Nat) :
    2 ^ ((roundUnits num den).log2 - 52) ∣ roundUnits num den :=
  dvd_of_significand_le _ (roundDiv_shifted_le num den)

/-- Rounding changes nothing that is representable already. -/
theorem roundUnits_exact {units c : Nat} (hc : 0 < c)
    (h : 2 ^ (units.log2 - 52) ∣ units) : roundUnits (units * c) c = units := by
  have hq : units * c / c = units := Nat.mul_div_cancel _ hc
  simp only [roundUnits, hq]
  obtain ⟨k, hk⟩ := h
  have hp : 0 < 2 ^ (units.log2 - 52) := Nat.two_pow_pos _
  generalize 2 ^ (units.log2 - 52) = p at hk hp ⊢
  subst hk
  have he : p * k * c = c * p * k := by rw [Nat.mul_comm (p * k) c, Nat.mul_assoc]
  rw [he, Number.roundDiv_of_dvd (Nat.mul_pos hc hp) (Nat.dvd_mul_right _ _),
    Nat.mul_div_cancel_left _ (Nat.mul_pos hc hp), Nat.mul_comm]

namespace Binary64

/-- The number nearest to `± num / den` units; beyond the bound it is infinite. -/
def ofQuotient (negative : Bool) (num den : Nat) : Binary64 :=
  if h : roundUnits num den < unitsBound then
    .finite negative (roundUnits num den) ⟨h, roundUnits_dvd num den⟩
  else .infinite negative

theorem ofQuotient_exact {units c : Nat} (negative : Bool) (hc : 0 < c)
    (h : IsRepresentable units) :
    ofQuotient negative (units * c) c = .finite negative units h := by
  simp [ofQuotient, roundUnits_exact hc h.2, h.1]

def zero (negative : Bool) : Binary64 := ofQuotient negative 0 1

/-- A number, if it is finite. -/
def finite? : Binary64 → Option Binary64
  | .finite negative units h => some (.finite negative units h)
  | _ => none

/-- The number nearest to an integer, unless the integer is too large. -/
def ofInt? (n : Int) : Option Binary64 :=
  (ofQuotient (n < 0) (n.natAbs * unitsPerOne) 1).finite?

def isFinite : Binary64 → Bool
  | .finite _ _ _ => true
  | _ => false

/-- Whether a number is a zero of either sign. -/
def isZero : Binary64 → Bool
  | .finite _ units _ => units == 0
  | _ => false

/-- Whether a number is above zero. -/
def isPositive : Binary64 → Bool
  | .nan => false
  | .infinite negative => !negative
  | .finite negative units _ => !negative && units != 0

/-- Whether a number is below zero; a zero of either sign is not. -/
def isNegative : Binary64 → Bool
  | .nan => false
  | .infinite negative => negative
  | .finite negative units _ => negative && units != 0

/-- A count of units with its sign. -/
def signedUnits (negative : Bool) (units : Nat) : Int :=
  if negative then -(units : Int) else units

/-- The rounded sum. A sum of nothing is negative only if both zeros are. -/
def add : Binary64 → Binary64 → Binary64
  | .finite s m _, .finite t n _ =>
    let sum := signedUnits s m + signedUnits t n
    if sum = 0 then zero (s && t) else ofQuotient (sum < 0) sum.natAbs 1
  | .nan, _ => .nan
  | _, .nan => .nan
  | .infinite s, .infinite t => if s = t then .infinite s else .nan
  | .infinite s, .finite _ _ _ => .infinite s
  | .finite _ _ _, .infinite t => .infinite t

instance : Add Binary64 := ⟨add⟩

/-- Half of a number; only the least ones are rounded. -/
def half : Binary64 → Binary64
  | .finite negative units _ => ofQuotient negative units 2
  | x => x

/-- A whole number small enough to be exact. -/
def ofNat (n : Nat) : Binary64 := ofQuotient false (n * unitsPerOne) 1

instance : Inhabited Binary64 := ⟨zero false⟩

end Binary64

end Turtle
