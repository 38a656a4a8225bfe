import Turtle.Binary64.Decimal

/-! Rounding of quotients. What a quotient is rounded to depends on the quotient alone, not on
the numerator and denominator that write it, so a number may be scaled at will before it
is rounded. Whole numbers of at most 53 bits are kept exactly. -/

namespace Turtle
open Turtle.Number

theorem mul_two_pow_lt {n a b : Nat} (h : n ≤ 2 ^ 53) (hab : 53 + a < b) : n * 2 ^ a < 2 ^ b :=
  calc n * 2 ^ a ≤ 2 ^ 53 * 2 ^ a := Nat.mul_le_mul_right _ h
    _ = 2 ^ (53 + a) := (Nat.pow_add 2 53 a).symm
    _ < 2 ^ b := Nat.pow_lt_pow_right (by decide) hab

/-- A common factor changes no rounded quotient. -/
theorem roundDiv_mul_right (n d : Nat) {c : Nat} (hc : 0 < c) :
    roundDiv (n * c) (d * c) = roundDiv n d := by
  have hdiv : n * c / (d * c) = n / d := Nat.mul_div_mul_right n d hc
  have hmod : n * c % (d * c) = n % d * c := Nat.mul_mod_mul_right c n d
  have hdouble : 2 * (n % d * c) = 2 * (n % d) * c := (Nat.mul_assoc 2 (n % d) c).symm
  simp only [roundDiv, hdiv, hmod, hdouble, Nat.mul_lt_mul_right hc]

theorem roundUnits_mul_right (num den : Nat) {c : Nat} (hc : 0 < c) :
    roundUnits (num * c) (den * c) = roundUnits num den := by
  have hdiv : num * c / (den * c) = num / den := Nat.mul_div_mul_right num den hc
  unfold roundUnits
  dsimp only
  rw [hdiv, Nat.mul_right_comm den c, roundDiv_mul_right num _ hc]

theorem roundDiv_zero (d : Nat) : roundDiv 0 d = 0 := by
  simp [roundDiv]

theorem roundUnits_zero (den : Nat) : roundUnits 0 den = 0 := by
  simp [roundUnits, roundDiv_zero]

/-- Less than half a unit is rounded to nothing. -/
theorem roundUnits_of_lt_half {num den : Nat} (h : 2 * num < den) : roundUnits num den = 0 := by
  have hdiv : num / den = 0 := Nat.div_eq_of_lt (by omega)
  have hmod : num % den = num := Nat.mod_eq_of_lt (by omega)
  simp [roundUnits, roundDiv, hdiv, hmod, h]

/-- Rounding to 53 bits keeps the leading bit. -/
theorem two_pow_log2_le_roundUnits {n : Nat} (h : 2 ^ 52 ≤ n) : 2 ^ n.log2 ≤ roundUnits n 1 := by
  have hn : n ≠ 0 := by
    rintro rfl
    simp at h
  have hlog : 52 ≤ n.log2 := (Nat.le_log2 hn).mpr h
  have hsplit : 2 ^ n.log2 = 2 ^ 52 * 2 ^ (n.log2 - 52) := by
    rw [← Nat.pow_add]
    congr 1
    omega
  simp only [roundUnits, Nat.div_one, Nat.one_mul]
  calc 2 ^ n.log2 = 2 ^ n.log2 / 2 ^ (n.log2 - 52) * 2 ^ (n.log2 - 52) := by
        rw [hsplit, Nat.mul_div_cancel _ (Nat.two_pow_pos _)]
    _ ≤ n / 2 ^ (n.log2 - 52) * 2 ^ (n.log2 - 52) :=
        Nat.mul_le_mul_right _ (Nat.div_le_div_right (Nat.log2_self_le hn))
    _ ≤ _ := Nat.mul_le_mul_right _ (div_le_roundDiv _ _)

namespace Binary64

theorem isRepresentable_whole {n : Nat} (h : n ≤ 2 ^ 53) : IsRepresentable (n * unitsPerOne) := by
  unfold IsRepresentable unitsPerOne unitsBound
  exact ⟨mul_two_pow_lt (a := 1074) (b := 2098) h (by decide), dvd_of_significand_le 1074 h⟩

/-- An integer of at most 53 bits is a number. -/
theorem ofInt?_of_natAbs_le {n : Int} (h : n.natAbs ≤ 2 ^ 53) :
    ofInt? n = some (.finite (n < 0) (n.natAbs * unitsPerOne) (isRepresentable_whole h)) := by
  have hexact := ofQuotient_exact (decide (n < 0)) Nat.one_pos (isRepresentable_whole h)
  rw [Nat.mul_one] at hexact
  rw [ofInt?, hexact]
  rfl

end Binary64

theorem two_pow_le_ten_pow (n : Nat) : 2 ^ (3 * n) ≤ 10 ^ n := by
  rw [Nat.pow_mul]
  exact Nat.pow_le_pow_left (by decide) n

/-- A positive multiple of a large power of ten has many bits. -/
theorem two_pow_le_scaled {m power a b : Nat} (hm : 0 < m) (h : b ≤ 3 * power + a) :
    2 ^ b ≤ m * 10 ^ power * 2 ^ a :=
  calc 2 ^ b ≤ 2 ^ (3 * power + a) := Nat.pow_le_pow_right (by decide) h
    _ = 2 ^ (3 * power) * 2 ^ a := Nat.pow_add 2 (3 * power) a
    _ ≤ m * 10 ^ power * 2 ^ a :=
      Nat.mul_le_mul_right _ (Nat.le_trans (two_pow_le_ten_pow power) (Nat.le_mul_of_pos_left _ hm))

/-- A number of few bits is less than half of a large power of ten. -/
theorem double_scaled_lt {m power a : Nat} (h : m.log2 + (a + 2) ≤ 3 * power) :
    2 * (m * 2 ^ a) < 10 ^ power :=
  calc 2 * (m * 2 ^ a) = m * 2 ^ (a + 1) := by rw [Nat.pow_succ, Nat.mul_comm 2, Nat.mul_assoc]
    _ < 2 ^ (m.log2 + 1) * 2 ^ (a + 1) :=
      Nat.mul_lt_mul_of_pos_right Nat.lt_log2_self (Nat.two_pow_pos _)
    _ = 2 ^ (m.log2 + 1 + (a + 1)) := (Nat.pow_add _ _ _).symm
    _ ≤ 2 ^ (3 * power) := Nat.pow_le_pow_right (by decide) (by omega)
    _ ≤ 10 ^ power := two_pow_le_ten_pow power

/-- Rounding keeps a whole number above every power of two that it reaches. -/
theorem two_pow_le_roundUnits {n b : Nat} (hb : 52 ≤ b) (h : 2 ^ b ≤ n) :
    2 ^ b ≤ roundUnits n 1 := by
  have hn : n ≠ 0 := Nat.pos_iff_ne_zero.mp (Nat.lt_of_lt_of_le (Nat.two_pow_pos b) h)
  have hlog : b ≤ n.log2 := (Nat.le_log2 hn).mpr h
  have hmany : 2 ^ 52 ≤ n := Nat.le_trans (Nat.pow_le_pow_right (by decide) hb) h
  exact Nat.le_trans (Nat.pow_le_pow_right (by decide) hlog) (two_pow_log2_le_roundUnits hmany)

namespace Binary64

theorem log2_lt_of_lt {n b : Nat} (hb : 0 < b) (h : n < 2 ^ b) : n.log2 < b := by
  by_cases hn : n = 0
  · rw [hn, Nat.log2_zero]
    exact hb
  · exact (Nat.log2_lt hn).mpr h

/-- A quotient just below a power of two is rounded up to it from half a step on. -/
theorem le_roundDiv_iff {m d : Nat} (h : m < 2 ^ 54 * d) :
    2 ^ 53 ≤ roundDiv m (2 * d) ↔ 2 ^ 54 * d - d ≤ m := by
  have hd : 0 < 2 * d := by omega
  have hsum := Nat.div_add_mod m (2 * d)
  have hrest := Nat.mod_lt m hd
  have hquotient : m / (2 * d) < 2 ^ 53 := Nat.div_lt_of_lt_mul (by omega)
  by_cases hlast : m / (2 * d) = 2 ^ 53 - 1
  · rw [roundDiv]
    rw [hlast] at hsum ⊢
    generalize m % (2 * d) = rest at hsum hrest ⊢
    split
    · omega
    · split <;> omega
  · have hle := roundDiv_le m (2 * d)
    have hmul : 2 * d * (m / (2 * d)) ≤ 2 * d * (2 ^ 53 - 2) := Nat.mul_le_mul_left _ (by omega)
    omega

/-- A whole number of more than 53 bits is rounded to a multiple of the step between such numbers. -/
theorem roundUnits_of_large {m k : Nat} (e : Nat) (h : 2 ^ (53 + k) ≤ m) (hlt : m < 2 ^ (54 + k)) :
    roundUnits (m * 2 ^ e) 1 = roundDiv m (2 * 2 ^ k) * 2 ^ (k + 1 + e) := by
  have hunit : 0 < 2 ^ e := Nat.two_pow_pos e
  have hleast : 0 < 2 ^ (53 + k) := Nat.two_pow_pos _
  have hlog : (m * 2 ^ e).log2 = 53 + k + e := by
    have hne : m * 2 ^ e ≠ 0 := Nat.mul_ne_zero (by omega) (by omega)
    refine (Nat.log2_eq_iff hne).mpr ⟨?_, ?_⟩
    · rw [Nat.pow_add 2 (53 + k)]
      exact Nat.mul_le_mul_right _ h
    · rw [show 53 + k + e + 1 = 54 + k + e by omega, Nat.pow_add 2 (54 + k)]
      exact Nat.mul_lt_mul_of_pos_right hlt hunit
  have hdivisor : 1 * 2 ^ (k + 1 + e) = 2 * 2 ^ k * 2 ^ e := by
    rw [Nat.pow_add 2 (k + 1), Nat.pow_succ, Nat.one_mul, Nat.mul_comm 2]
  have hshift : 53 + k + e - 52 = k + 1 + e := by omega
  rw [roundUnits]
  rw [Nat.div_one, hlog, hshift, hdivisor, roundDiv_mul_right _ _ hunit]

/-- Where numbers of 53 bits reach up to a bound, integers below it are rounded to it from half a step
on. -/
theorem le_roundUnits_iff (m k e : Nat) :
    2 ^ (54 + k + e) ≤ roundUnits (m * 2 ^ e) 1 ↔ 2 ^ (54 + k) - 2 ^ k ≤ m := by
  have hunit : 0 < 2 ^ e := Nat.two_pow_pos e
  have hpos : 0 < 2 ^ k := Nat.two_pow_pos k
  have hbound : 2 ^ (54 + k) = 2 ^ 54 * 2 ^ k := Nat.pow_add 2 54 k
  by_cases hsmall : m < 2 ^ (53 + k)
  · have hlt : m * 2 ^ e < 2 ^ (53 + k + e) := by
      rw [Nat.pow_add 2 (53 + k)]
      exact Nat.mul_lt_mul_of_pos_right hsmall hunit
    have hlog : (m * 2 ^ e).log2 < 53 + k + e := log2_lt_of_lt (by omega) hlt
    have hle := roundDiv_shifted_le (m * 2 ^ e) 1
    have hround : roundUnits (m * 2 ^ e) 1 < 2 ^ (54 + k + e) := by
      rw [roundUnits]
      rw [Nat.div_one] at hle ⊢
      exact mul_two_pow_lt hle (by omega)
    rw [Nat.pow_add 2 53] at hsmall
    omega
  · by_cases hlarge : 2 ^ (54 + k) ≤ m
    · have hle : 2 ^ (54 + k + e) ≤ m * 2 ^ e := by
        rw [Nat.pow_add 2 (54 + k)]
        exact Nat.mul_le_mul_right _ hlarge
      have hround := two_pow_le_roundUnits (by omega) hle
      omega
    · have hround := roundUnits_of_large e (Nat.not_lt.mp hsmall) (Nat.not_le.mp hlarge)
      have hsplit : 2 ^ (54 + k + e) = 2 ^ 53 * 2 ^ (k + 1 + e) := by
        rw [← Nat.pow_add]
        congr 1
        omega
      rw [hround, hsplit, Nat.mul_le_mul_right_iff (Nat.two_pow_pos _), hbound]
      exact le_roundDiv_iff (hbound ▸ Nat.not_le.mp hlarge)

/-- The integers without a number begin half a step behind the largest number. -/
theorem ofInt?_eq_none_iff {n : Int} : ofInt? n = none ↔ 2 ^ 1024 - 2 ^ 970 ≤ n.natAbs := by
  have hnone : ofInt? n = none ↔ unitsBound ≤ roundUnits (n.natAbs * unitsPerOne) 1 := by
    rw [ofInt?, ofQuotient]
    split
    · rename_i hlt
      refine ⟨fun hnone => ?_, fun hle => absurd hlt (Nat.not_lt.mpr hle)⟩
      cases hnone
    · rename_i hle
      exact ⟨fun _ => Nat.not_lt.mp hle, fun _ => rfl⟩
  rw [hnone, unitsBound, unitsPerOne, show 2098 = 54 + 970 + 1074 from rfl,
    show 1024 = 54 + 970 from rfl]
  exact le_roundUnits_iff n.natAbs 970 1074
theorem ofQuotient_congr {negative : Bool} {a b a' b' : Nat}
    (h : roundUnits a b = roundUnits a' b') : ofQuotient negative a b = ofQuotient negative a' b' := by
  simp only [ofQuotient, h]

theorem ofQuotient_zero (negative : Bool) (den : Nat) :
    ofQuotient negative 0 den = zero negative :=
  ofQuotient_congr (by rw [roundUnits_zero, roundUnits_zero])

theorem ofQuotient_mul_right (negative : Bool) (num den : Nat) {c : Nat} (hc : 0 < c) :
    ofQuotient negative (num * c) (den * c) = ofQuotient negative num den :=
  ofQuotient_congr (roundUnits_mul_right num den hc)

end Binary64

namespace Number.Decimal

/-- The value of a decimal as a quotient, its sign apart. -/
def numerator (d : Decimal) : Nat :=
  match d.exponent with
  | .ofNat power => d.digits * 10 ^ power
  | .negSucc _ => d.digits

def denominator (d : Decimal) : Nat :=
  match d.exponent with
  | .ofNat _ => 1
  | .negSucc less => 10 ^ (less + 1)

theorem denominator_pos (d : Decimal) : 0 < d.denominator := by
  unfold denominator
  split
  · exact Nat.one_pos
  · exact Nat.pow_pos (by decide)

end Number.Decimal

namespace Binary64

/-- Numerals that are settled by their exponent alone are settled rightly: every numeral is
rounded as its quotient. -/
theorem ofDecimal_eq_ofQuotient (d : Decimal) :
    ofDecimal d = ofQuotient d.negative (d.numerator * unitsPerOne) d.denominator := by
  obtain ⟨negative, digits, exponent⟩ := d
  by_cases hdigits : digits = 0
  · subst hdigits
    cases exponent <;>
      simp [ofDecimal, Decimal.numerator, ofQuotient_zero]
  · cases exponent with
    | ofNat power =>
      simp only [ofDecimal, hdigits, if_false, Decimal.numerator, Decimal.denominator]
      split
      · rename_i hlarge
        have hbits : 2098 ≤ 3 * power + 1074 := by
          unfold largestPower at hlarge
          omega
        have hscaled := two_pow_le_scaled (Nat.pos_of_ne_zero hdigits) hbits
        have hbound := two_pow_le_roundUnits (by decide) hscaled
        have hlarge : unitsBound ≤ roundUnits (digits * 10 ^ power * unitsPerOne) 1 := by
          unfold unitsBound unitsPerOne
          exact hbound
        rw [ofQuotient, dif_neg (Nat.not_lt.mpr hlarge)]
      · rfl
    | negSucc less =>
      simp only [ofDecimal, hdigits, if_false, Decimal.numerator, Decimal.denominator]
      split
      · rename_i hsmall
        have hhalf : 2 * (digits * unitsPerOne) < 10 ^ (less + 1) := by
          unfold unitsPerOne
          exact double_scaled_lt (a := 1074) hsmall
        exact ofQuotient_congr (by rw [roundUnits_zero, roundUnits_of_lt_half hhalf])
      · rfl

/-- Numerals of one sign and one value are the same number. -/
theorem ofDecimal_congr {d e : Decimal} (hsign : d.negative = e.negative)
    (hvalue : d.numerator * e.denominator = e.numerator * d.denominator) :
    ofDecimal d = ofDecimal e := by
  rw [ofDecimal_eq_ofQuotient, ofDecimal_eq_ofQuotient, hsign,
    ← ofQuotient_mul_right e.negative _ d.denominator e.denominator_pos,
    ← ofQuotient_mul_right e.negative _ e.denominator d.denominator_pos,
    Nat.mul_right_comm, hvalue, Nat.mul_right_comm, Nat.mul_comm e.denominator]

/-- A zero at the end of the digits is a step of the exponent. -/
theorem ofDecimal_mul_ten (negative : Bool) (digits : Nat) (exponent : Int) :
    ofDecimal ⟨negative, digits * 10, exponent⟩ = ofDecimal ⟨negative, digits, exponent + 1⟩ := by
  refine ofDecimal_congr rfl ?_
  cases exponent with
  | ofNat power =>
    have hnext : Int.ofNat power + 1 = Int.ofNat (power + 1) := rfl
    simp only [hnext, Decimal.numerator, Decimal.denominator, Nat.pow_succ, Nat.mul_one]
    rw [Nat.mul_assoc, Nat.mul_comm 10]
  | negSucc less =>
    cases less with
    | zero =>
      simp [Decimal.numerator, Decimal.denominator]
    | succ less =>
      have hnext : Int.negSucc (less + 1) + 1 = Int.negSucc less := rfl
      simp only [hnext, Decimal.numerator, Decimal.denominator, Nat.pow_succ]
      rw [Nat.mul_assoc, Nat.mul_comm 10]

theorem ofDecimal_mul_ten_pow (negative : Bool) (digits : Nat) (exponent : Int) (zeros : Nat) :
    ofDecimal ⟨negative, digits * 10 ^ zeros, exponent⟩ =
      ofDecimal ⟨negative, digits, exponent + zeros⟩ := by
  induction zeros generalizing exponent with
  | zero => simp
  | succ zeros ih =>
    rw [Nat.pow_succ, ← Nat.mul_assoc, ofDecimal_mul_ten, ih, Int.add_assoc, Int.add_comm 1]
    rfl

/-- The sign of a numeral is the sign of the number. -/
theorem negative_of_ofDecimal {d : Decimal} {negative : Bool} {units : Nat}
    {h : IsRepresentable units} (hd : ofDecimal d = .finite negative units h) :
    d.negative = negative := by
  rw [ofDecimal_eq_ofQuotient, ofQuotient] at hd
  split at hd
  · exact (Binary64.finite.inj hd).1
  · cases hd

end Binary64

end Turtle
