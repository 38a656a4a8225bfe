import Turtle.Number.Natural

/-! Rounding a quotient of naturals to the nearest natural. A half goes to the even
neighbour, so the result is never further than half a unit from the quotient and an
exact quotient is kept. -/

namespace Turtle.Number

/-- The natural nearest to `n / d`; of two that are equally near, the even one. -/
def roundDiv (n d : Nat) : Nat :=
  let quotient := n / d
  let rest := n % d
  if 2 * rest < d then quotient
  else if d < 2 * rest then quotient + 1
  else quotient + quotient % 2

theorem roundDiv_le (n d : Nat) : roundDiv n d ≤ n / d + 1 := by
  simp only [roundDiv]
  split
  · omega
  · split <;> omega

theorem div_le_roundDiv (n d : Nat) : n / d ≤ roundDiv n d := by
  simp only [roundDiv]
  split
  · omega
  · split <;> omega

theorem roundDiv_of_dvd {n d : Nat} (hd : 0 < d) (h : d ∣ n) : roundDiv n d = n / d := by
  have hr : n % d = 0 := Nat.mod_eq_zero_of_dvd h
  simp [roundDiv, hr, hd]

/-- The rounded quotient is within half a unit of the quotient. -/
theorem roundDiv_near {n d : Nat} (hd : 0 < d) :
    2 * n ≤ (2 * roundDiv n d + 1) * d ∧ 2 * roundDiv n d * d ≤ 2 * n + d := by
  have hn := Nat.div_add_mod n d
  have hr := Nat.mod_lt n hd
  simp only [roundDiv]
  generalize n / d = q at hn ⊢
  generalize n % d = r at hn hr ⊢
  subst hn
  have hc : d * q = q * d := Nat.mul_comm d q
  split
  · constructor
    · rw [Nat.add_mul, Nat.mul_assoc]; omega
    · rw [Nat.mul_assoc]; omega
  · split
    · constructor
      · rw [Nat.add_mul, Nat.mul_assoc, Nat.add_mul]; omega
      · rw [Nat.mul_assoc, Nat.add_mul]; omega
    · have h2 : 2 * r = d := by omega
      rcases Nat.mod_two_eq_zero_or_one q with hq | hq
      · simp only [hq, Nat.add_zero]
        constructor
        · rw [Nat.add_mul, Nat.mul_assoc]; omega
        · rw [Nat.mul_assoc]; omega
      · rw [hq]
        constructor
        · rw [Nat.add_mul, Nat.mul_assoc, Nat.add_mul]; omega
        · rw [Nat.mul_assoc, Nat.add_mul]; omega

end Turtle.Number
