import Turtle.Proofs.PlainNumeral

/-! What the text of a number with few places says. A finite number is a rational, and its text is the
numeral of the nearest multiple of the last place, a half going to the even one. The text has
no digit that could be left out. The sign is that of the number itself and not of what it is
rounded to, so a number below zero that rounds to zero is written with a minus. -/

namespace Turtle.Number

/-- A quotient half-way between two naturals is rounded to an even one. -/
theorem even_roundDiv {n d : Nat} (hd : 0 < d)
    (h : 2 * n = (2 * roundDiv n d + 1) * d ∨ 2 * roundDiv n d * d = 2 * n + d) :
    Even (roundDiv n d) := by
  have hn := Nat.div_add_mod n d
  have hr := Nat.mod_lt n hd
  unfold roundDiv at h ⊢
  dsimp only at h ⊢
  generalize n / d = q at hn h ⊢
  generalize n % d = r at hn hr h ⊢
  subst hn
  split_ifs at h ⊢ with hlow hhigh
  · rcases h with h | h <;> nlinarith
  · rcases h with h | h <;> nlinarith
  · rw [Nat.even_iff]
    omega

/-- An integer is nearest to a rational; of two that are equally near it is the even one. -/
def IsNearest (q : ℚ) (k : ℤ) : Prop := 2 * |q - k| < 1 ∨ 2 * |q - k| = 1 ∧ Even k

theorem IsNearest.neg {q : ℚ} {k : ℤ} (h : IsNearest q k) : IsNearest (-q) (-k) := by
  have habs : |-q - ((-k : ℤ) : ℚ)| = |q - k| := by
    rw [← abs_neg]
    push_cast
    ring_nf
  unfold IsNearest at h ⊢
  rwa [habs, even_neg]

/-- The nearest integers are in the order of the rationals. -/
theorem IsNearest.mono {q r : ℚ} {k l : ℤ} (hq : IsNearest q k) (hr : IsNearest r l) (h : q ≤ r) :
    k ≤ l := by
  by_contra hlt
  have hstep : (l : ℚ) + 1 ≤ k := by exact_mod_cast not_le.mp hlt
  have hk := neg_abs_le (q - k)
  have hl := le_abs_self (r - l)
  rcases hq with hq | ⟨hq, hevenK⟩
  · rcases hr with hr | ⟨hr, -⟩ <;> linarith
  · rcases hr with hr | ⟨hr, hevenL⟩
    · linarith
    · -- both are half-way between the same two integers, of which only one is even
      have hnext : (k : ℚ) = l + 1 := by linarith
      have hodd : k = l + 1 := by exact_mod_cast hnext
      rw [hodd, Int.even_add_one] at hevenK
      exact hevenK hevenL

theorem isNearest_roundDiv (n : Nat) {d : Nat} (hd : 0 < d) :
    IsNearest (n / d) (roundDiv n d : Nat) := by
  obtain ⟨hlow, hhigh⟩ := roundDiv_near (n := n) hd
  have htie := even_roundDiv (n := n) hd
  have hpos : (0 : ℚ) < d := by exact_mod_cast hd
  have hquotient : (n : ℚ) = n / d * d := (div_mul_cancel₀ _ hpos.ne').symm
  generalize roundDiv n d = m at hlow hhigh htie ⊢
  generalize (n : ℚ) / d = q at hquotient ⊢
  have hle : 2 * q ≤ 2 * m + 1 := by
    refine le_of_mul_le_mul_right ?_ hpos
    have hcast : 2 * (n : ℚ) ≤ (2 * m + 1) * d := by exact_mod_cast hlow
    linarith
  have hge : 2 * (m : ℚ) ≤ 2 * q + 1 := by
    refine le_of_mul_le_mul_right ?_ hpos
    have hcast : 2 * (m : ℚ) * d ≤ 2 * n + d := by exact_mod_cast hhigh
    linarith
  have heven : 2 * q = 2 * m + 1 ∨ 2 * (m : ℚ) = 2 * q + 1 → Even m := by
    refine fun h => htie (h.imp (fun h => ?_) fun h => ?_)
    · have hcast : 2 * (n : ℚ) = (2 * m + 1) * d := by rw [hquotient, ← h]; ring
      exact_mod_cast hcast
    · have hcast : 2 * (m : ℚ) * d = 2 * n + d := by rw [hquotient, h]; ring
      exact_mod_cast hcast
  rw [IsNearest, Int.cast_natCast, Int.even_coe_nat]
  rcases abs_cases (q - m) with ⟨habs, -⟩ | ⟨habs, -⟩
  · rw [habs]
    rcases hle.lt_or_eq with hlt | heq
    · left
      linarith
    · exact .inr ⟨by linarith, heven (.inl heq)⟩
  · rw [habs]
    rcases hge.lt_or_eq with hlt | heq
    · left
      linarith
    · exact .inr ⟨by linarith, heven (.inr heq)⟩

end Turtle.Number

namespace Turtle
open Turtle.Number

/-- The multiple of the last of some decimal places that is nearest to a rational; of two that are
equally near, the even one. -/
def RoundsTo (places : Nat) (q r : ℚ) : Prop :=
  ∃ k : ℤ, IsNearest (q * 10 ^ places) k ∧ r = k / 10 ^ places

theorem RoundsTo.mono {places : Nat} {q r q' r' : ℚ} (h : RoundsTo places q r)
    (h' : RoundsTo places q' r') (hle : q ≤ q') : r ≤ r' := by
  obtain ⟨k, hk, rfl⟩ := h
  obtain ⟨l, hl, rfl⟩ := h'
  have hpower : (0 : ℚ) < 10 ^ places := by positivity
  have hkl : (k : ℚ) ≤ l := by
    exact_mod_cast hk.mono hl (mul_le_mul_of_nonneg_right hle hpower.le)
  exact div_le_div_of_nonneg_right hkl hpower.le

theorem RoundsTo.unique {places : Nat} {q r r' : ℚ} (h : RoundsTo places q r)
    (h' : RoundsTo places q r') : r = r' :=
  le_antisymm (h.mono h' le_rfl) (h'.mono h le_rfl)

namespace Binary64
open PlainNumeral

/-- The rational that a finite number is; the others are none. -/
def value : Binary64 → ℚ
  | .finite negative units _ => signedUnits negative units / unitsPerOne
  | _ => 0

theorem unitsPerOne_pos : 0 < unitsPerOne := by
  unfold unitsPerOne
  positivity

theorem signedUnits_eq (negative : Bool) (n : Nat) :
    ((signedUnits negative n : ℤ) : ℚ) = (if negative then -1 else 1) * n := by
  cases negative <;> simp [signedUnits]

theorem roundsTo_signedUnits (places : Nat) (negative : Bool) (units : Nat) :
    RoundsTo places (signedUnits negative units / unitsPerOne)
      (signedUnits negative (roundDiv (units * 10 ^ places) unitsPerOne) / 10 ^ places) := by
  have hnearest := isNearest_roundDiv (units * 10 ^ places) unitsPerOne_pos
  refine ⟨_, ?_, rfl⟩
  push_cast at hnearest
  cases negative with
  | false =>
    have hvalue : ((signedUnits false units : ℤ) : ℚ) / unitsPerOne * 10 ^ places =
        units * 10 ^ places / unitsPerOne := by
      rw [signedUnits, if_neg Bool.false_ne_true, Int.cast_natCast]
      ring
    rw [hvalue]
    exact hnearest
  | true =>
    have hvalue : ((signedUnits true units : ℤ) : ℚ) / unitsPerOne * 10 ^ places =
        -(units * 10 ^ places / unitsPerOne) := by
      rw [signedUnits, if_pos rfl, Int.cast_neg, Int.cast_natCast]
      ring
    rw [hvalue]
    exact hnearest.neg

/-- The text of a finite number: a minus if it is below zero, and its units rounded to the places. -/
theorem toList_compact (places : Nat) {negative : Bool} {units : Nat} (h : IsRepresentable units) :
    ((finite negative units h).compact places).toList =
      trimPlaces (signText (finite negative units h).isNegative ++
        withPlaces places (roundDiv (units * 10 ^ places) unitsPerOne)) := by
  rw [compact, String.toList_ofList, isZero, isNegative]
  by_cases hzero : units = 0
  · subst hzero
    rw [if_pos (beq_self_eq_true 0), zero_eq false h, fixed, bne_self_eq_false, Bool.and_false]
  · rw [if_neg (by simpa using hzero), fixed, bne_iff_ne.mpr hzero, Bool.and_true]

/-- The places of a number without the zeros at their end are a numeral of the same value. -/
theorem exists_numeral (places : Nat) {x : Binary64} (hx : x.isFinite = true) :
    ∃ n : PlainNumeral, (x.compact places).toList = n.text ∧ n.negative = x.isNegative ∧
      RoundsTo places x.value n.value ∧ n.fraction.length ≤ places ∧ n.IsMinimal := by
  cases x with
  | nan | infinite => cases hx
  | finite negative units h =>
    obtain ⟨whole, fraction, htext, hwhole, hfraction, hlength, hvalue, hleading⟩ :=
      exists_withPlaces places (roundDiv (units * 10 ^ places) unitsPerOne)
    have hpoint : '.' ∉ signText (finite negative units h).isNegative ++ whole := by
      intro hmem
      rcases List.mem_append.mp hmem with hmem | hmem
      · generalize (finite negative units h).isNegative = sign at hmem
        cases sign <;> simp [signText] at hmem
      · exact absurd (Decimal.isDigit_of_mem hwhole _ hmem) (by decide)
    have hdrop := value_dropZeros whole fraction
    rw [hvalue, hlength] at hdrop
    -- where the sign is dropped there is nothing to which it could be given
    have hsign : ((if (finite negative units h).isNegative then -1 else 1) : ℚ) *
        roundDiv (units * 10 ^ places) unitsPerOne =
          signedUnits negative (roundDiv (units * 10 ^ places) unitsPerOne) := by
      rw [signedUnits_eq, isNegative]
      by_cases hzero : units = 0
      · rw [hzero, Nat.zero_mul, roundDiv_zero, Nat.cast_zero, mul_zero, mul_zero]
      · rw [bne_iff_ne.mpr hzero, Bool.and_true]
    have hkept : ∀ c ∈ dropZeros fraction, c.isDigit = true :=
      fun c hc => hfraction c (mem_of_mem_dropZeros hc)
    refine ⟨⟨(finite negative units h).isNegative, whole, dropZeros fraction, hwhole, hkept⟩, ?_, rfl, ?_, ?_,
      hleading, getLast?_dropZeros fraction⟩
    · rw [toList_compact, htext, ← List.append_assoc, trimPlaces_append hpoint hfraction, List.append_assoc]
      rfl
    · rw [PlainNumeral.value, hdrop, ← mul_div_assoc]
      dsimp only
      rw [hsign]
      exact roundsTo_signedUnits places negative units
    · rw [← hlength]
      exact length_dropZeros_le fraction

/-- A number is written as a plain numeral exactly if it is finite. -/
theorem exists_text_eq_iff (places : Nat) (x : Binary64) :
    (∃ n : PlainNumeral, (x.compact places).toList = n.text) ↔ x.isFinite = true := by
  constructor
  · rintro ⟨n, htext⟩
    cases x with
    | finite => rfl
    | nan =>
      have hnan : (nan.compact places).toList = "nan".toList := rfl
      exact absurd (hnan.symm.trans htext) (text_ne (by decide) n)
    | infinite negative =>
      have hinf : ((infinite negative).compact places).toList = signText negative ++ "inf".toList := by
        rw [compact, String.toList_ofList]
        cases negative <;> rfl
      exact absurd (hinf.symm.trans htext) (text_ne (by cases negative <;> decide) n)
  · intro hx
    obtain ⟨n, htext, -⟩ := exists_numeral places hx
    exact ⟨n, htext⟩

/-- **The text of a number is the rounded number.** The text of a finite number with at most so many
places is a plain numeral without a digit too many. It writes the nearest multiple of the last
place, of two that are equally near the even one. Numbers that are rounded to different
multiples have different texts, and what the texts write is in the order of the numbers. -/
theorem compact_writes_rounded (places : Nat) {x : Binary64} (hx : x.isFinite = true) :
    ∃ n : PlainNumeral, (x.compact places).toList = n.text ∧ RoundsTo places x.value n.value ∧
      n.fraction.length ≤ places ∧ n.IsMinimal ∧
      ∀ y : Binary64, y.isFinite = true →
        (∀ r s, RoundsTo places x.value r → RoundsTo places y.value s → r ≠ s →
          x.compact places ≠ y.compact places) ∧
        ∀ m : PlainNumeral, (y.compact places).toList = m.text → x.value ≤ y.value →
          n.value ≤ m.value := by
  obtain ⟨n, htext, -, hrounds, hlength, hminimal⟩ := exists_numeral places hx
  refine ⟨n, htext, hrounds, hlength, hminimal, fun y hy => ?_⟩
  obtain ⟨m, htext', -, hrounds', -, -⟩ := exists_numeral places hy
  constructor
  · intro r s hr hs hne heq
    rw [heq, htext'] at htext
    refine hne ?_
    rw [hr.unique hrounds, hs.unique hrounds', (eq_of_text_eq htext).2]
  · intro m' hm' hle
    rw [htext'] at hm'
    rw [← (eq_of_text_eq hm').2]
    exact hrounds.mono hrounds' hle

/-- A half is rounded to the even neighbour, below zero as well, and zeros in front of the point stay. -/
theorem compact_writes_rounded_half :
    (ofDecimal ⟨true, 25, -1⟩).compact 0 = "-2" ∧ (ofNat 100).compact 0 = "100" ∧
      ∃ n m : PlainNumeral, "-2".toList = n.text ∧ "100".toList = m.text ∧ n.value ≤ m.value ∧
        RoundsTo 0 (ofDecimal ⟨true, 25, -1⟩).value n.value ∧ n.IsMinimal := by
  have hx : (ofDecimal ⟨true, 25, -1⟩).isFinite = true := by decide +kernel
  have hy : (ofNat 100).isFinite = true := by decide +kernel
  have hxtext : (ofDecimal ⟨true, 25, -1⟩).compact 0 = "-2" := by decide +kernel
  have hytext : (ofNat 100).compact 0 = "100" := by decide +kernel
  have hle : (ofDecimal ⟨true, 25, -1⟩).value ≤ (ofNat 100).value := by decide +kernel
  obtain ⟨n, hn, hrounds, -, hminimal, hother⟩ := compact_writes_rounded 0 hx
  obtain ⟨m, hm, -⟩ := compact_writes_rounded 0 hy
  rw [hxtext] at hn
  refine ⟨hxtext, hytext, n, m, hn, ?_, (hother _ hy).2 m hm hle, hrounds, hminimal⟩
  rw [← hytext]
  exact hm

/-- The numeral of a zero. -/
def zeroNumeral (negative : Bool) : PlainNumeral := ⟨negative, ['0'], [], by decide, nofun⟩

theorem value_zeroNumeral (negative : Bool) : (zeroNumeral negative).value = 0 := by
  have hzero : digitsValue (['0'] ++ []) = 0 := by decide
  rw [PlainNumeral.value, zeroNumeral, hzero, Nat.cast_zero, zero_div, mul_zero]

/-- Which of the two zeros is written tells the sign of the number. -/
theorem compact_eq_zero_iff (places : Nat) {x : Binary64} (hx : x.isFinite = true) (negative : Bool) :
    (x.compact places).toList = (zeroNumeral negative).text ↔
      RoundsTo places x.value 0 ∧ x.isNegative = negative := by
  obtain ⟨n, htext, hsign, hrounds, -, hminimal⟩ := exists_numeral places hx
  rw [htext, ← hsign]
  constructor
  · intro heq
    obtain ⟨hnegative, hvalue⟩ := eq_of_text_eq heq
    rw [value_zeroNumeral] at hvalue
    rw [hvalue] at hrounds
    exact ⟨hrounds, hnegative⟩
  · rintro ⟨hzero, rfl⟩
    exact text_of_value_eq_zero hminimal (hrounds.unique hzero)

/-- **A zero with a minus.** A finite number that is rounded to zero is written as a zero. The zero has
a minus exactly if the number is below zero, so the zero of either sign is written without. -/
theorem zero_text_has_sign_of_number (places : Nat) {x : Binary64} (hx : x.isFinite = true) :
    (x.compact places = "0" ↔ RoundsTo places x.value 0 ∧ x.isNegative = false) ∧
      (x.compact places = "-0" ↔ RoundsTo places x.value 0 ∧ x.isNegative = true) := by
  have hzero : (zeroNumeral false).text = "0".toList := rfl
  have hminus : (zeroNumeral true).text = "-0".toList := rfl
  rw [← compact_eq_zero_iff places hx, ← compact_eq_zero_iff places hx, hzero, hminus,
    String.toList_inj, String.toList_inj]
  exact ⟨Iff.rfl, Iff.rfl⟩

/-- A ten-thousandth below zero and above, with three places. -/
theorem zero_text_has_sign_of_number_thousandths :
    (RoundsTo 3 (ofDecimal ⟨true, 1, -4⟩).value 0 ∧ (ofDecimal ⟨true, 1, -4⟩).isNegative = true) ∧
      RoundsTo 3 (ofDecimal ⟨false, 1, -4⟩).value 0 := by
  have hbelow : (ofDecimal ⟨true, 1, -4⟩).isFinite = true := by decide +kernel
  have habove : (ofDecimal ⟨false, 1, -4⟩).isFinite = true := by decide +kernel
  have hminus : (ofDecimal ⟨true, 1, -4⟩).compact 3 = "-0" := by decide +kernel
  have hzero : (ofDecimal ⟨false, 1, -4⟩).compact 3 = "0" := by decide +kernel
  exact ⟨(zero_text_has_sign_of_number 3 hbelow).2.mp hminus,
    ((zero_text_has_sign_of_number 3 habove).1.mp hzero).1⟩

/-- A minus in front of a zero is written: a ten-thousandth below zero has one with three places. -/
theorem minus_zero_is_written :
    (ofDecimal ⟨true, 1, -4⟩).isFinite = true ∧ (ofDecimal ⟨true, 1, -4⟩).compact 3 = "-0" := by
  decide +kernel

end Binary64

end Turtle
