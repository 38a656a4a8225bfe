import Turtle.Binary64.Text
import Turtle.Proofs.Numeral
import Turtle.Proofs.Rounding
import Turtle.Text.Blank

/-! The text of a number is a numeral for that number. The decimal that is chosen reads back
because it was tried, or because it is exact. Both layouts write its digits, without the zeros
at the end, in front of the power of ten that those digits need; the positional one may add
zeros again, which a numeral can do without changing what it is rounded to. -/

namespace Turtle.Number

/-- A text of digits is its digits up to the last that is no zero, and zeros. -/
theorem eq_append_zeros (digits : List Char) :
    ∃ zeros, digits = (digits.reverse.dropWhile (· == '0')).reverse ++
      List.replicate zeros '0' := by
  have hsplit := List.takeWhile_append_dropWhile (p := (· == '0')) (l := digits.reverse)
  have hzeros : digits.reverse.takeWhile (· == '0') =
      List.replicate (digits.reverse.takeWhile (· == '0')).length '0' := by
    refine List.eq_replicate_of_mem fun c hc => ?_
    simpa using List.all_eq_true.mp List.all_takeWhile c hc
  refine ⟨(digits.reverse.takeWhile (· == '0')).length, ?_⟩
  rw [← List.reverse_replicate, ← hzeros, ← List.reverse_append, hsplit, List.reverse_reverse]

theorem digitsValue_append_zeros (digits : List Char) (zeros : Nat) :
    digitsValue (digits ++ List.replicate zeros '0') = digitsValue digits * 10 ^ zeros := by
  rw [digitsValue_append, digitsValue_zeros, List.length_replicate, Nat.add_zero]

theorem digitsValue_zeros_append (digits : List Char) (zeros : Nat) :
    digitsValue (List.replicate zeros '0' ++ digits) = digitsValue digits := by
  rw [digitsValue_append, digitsValue_zeros, Nat.zero_mul, Nat.zero_add]

theorem isDigit_of_mem_zeros {zeros : Nat} :
    ∀ c ∈ List.replicate zeros '0', c.isDigit = true := by
  intro c hc
  rw [List.eq_of_mem_replicate hc]
  exact isDigit_zero

theorem isDigits_append {a b : List Char} (ha : isDigits a = true)
    (hb : ∀ c ∈ b, c.isDigit = true) : isDigits (a ++ b) = true := by
  obtain ⟨hne, hd⟩ := isDigits_iff.mp ha
  refine isDigits_iff.mpr ⟨by simp [hne], fun c hc => ?_⟩
  rcases List.mem_append.mp hc with hc | hc
  · exact hd c hc
  · exact hb c hc

theorem isDigits_take {digits : List Char} {n : Nat} (h : isDigits digits = true) (hn : 0 < n) :
    isDigits (digits.take n) = true := by
  obtain ⟨hne, hd⟩ := isDigits_iff.mp h
  have hlen := List.length_pos_iff.mpr hne
  refine isDigits_iff.mpr ⟨?_, fun c hc => hd c (List.mem_of_mem_take hc)⟩
  rw [← List.length_pos_iff, List.length_take]
  omega

end Turtle.Number

namespace Turtle.Binary64
open Turtle.Number Turtle.Number.Decimal

theorem sign_signText (negative : Bool) : Sign (signText negative) negative := by
  cases negative
  · exact .absent
  · exact .minus

theorem isRepresentable_zero : IsRepresentable 0 := by
  have h := isRepresentable_whole (Nat.zero_le (2 ^ 53))
  rwa [Nat.zero_mul] at h

/-- What is laid out positionally has the digits, perhaps zeros after them, and the leading
exponent. -/
theorem mantissa_positional {digits : List Char} (exponent : Int) (h : isDigits digits = true) :
    ∃ (whole fraction : List Char) (zeros : Nat),
      Mantissa (positional digits exponent) whole fraction ∧
      digitsValue (whole ++ fraction) = digitsValue digits * 10 ^ zeros ∧
      (zeros : Int) - fraction.length = exponent + 1 - digits.length := by
  have hdigits := isDigit_of_mem h
  unfold positional
  split
  · have hfraction : ∀ c ∈ List.replicate (exponent.natAbs - 1) '0' ++ digits,
        c.isDigit = true := by
      intro c hc
      rcases List.mem_append.mp hc with hc | hc
      · exact isDigit_of_mem_zeros c hc
      · exact hdigits c hc
    have hleading : isDigits ['0'] = true := by decide
    refine ⟨['0'], List.replicate (exponent.natAbs - 1) '0' ++ digits, 0,
      .pointed hleading hfraction, ?_, ?_⟩
    · have hzero : ['0'] ++ (List.replicate (exponent.natAbs - 1) '0' ++ digits) =
          List.replicate (exponent.natAbs - 1 + 1) '0' ++ digits := rfl
      rw [hzero, digitsValue_zeros_append, Nat.pow_zero, Nat.mul_one]
    · rw [List.length_append, List.length_replicate]
      omega
  · dsimp only
    split
    · have hzero : isDigits ['0'] = true := by decide
      refine ⟨digits ++ List.replicate (exponent.toNat + 1 - digits.length) '0', ['0'],
        exponent.toNat + 1 - digits.length + 1,
        .pointed (isDigits_append h isDigit_of_mem_zeros) (isDigit_of_mem hzero), ?_, ?_⟩
      · rw [← digitsValue_append_zeros, List.append_assoc, List.replicate_succ']
      · rw [List.length_singleton]
        omega
    · refine ⟨digits.take (exponent.toNat + 1), digits.drop (exponent.toNat + 1), 0,
        .pointed (isDigits_take h (by omega)) fun c hc => hdigits c (List.mem_of_mem_drop hc),
        ?_, ?_⟩
      · rw [List.take_append_drop, Nat.pow_zero, Nat.mul_one]
      · rw [List.length_drop]
        omega

/-- The power of ten that is written: its sign, and two digits at least. -/
theorem power_scientific (exponent : Int) :
    Power ('e' :: (if exponent < 0 then '-' else '+') ::
      List.replicate (2 - (Nat.toDigits 10 exponent.natAbs).length) '0' ++
        Nat.toDigits 10 exponent.natAbs) exponent := by
  have hsign : Sign [if exponent < 0 then '-' else '+'] (decide (exponent < 0)) := by
    by_cases he : exponent < 0
    · rw [if_pos he, decide_eq_true he]
      exact .minus
    · rw [if_neg he, decide_eq_false he]
      exact .plus
  have hdigits : isDigits (List.replicate (2 - (Nat.toDigits 10 exponent.natAbs).length) '0' ++
      Nat.toDigits 10 exponent.natAbs) = true := by
    refine isDigits_iff.mpr ⟨by simp, fun c hc => ?_⟩
    rcases List.mem_append.mp hc with hc | hc
    · exact isDigit_of_mem_zeros c hc
    · exact isDigit_of_mem (isDigits_toDigits _) c hc
  have hvalue : signed (decide (exponent < 0)) exponent.natAbs = exponent := by
    by_cases he : exponent < 0
    · rw [signed, if_pos (decide_eq_true he)]
      omega
    · rw [decide_eq_false he, signed, if_neg Bool.false_ne_true]
      omega
  have hmarked := Power.marked (.inl rfl : 'e' = 'e' ∨ 'e' = 'E') hsign hdigits
  rwa [digitsValue_zeros_append, digitsValue_toDigits, hvalue] at hmarked

/-- The digits that are written: one of them before the point, which needs digits after it. -/
theorem mantissa_scientific {digits : List Char} (h : isDigits digits = true) :
    Mantissa (digits.take 1 ++ (if digits.length ≤ 1 then [] else ['.']) ++ digits.drop 1)
      (digits.take 1) (digits.drop 1) := by
  have hfirst := isDigits_take h (by decide : 0 < 1)
  by_cases hlen : digits.length ≤ 1
  · have hdrop : digits.drop 1 = [] := List.drop_eq_nil_of_le hlen
    rw [if_pos hlen, hdrop, List.append_nil, List.append_nil]
    exact .whole hfirst
  · rw [if_neg hlen, List.append_assoc]
    exact .pointed hfirst fun c hc => isDigit_of_mem h c (List.mem_of_mem_drop hc)

/-- What is laid out with a power of ten has the digits and the leading exponent. -/
theorem writes_scientific {sign digits : List Char} {negative : Bool} (exponent : Int)
    (hs : Sign sign negative) (h : isDigits digits = true) :
    Writes (sign ++ scientific digits exponent)
      ⟨negative, digitsValue digits, exponent + 1 - digits.length⟩ := by
  have hwrites := Writes.intro hs (mantissa_scientific h) (power_scientific exponent)
  have hexponent : exponent - ((digits.drop 1).length : Int) = exponent + 1 - digits.length := by
    have hlen := List.length_pos_iff.mpr (isDigits_iff.mp h).1
    rw [List.length_drop]
    omega
  rw [List.take_append_drop, hexponent] at hwrites
  simpa [scientific] using hwrites

/-- A decimal that is not zero is written as a numeral that is rounded to the same number. -/
theorem writes_write (style : Layout) {d : Decimal} (h : d.digits ≠ 0) :
    ∃ e, Writes (signText d.negative ++ style.write d) e ∧ ofDecimal e = ofDecimal d := by
  obtain ⟨negative, number, exponent⟩ := d
  obtain ⟨dropped, hall⟩ := eq_append_zeros (Nat.toDigits 10 number)
  unfold Layout.write
  dsimp only at h ⊢
  generalize hkept : ((Nat.toDigits 10 number).reverse.dropWhile (· == '0')).reverse = digits at *
  have hnumber : number = digitsValue digits * 10 ^ dropped := by
    rw [← digitsValue_append_zeros, ← hall, digitsValue_toDigits]
  have hdigits : isDigits digits = true := by
    refine isDigits_iff.mpr ⟨?_, fun c hc => ?_⟩
    · intro hnil
      rw [hnil, digitsValue_nil, Nat.zero_mul] at hnumber
      exact h hnumber
    · refine isDigit_of_mem (isDigits_toDigits number) c ?_
      rw [hall]
      exact List.mem_append_left _ hc
  have hlength : (Nat.toDigits 10 number).length = digits.length + dropped := by
    rw [hall, List.length_append, List.length_replicate]
  generalize hlead : exponent + ((Nat.toDigits 10 number).length : Int) - 1 = lead
  -- the digits that are left need the power of ten that was dropped with the zeros
  have hvalue : ofDecimal ⟨negative, number, exponent⟩ =
      ofDecimal ⟨negative, digitsValue digits, lead + 1 - digits.length⟩ := by
    rw [hnumber, ofDecimal_mul_ten_pow]
    congr 2
    omega
  split
  · obtain ⟨whole, fraction, zeros, hmantissa, hdigitsValue, hexponent⟩ :=
      mantissa_positional lead hdigits
    have hwrites := Writes.intro (sign_signText negative) hmantissa .absent
    rw [List.append_nil, hdigitsValue, Int.zero_sub] at hwrites
    refine ⟨_, hwrites, ?_⟩
    rw [hvalue, ofDecimal_mul_ten_pow]
    congr 2
    omega
  · exact ⟨_, writes_scientific lead (sign_signText negative) hdigits, hvalue.symm⟩

theorem zero_eq (negative : Bool) (h : IsRepresentable 0) : zero negative = .finite negative 0 h :=
  ofQuotient_exact negative Nat.one_pos h

theorem ofDecimal_of_digits_eq_zero {d : Decimal} (h : d.digits = 0) :
    ofDecimal d = zero d.negative := by
  rw [ofDecimal, if_pos h]

/-- Every count of units is a decimal: a power of two is one of five in tenths. -/
theorem ofDecimal_fives (n less : Nat) {negative : Bool} {units : Nat} (h : IsRepresentable units)
    (hunits : unitsPerOne = 2 ^ n) (hless : n = less + 1) :
    ofDecimal ⟨negative, units * 5 ^ n, .negSucc less⟩ = .finite negative units h := by
  have hten : units * 5 ^ n * unitsPerOne = units * 10 ^ (less + 1) := by
    rw [hunits, Nat.mul_assoc, ← Nat.mul_pow, hless]
  rw [ofDecimal_eq_ofQuotient]
  simp only [numerator, denominator, hten]
  exact ofQuotient_exact negative (Nat.pow_pos (by decide)) h

theorem ofDecimal_exactDecimal {negative : Bool} {units : Nat} (h : IsRepresentable units) :
    ofDecimal (exactDecimal negative units) = .finite negative units h := by
  have hunits : unitsPerOne = 2 ^ 1074 := by rw [unitsPerOne]
  exact ofDecimal_fives 1074 1073 h hunits rfl

theorem eq_finite_of_readsAs {d : Decimal} {units : Nat} (h : IsRepresentable units)
    (hd : readsAs units d = true) : ofDecimal d = .finite d.negative units h := by
  unfold readsAs at hd
  split at hd
  · rename_i negative m hm heq
    obtain rfl : m = units := by simpa using hd
    rw [negative_of_ofDecimal heq, heq]
  · cases hd

theorem negative_of_mem_neighbours {negative : Bool} {units : Nat} {exponent : Int} {d : Decimal}
    (h : d ∈ neighbours negative units exponent) : d.negative = negative := by
  unfold neighbours at h
  rcases List.mem_cons.mp h with rfl | h
  · rfl
  · rw [List.mem_singleton.mp h]

/-- The decimal that is chosen for a number reads back as the number. -/
theorem ofDecimal_shortest {negative : Bool} {units : Nat} (h : IsRepresentable units) :
    ofDecimal (shortest negative units) = .finite negative units h := by
  unfold shortest
  dsimp only
  generalize hfound : (List.range 17).findSome? (fun more : Nat =>
    (neighbours negative units (leadingExponent units - more)).find? (readsAs units)) = found
  cases found with
  | none => exact ofDecimal_exactDecimal h
  | some d =>
    obtain ⟨more, -, hd⟩ := List.exists_of_findSome?_eq_some hfound
    have hreads := eq_finite_of_readsAs h (List.find?_some hd)
    rwa [negative_of_mem_neighbours (List.mem_of_find?_eq_some hd)] at hreads

/-- **Reading back.** The text of a finite number is a numeral for that number. -/
theorem writes_chars {x : Binary64} (h : x.isFinite = true) :
    ∃ d, Writes x.chars d ∧ ofDecimal d = x := by
  cases x with
  | nan | infinite => cases h
  | finite negative units hu =>
    simp only [chars]
    split
    · rename_i hzero
      subst hzero
      have hdigits : isDigits ['0'] = true := by decide
      have hmantissa := Mantissa.pointed hdigits (isDigit_of_mem hdigits)
      have hwrites := Writes.intro (sign_signText negative) hmantissa .absent
      rw [List.append_nil] at hwrites
      exact ⟨_, hwrites, (ofDecimal_of_digits_eq_zero rfl).trans (zero_eq negative hu)⟩
    · rename_i hunits
      have hread : ofDecimal (shortest negative units) = _ := ofDecimal_shortest hu
      have hsign := negative_of_ofDecimal hread
      have hne : (shortest negative units).digits ≠ 0 := by
        intro h0
        rw [ofDecimal_of_digits_eq_zero h0, zero_eq _ isRepresentable_zero] at hread
        exact hunits (Binary64.finite.inj hread).2.symm
      obtain ⟨e, hwrites, he⟩ := writes_write layout hne
      rw [hsign] at hwrites
      exact ⟨e, hwrites, he.trans hread⟩

/-- A number that is not finite has one of three texts. -/
theorem chars_of_not_finite {x : Binary64} (kind : List Char → Prop) (h : x.isFinite = false)
    (hnan : kind "nan".toList) (hinf : kind "inf".toList) (hneg : kind "-inf".toList) :
    kind x.chars := by
  cases x with
  | nan => exact hnan
  | infinite negative =>
    cases negative with
    | false => exact hinf
    | true => exact hneg
  | finite => cases h

/-- The text of a number that is not finite is no numeral. -/
theorem not_writes_chars {x : Binary64} {d : Decimal} (h : x.isFinite = false) :
    ¬ Writes x.chars d := by
  intro hw
  have hnone := chars_of_not_finite (fun text => Decimal.read? text = none) h
    (by decide) (by decide) (by decide)
  rw [read?_eq_some_iff.mpr hw] at hnone
  cases hnone

theorem not_blank_of_isDigit {c : Char} (h : c.isDigit = true) : Text.isBlank c = false := by
  obtain ⟨hlow, hhigh⟩ := Char.isDigit_iff_toNat.mp h
  have h0 : '0'.toNat = 48 := rfl
  have h9 : '9'.toNat = 57 := rfl
  simp only [Text.isBlank, Bool.or_eq_false_iff, Bool.and_eq_false_iff, decide_eq_false_iff_not,
    beq_eq_false_iff_ne]
  omega

theorem not_blank_of_sign {sign : List Char} {negative : Bool} (h : Sign sign negative) :
    ∀ c ∈ sign, Text.isBlank c = false := by
  intro c hc
  cases h with
  | absent => cases hc
  | plus | minus =>
    rw [List.mem_singleton.mp hc]
    decide

theorem not_blank_of_mantissa {text whole fraction : List Char} (h : Mantissa text whole fraction) :
    ∀ c ∈ text, Text.isBlank c = false := by
  intro c hc
  have hpoint : Text.isBlank '.' = false := by decide
  cases h with
  | whole hw => exact not_blank_of_isDigit (isDigit_of_mem hw c hc)
  | pointed hw hf =>
    rcases List.mem_append.mp hc with hc | hc
    · exact not_blank_of_isDigit (isDigit_of_mem hw c hc)
    · rcases List.mem_cons.mp hc with rfl | hc
      · exact hpoint
      · exact not_blank_of_isDigit (hf c hc)
  | bare hf =>
    rcases List.mem_cons.mp hc with rfl | hc
    · exact hpoint
    · exact not_blank_of_isDigit (isDigit_of_mem hf c hc)

theorem not_blank_of_power {text : List Char} {exponent : Int} (h : Power text exponent) :
    ∀ c ∈ text, Text.isBlank c = false := by
  intro c hc
  cases h with
  | absent => cases hc
  | marked hmark hs hd =>
    rcases List.mem_cons.mp hc with rfl | hc
    · rcases hmark with rfl | rfl <;> decide
    · rcases List.mem_append.mp hc with hc | hc
      · exact not_blank_of_sign hs c hc
      · exact not_blank_of_isDigit (isDigit_of_mem hd c hc)

/-- No numeral holds a blank. -/
theorem not_blank_of_writes {text : List Char} {d : Decimal} (h : Writes text d) :
    ∀ c ∈ text, Text.isBlank c = false := by
  obtain ⟨hs, hm, hp⟩ := h
  intro c hc
  rcases List.mem_append.mp hc with hc | hc
  · exact not_blank_of_sign hs c hc
  · rcases List.mem_append.mp hc with hc | hc
    · exact not_blank_of_mantissa hm c hc
    · exact not_blank_of_power hp c hc

end Turtle.Binary64
