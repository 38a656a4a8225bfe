import Turtle.Command.Basic
import Turtle.Proofs.Conversion

/-! Naturals are read exactly. The relation `Numeral` gives the value of a text of digits place
by place, with no reader and no limit. A natural is read off a text exactly if it is the value of
the text and within the limit: a text that is too long to be converted stands for a number that
is too large, and every other text of digits is decided by its value. What is converted on the
way is seen by a reading that keeps a trace, and that nothing is refused on the way by one whose
conversions are bounded. -/

namespace Turtle.Number

/-- The digits `0` to `9`, one or more of them, and their value: every further digit moves the
ones before it by one place. -/
inductive Numeral : List Char → Nat → Prop
  | digit {d : Nat} : d < 10 → Numeral [Nat.digitChar d] d
  | snoc {text : List Char} {n d : Nat} : Numeral text n → d < 10 →
      Numeral (text ++ [Nat.digitChar d]) (10 * n + d)

theorem digitsValue_digitChar {d : Nat} (h : d < 10) : digitsValue [Nat.digitChar d] = d := by
  rw [digitsValue_cons, Nat.toNat_digitChar_of_lt_ten h]
  simp

theorem digitChar_of_isDigit {c : Char} (h : c.isDigit = true) :
    c.toNat - '0'.toNat < 10 ∧ Nat.digitChar (c.toNat - '0'.toNat) = c := by
  obtain ⟨hlow, hhigh⟩ := Char.isDigit_iff_toNat.mp h
  change 48 ≤ c.toNat at hlow
  change c.toNat ≤ 57 at hhigh
  change c.toNat - 48 < 10 ∧ Nat.digitChar (c.toNat - 48) = c
  have hlt : c.toNat - 48 < 10 := by omega
  refine ⟨hlt, Char.toNat_inj.mp ?_⟩
  rw [Nat.toNat_digitChar_of_lt_ten hlt]
  omega

theorem Numeral.isDigits_and_value {text : List Char} {n : Nat} (h : Numeral text n) :
    isDigits text = true ∧ digitsValue text = n := by
  have hdigit : ∀ d < 10, (Nat.digitChar d).isDigit = true := fun d hd => by
    rw [Nat.isDigit_digitChar, decide_eq_true hd]
  induction h with
  | @digit d hd =>
    exact ⟨isDigits_iff.mpr ⟨by simp, by simpa using hdigit d hd⟩, digitsValue_digitChar hd⟩
  | @snoc text n d _ hd ih =>
    obtain ⟨hdigits, hvalue⟩ := ih
    refine ⟨isDigits_iff.mpr ⟨by simp, fun c hc => ?_⟩, ?_⟩
    · rcases List.mem_append.mp hc with hc | hc
      · exact (isDigits_iff.mp hdigits).2 c hc
      · exact List.mem_singleton.mp hc ▸ hdigit d hd
    · rw [digitsValue_append, digitsValue_digitChar hd, hvalue, List.length_singleton]
      omega

/-- A numeral goes on with every digit that is behind it. -/
theorem Numeral.append {text : List Char} {n : Nat} (h : Numeral text n) {more : List Char}
    (hmore : ∀ c ∈ more, c.isDigit = true) : Numeral (text ++ more) (Nat.ofDigitChars 10 more n) := by
  induction more generalizing text n with
  | nil => simpa using h
  | cons c rest ih =>
    obtain ⟨hc, hrest⟩ := List.forall_mem_cons.mp hmore
    obtain ⟨hlt, hchar⟩ := digitChar_of_isDigit hc
    have hnext := ih (h.snoc hlt) hrest
    rwa [hchar, List.append_assoc, List.singleton_append, ← Nat.ofDigitChars_cons] at hnext

/-- The numerals are the texts of digits, each with the value of its digits. -/
theorem numeral_iff {text : List Char} {n : Nat} :
    Numeral text n ↔ isDigits text = true ∧ digitsValue text = n := by
  refine ⟨Numeral.isDigits_and_value, fun h => ?_⟩
  obtain ⟨hdigits, rfl⟩ := h
  obtain ⟨hne, hall⟩ := isDigits_iff.mp hdigits
  cases text with
  | nil => exact absurd rfl hne
  | cons c rest =>
    obtain ⟨hc, hrest⟩ := List.forall_mem_cons.mp hall
    obtain ⟨hlt, hchar⟩ := digitChar_of_isDigit hc
    have hfirst : Numeral [c] (c.toNat - '0'.toNat) := by
      have h := Numeral.digit hlt
      rwa [hchar] at h
    have hvalue : digitsValue (c :: rest) = Nat.ofDigitChars 10 rest (c.toNat - '0'.toNat) := by
      rw [digitsValue, Nat.ofDigitChars_cons, Nat.mul_zero, Nat.zero_add]
    rw [hvalue, ← List.singleton_append]
    exact hfirst.append hrest

/-- The length decides only what the value would decide in the same way. -/
theorem natural?_eq_some_iff_numeral {limit n : Nat} {text : List Char} :
    natural? limit text = some n ↔ Numeral text n ∧ n ≤ limit := by
  rw [natural?_eq_some_iff, numeral_iff, and_assoc]

theorem natural?_eq_none_iff_numeral {limit : Nat} {text : List Char} :
    natural? limit text = none ↔ ∀ n, Numeral text n → limit < n := by
  rw [Option.eq_none_iff_forall_ne_some]
  refine forall_congr' fun n => ?_
  rw [ne_eq, natural?_eq_some_iff_numeral, not_and, Nat.not_le]

theorem natural?_zeros_append {text : List Char} (h : text ≠ []) (limit zeros : Nat) :
    natural? limit (List.replicate zeros '0' ++ text) = natural? limit text := by
  induction zeros with
  | zero => simp
  | succ zeros ih =>
    rw [List.replicate_succ, List.cons_append, natural?_cons_zero (by simp [h]), ih]

namespace Conversions

/-- The conversions themselves, with a trace of the digits that were converted to a value. -/
def traced : Conversions (StateM (List (List Char))) where
  digits n := pure (Nat.toDigits 10 n)
  value digits := do
    modify (· ++ [digits])
    return digitsValue digits

/-- The conversions where no more than `most` digits are allowed, in either direction. -/
def bounded (most : Nat) : Conversions Option where
  digits n := if (Nat.toDigits 10 n).length ≤ most then some (Nat.toDigits 10 n) else none
  value := boundedValue? most

theorem natural_bounded {most limit : Nat} (h : (Nat.toDigits 10 limit).length ≤ most)
    (text : List Char) : (bounded most).natural limit text = some (natural? limit text) := by
  refine natural_eq (if_pos h) (fun digits hdigits hlen => ?_) text
  exact convertsUpTo_boundedValue? most digits hdigits (Nat.le_trans hlen h)

/-- What is converted is made of digits and is no longer than the limit. -/
theorem natural_traced (limit : Nat) (text : List Char) :
    ∃ converted, (traced.natural limit text).run [] = pure (natural? limit text, converted) ∧
      ∀ digits ∈ converted, isDigits digits = true ∧
        digits.length ≤ (Nat.toDigits 10 limit).length := by
  rw [natural_eq_ite rfl, natural?_eq_ite]
  by_cases h : isDigits text = true ∧ (stripZeros text).length ≤ (Nat.toDigits 10 limit).length
  · rw [if_pos h, if_pos h]
    have hshort : isDigits (stripZeros text) = true ∧
        (stripZeros text).length ≤ (Nat.toDigits 10 limit).length :=
      ⟨isDigits_stripZeros h.1, h.2⟩
    by_cases hlarge : limit < digitsValue (stripZeros text)
    · exact ⟨[stripZeros text], by simp [traced, hlarge], by simpa using hshort⟩
    · exact ⟨[stripZeros text, stripZeros text], by simp [traced, hlarge], by simpa using hshort⟩
  · rw [if_neg h, if_neg h]
    exact ⟨[], rfl, by simp⟩

end Conversions

/-- **Naturals are read exactly.** A natural is read off a text exactly if it is the value of the
digits that the text consists of and is within the limit; off every other text nothing is read.
What is converted on the way are digits, no more than the limit has. So nothing is refused on
the way where as many digits may be converted as it takes to write the limit, and ten are enough
for the limits of programs. Zeros in front of a text that is not empty change nothing. -/
theorem naturals_are_read_exactly (limit : Nat) (text : List Char) :
    (∀ n, natural? limit text = some n ↔ Numeral text n ∧ n ≤ limit) ∧
    (natural? limit text = none ↔ ∀ n, Numeral text n → limit < n) ∧
    (∃ converted,
      (Conversions.traced.natural limit text).run [] = (natural? limit text, converted) ∧
      ∀ digits ∈ converted, (∃ n, Numeral digits n) ∧
        digits.length ≤ (Nat.toDigits 10 limit).length) ∧
    (∀ most, (Nat.toDigits 10 limit).length ≤ most →
      (Conversions.bounded most).natural limit text = some (natural? limit text)) ∧
    (∀ most, 10 ≤ most → ∀ used ∈ [largestNatural, largestChannel],
      (Conversions.bounded most).natural used text = some (natural? used text)) ∧
    (text ≠ [] → ∀ zeros,
      natural? limit (List.replicate zeros '0' ++ text) = natural? limit text) := by
  have hten : ∀ used ∈ [largestNatural, largestChannel], (Nat.toDigits 10 used).length ≤ 10 := by
    decide
  refine ⟨fun n => natural?_eq_some_iff_numeral, natural?_eq_none_iff_numeral, ?_,
    fun most hmost => Conversions.natural_bounded hmost text, fun most hmost used hused => ?_,
    fun hne zeros => natural?_zeros_append hne limit zeros⟩
  · obtain ⟨converted, hrun, hshort⟩ := Conversions.natural_traced limit text
    refine ⟨converted, hrun, fun digits hmem => ?_⟩
    obtain ⟨hdigits, hlen⟩ := hshort digits hmem
    exact ⟨⟨_, numeral_iff.mpr ⟨hdigits, rfl⟩⟩, hlen⟩
  · exact Conversions.natural_bounded (Nat.le_trans (hten used hused) hmost) text

/-- The largest amount with five thousand zeros in front of it is read as that amount, though no
more than 4300 digits may be converted: the three that are left are converted, and nothing else. -/
theorem naturals_are_read_exactly_padded :
    Numeral "255".toList 255 ∧
    (∃ n, Numeral "255".toList n) ∧ "255".toList.length ≤ (Nat.toDigits 10 255).length ∧
    (Conversions.bounded 3).natural 255 (List.replicate 5000 '0' ++ "255".toList) =
      some (some 255) ∧
    (Conversions.bounded 4300).natural largestChannel
      (List.replicate 5000 '0' ++ "255".toList) = some (some 255) := by
  have hread : natural? 255 "255".toList = some 255 := by decide
  have htrace : (Conversions.traced.natural 255 "255".toList).run [] =
      (some 255, ["255".toList, "255".toList]) := by rfl
  obtain ⟨hexact, -, ⟨converted, hrun, hconverted⟩, -, -, hzeros⟩ :=
    naturals_are_read_exactly 255 "255".toList
  obtain ⟨-, -, -, hbounded, hused, -⟩ :=
    naturals_are_read_exactly 255 (List.replicate 5000 '0' ++ "255".toList)
  obtain ⟨-, rfl⟩ := Prod.mk.inj (htrace.symm.trans hrun)
  have hpadded := (hzeros (by decide) 5000).trans hread
  obtain ⟨hnumeral, hlen⟩ := hconverted "255".toList (by simp)
  refine ⟨((hexact 255).mp hread).1, hnumeral, hlen, ?_, ?_⟩
  · exact (hbounded 3 (by decide)).trans (congrArg some hpadded)
  · exact (hused 4300 (by decide) largestChannel (by simp)).trans (congrArg some hpadded)

end Turtle.Number
