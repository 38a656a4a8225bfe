import Mathlib
import Turtle.Proofs.ShortestText

/-! Plain numerals: a minus or no sign, digits, and a point only in front of more digits. The value of a
plain numeral is a rational, and its text determines that value. A text with a fixed number of
places loses the zeros at its end and then a point that nothing follows any more; what is left
is a plain numeral of the same value without a digit too many. -/

namespace Turtle.Number

theorem digitsValue_pos {c : Char} {digits : List Char} (hdigits : isDigits digits = true)
    (hc : c ∈ digits) (hne : c ≠ '0') : 0 < digitsValue digits := by
  obtain ⟨before, after, rfl⟩ := List.append_of_mem hc
  have hdigit : c.isDigit = true := Decimal.isDigit_of_mem hdigits c hc
  have hle : 10 ^ after.length ≤ digitsValue (c :: after) := le_digitsValue hdigit hne
  have hpos : 0 < 10 ^ after.length := Nat.pow_pos (by decide)
  rw [digitsValue_append]
  omega

theorem digitsValue_lt {digits : List Char} (h : ∀ c ∈ digits, c.isDigit = true) :
    digitsValue digits < 10 ^ digits.length := by
  induction digits with
  | nil => decide
  | cons c rest ih =>
    obtain ⟨hlow, hhigh⟩ := Char.isDigit_iff_toNat.mp (h c List.mem_cons_self)
    have hrest := ih fun d hd => h d (List.mem_cons_of_mem c hd)
    have hdigit : c.toNat - '0'.toNat ≤ 9 := by
      have hnine : '9'.toNat = '0'.toNat + 9 := rfl
      omega
    have hle := Nat.mul_le_mul_right (10 ^ rest.length) hdigit
    rw [digitsValue_cons, List.length_cons, Nat.pow_succ]
    omega

/-- A zero in front of the digits of a natural number is all of them. -/
theorem eq_nil_of_toDigits_eq {n : Nat} {rest : List Char} (h : Nat.toDigits 10 n = '0' :: rest) :
    rest = [] := by
  have hdigits : ∀ c ∈ rest, c.isDigit = true := by
    intro c hc
    exact Decimal.isDigit_of_mem (isDigits_toDigits n) c (h ▸ List.mem_cons_of_mem _ hc)
  have hvalue : digitsValue rest = n := by
    have hzero : digitsValue ('0' :: rest) = digitsValue rest := digitsValue_zeros_append rest 1
    rw [← hzero, ← h, digitsValue_toDigits]
  have hlt := digitsValue_lt hdigits
  rw [hvalue] at hlt
  by_contra hne
  have hlength := (Nat.length_toDigits_le_iff (by decide) (List.length_pos_iff.mpr hne)).mpr hlt
  rw [h, List.length_cons] at hlength
  omega

end Turtle.Number

namespace Turtle
open Turtle.Number Turtle.Number.Decimal

/-- A minus or no sign, the digits before the point and those behind it. -/
structure PlainNumeral where
  negative : Bool
  whole : List Char
  fraction : List Char
  isDigits_whole : isDigits whole = true
  isDigit_fraction : ∀ c ∈ fraction, c.isDigit = true

namespace PlainNumeral

/-- Digits behind a point; without digits there is no point. -/
def pointed : List Char → List Char
  | [] => []
  | c :: fraction => '.' :: c :: fraction

theorem pointed_of_ne_nil {fraction : List Char} (h : fraction ≠ []) :
    pointed fraction = '.' :: fraction := by
  cases fraction with
  | nil => exact absurd rfl h
  | cons c rest => rfl

def text (n : PlainNumeral) : List Char :=
  Binary64.signText n.negative ++ (n.whole ++ pointed n.fraction)

/-- The number that a numeral writes. -/
def value (n : PlainNumeral) : ℚ :=
  (if n.negative then -1 else 1) * (digitsValue (n.whole ++ n.fraction) / 10 ^ n.fraction.length)

/-- No digit could be left out: a zero in front of the point stands alone, and none is the last
digit behind it. -/
structure IsMinimal (n : PlainNumeral) : Prop where
  whole : n.whole = ['0'] ∨ n.whole.head? ≠ some '0'
  fraction : n.fraction.getLast? ≠ some '0'

theorem mantissa_pointed {whole fraction : List Char} (hw : isDigits whole = true)
    (hf : ∀ c ∈ fraction, c.isDigit = true) : Mantissa (whole ++ pointed fraction) whole fraction := by
  cases fraction with
  | nil =>
    rw [pointed, List.append_nil]
    exact .whole hw
  | cons c fraction => exact .pointed hw hf

/-- A plain numeral writes its digits over a power of ten. -/
theorem writes (n : PlainNumeral) :
    Writes n.text ⟨n.negative, digitsValue (n.whole ++ n.fraction), 0 - n.fraction.length⟩ := by
  have h := Writes.intro (Binary64.sign_signText n.negative)
    (mantissa_pointed n.isDigits_whole n.isDigit_fraction) .absent
  rwa [List.append_nil] at h

/-- The text of a plain numeral determines its sign and its value. -/
theorem eq_of_text_eq {n m : PlainNumeral} (h : n.text = m.text) :
    n.negative = m.negative ∧ n.value = m.value := by
  have hn := read?_eq_some_iff.mpr n.writes
  rw [h, read?_eq_some_iff.mpr m.writes] at hn
  obtain ⟨hsign, hdigits, hpower⟩ := Decimal.mk.inj (Option.some.inj hn)
  have hlength : n.fraction.length = m.fraction.length := by omega
  refine ⟨hsign.symm, ?_⟩
  rw [value, value, hsign, hdigits, hlength]

/-- A text that is no numeral at all is no plain one. -/
theorem text_ne {t : List Char} (h : Decimal.read? t = none) (n : PlainNumeral) : t ≠ n.text := by
  rintro rfl
  rw [read?_eq_some_iff.mpr n.writes] at h
  cases h

/-- Only one minimal numeral of each sign writes nothing. -/
theorem text_of_value_eq_zero {n : PlainNumeral} (hn : n.IsMinimal) (h : n.value = 0) :
    n.text = Binary64.signText n.negative ++ ['0'] := by
  have hdigits : isDigits (n.whole ++ n.fraction) = true :=
    isDigits_append n.isDigits_whole n.isDigit_fraction
  have hzero : digitsValue (n.whole ++ n.fraction) = 0 := by
    have hsign : (if n.negative then (-1 : ℚ) else 1) ≠ 0 := by split <;> decide
    have hpower : (10 : ℚ) ^ n.fraction.length ≠ 0 := pow_ne_zero _ (by decide)
    have hquotient := (mul_eq_zero.mp h).resolve_left hsign
    exact_mod_cast (div_eq_zero_iff.mp hquotient).resolve_right hpower
  have hall : ∀ c ∈ n.whole ++ n.fraction, c = '0' := by
    intro c hc
    by_contra hne
    have hpos := digitsValue_pos hdigits hc hne
    omega
  have hfraction : n.fraction = [] := by
    by_contra hne
    refine hn.fraction ?_
    rw [List.getLast?_eq_some_getLast hne,
      hall _ (List.mem_append_right _ (List.getLast_mem hne))]
  have hwhole : n.whole = ['0'] := by
    refine hn.whole.resolve_right fun hhead => hhead ?_
    have hne := (isDigits_iff.mp n.isDigits_whole).1
    rw [List.head?_eq_some_head hne, hall _ (List.mem_append_left _ (List.head_mem hne))]
  rw [text, hwhole, hfraction]
  rfl

end PlainNumeral

namespace Binary64
open PlainNumeral

/-- Digits without the zeros at their end. -/
def dropZeros (digits : List Char) : List Char := (digits.reverse.dropWhile (· == '0')).reverse

/-- The zeros that were dropped are a common factor of the digits and of the power of ten. -/
theorem value_dropZeros (whole fraction : List Char) :
    (digitsValue (whole ++ dropZeros fraction) : ℚ) / 10 ^ (dropZeros fraction).length =
      digitsValue (whole ++ fraction) / 10 ^ fraction.length := by
  obtain ⟨zeros, hfraction⟩ := eq_append_zeros fraction
  rw [← dropZeros] at hfraction
  have hdigits : digitsValue (whole ++ fraction) = digitsValue (whole ++ dropZeros fraction) * 10 ^ zeros := by
    rw [← digitsValue_append_zeros, List.append_assoc, ← hfraction]
  have hlength : fraction.length = (dropZeros fraction).length + zeros := by
    conv_lhs => rw [hfraction]
    rw [List.length_append, List.length_replicate]
  have hzeros : (10 : ℚ) ^ zeros ≠ 0 := pow_ne_zero _ (by decide)
  rw [hdigits, hlength, pow_add]
  push_cast
  exact (mul_div_mul_right _ _ hzeros).symm

theorem length_dropZeros_le (digits : List Char) : (dropZeros digits).length ≤ digits.length := by
  have h := (List.dropWhile_sublist (· == '0') (l := digits.reverse)).length_le
  rw [dropZeros, List.length_reverse]
  rwa [List.length_reverse] at h

theorem getLast?_dropZeros (digits : List Char) : (dropZeros digits).getLast? ≠ some '0' := by
  have h := List.head?_dropWhile_not (· == '0') digits.reverse
  rw [dropZeros, List.getLast?_reverse]
  intro hzero
  rw [hzero] at h
  cases h

theorem mem_of_mem_dropZeros {digits : List Char} {c : Char} (h : c ∈ dropZeros digits) : c ∈ digits := by
  have hdropped := (List.dropWhile_sublist _).subset (List.mem_reverse.mp h)
  exact List.mem_reverse.mp hdropped

/-- The digits that are divided by the point: with zeros in front, if there would be none before it. -/
def padded (places n : Nat) : List Char :=
  List.replicate (places + 1 - (Nat.toDigits 10 n).length) '0' ++ Nat.toDigits 10 n

theorem length_padded (places n : Nat) :
    (padded places n).length = max (places + 1) (Nat.toDigits 10 n).length := by
  rw [padded, List.length_append, List.length_replicate]
  omega

theorem withPlaces_eq (places n : Nat) :
    withPlaces places n = (padded places n).take ((padded places n).length - places) ++
      pointed ((padded places n).drop ((padded places n).length - places)) := by
  have hlength := length_padded places n
  rw [withPlaces, ← padded]
  by_cases hplaces : places = 0
  · rw [if_pos hplaces, hplaces, Nat.sub_zero, List.take_length, List.drop_length, pointed,
      List.append_nil]
  · rw [if_neg hplaces]
    cases hdrop : (padded places n).drop ((padded places n).length - places) with
    | nil =>
      have hnone := congrArg List.length hdrop
      rw [List.length_drop, List.length_nil] at hnone
      omega
    | cons c fraction => rw [pointed]

/-- The digits of a natural number in front of its last places and in them. A zero in front stands
alone, and in the places are as many digits as asked for. -/
theorem exists_withPlaces (places n : Nat) :
    ∃ whole fraction, withPlaces places n = whole ++ pointed fraction ∧ isDigits whole = true ∧
      (∀ c ∈ fraction, c.isDigit = true) ∧ fraction.length = places ∧
      digitsValue (whole ++ fraction) = n ∧ (whole = ['0'] ∨ whole.head? ≠ some '0') := by
  have hlength := length_padded places n
  have hdigits : isDigits (padded places n) = true := by
    refine isDigits_iff.mpr ⟨?_, fun c hc => ?_⟩
    · rw [← List.length_pos_iff]
      omega
    · rcases List.mem_append.mp hc with hc | hc
      · exact isDigit_of_mem_zeros c hc
      · exact isDigit_of_mem (isDigits_toDigits n) c hc
  refine ⟨_, _, withPlaces_eq places n, isDigits_take hdigits (by omega),
    fun c hc => isDigit_of_mem hdigits c (List.mem_of_mem_drop hc), ?_, ?_, ?_⟩
  · rw [List.length_drop]
    omega
  · rw [List.take_append_drop, padded, digitsValue_zeros_append, digitsValue_toDigits]
  · by_cases hshort : (Nat.toDigits 10 n).length ≤ places
    · -- nothing would stand before the point but the zero that is put there
      have hone : (padded places n).length - places = 1 := by omega
      have hpad : places + 1 - (Nat.toDigits 10 n).length =
          places - (Nat.toDigits 10 n).length + 1 := by omega
      left
      rw [hone, padded, hpad]
      rfl
    · have hnone : places + 1 - (Nat.toDigits 10 n).length = 0 := by omega
      have hpadded : padded places n = Nat.toDigits 10 n := by rw [padded, hnone]; rfl
      rw [hpadded]
      cases hall : Nat.toDigits 10 n with
      | nil => exact absurd hall Nat.toDigits_ne_nil
      | cons c rest =>
        rw [hall, List.length_cons] at hshort
        rw [List.length_cons, Nat.succ_sub (by omega)]
        by_cases hc : c = '0'
        · subst hc
          left
          rw [eq_nil_of_toDigits_eq hall, List.take_succ_cons, List.take_nil]
        · right
          simpa using hc

/-- Trimming takes away the zeros at the end of the places, and a point that nothing follows any more. -/
theorem trimPlaces_append {front fraction : List Char} (hfront : '.' ∉ front)
    (h : ∀ c ∈ fraction, c.isDigit = true) :
    trimPlaces (front ++ pointed fraction) = front ++ pointed (dropZeros fraction) := by
  have hkeep : ∀ digits : List Char, '.' ∉ digits → digits.dropWhile (· == '.') = digits := by
    intro digits hdigits
    cases digits with
    | nil => rfl
    | cons c rest =>
      refine List.dropWhile_cons_of_neg fun hc => hdigits ?_
      rw [← eq_of_beq hc]
      exact List.mem_cons_self
  by_cases hnil : fraction = []
  · have hcontains : front.contains '.' = false := by simpa using hfront
    rw [hnil, pointed, List.append_nil, trimPlaces, hcontains]
    exact (List.append_nil front).symm
  · have hcontains : (front ++ '.' :: fraction).contains '.' = true := by simp
    have hsplit : (front ++ '.' :: fraction).reverse = fraction.reverse ++ '.' :: front.reverse := by
      simp
    have hstop : ('.' :: front.reverse).dropWhile (· == '0') = '.' :: front.reverse := rfl
    have hpoint : ('.' :: front.reverse).dropWhile (· == '.') = front.reverse := by
      rw [List.dropWhile_cons_of_pos rfl, hkeep _ (by simpa using hfront)]
    rw [pointed_of_ne_nil hnil, trimPlaces, if_pos hcontains, hsplit, List.dropWhile_append, hstop]
    split
    · rename_i hempty
      have hnone : dropZeros fraction = [] := by
        rw [dropZeros, List.isEmpty_iff.mp hempty]
        rfl
      rw [hpoint, hnone, List.reverse_reverse]
      exact (List.append_nil front).symm
    · rename_i hempty
      have hsome : dropZeros fraction ≠ [] := by
        rw [dropZeros]
        simpa using hempty
      have hdigit : ¬ '.' ∈ dropZeros fraction :=
        fun hmem => absurd (h _ (mem_of_mem_dropZeros hmem)) (by decide)
      rw [dropZeros, List.mem_reverse] at hdigit
      rw [List.dropWhile_append, hkeep _ hdigit, if_neg hempty, List.reverse_append, List.reverse_cons,
        List.reverse_reverse, ← dropZeros, pointed_of_ne_nil hsome, List.append_assoc]
      rfl

end Binary64

end Turtle
