import Turtle.Proofs.Numeral

/-! Conversions that may refuse. Working out the value of a text of digits costs more the longer
it is, and where the conversion is bounded a long text has no value at all. The reading of
naturals asks for no such value: it compares lengths first, so it converts nothing that is longer
than the limit, and a conversion that is right on such texts is never seen to refuse. The reading
is written once, for conversions of every kind. -/

namespace Turtle.Number

/-- Digits without the zeros in front; of zeros alone one is left. -/
def stripZeros (digits : List Char) : List Char :=
  if (digits.dropWhile (· == '0')).isEmpty then ['0'] else digits.dropWhile (· == '0')

/-- Conversions between numbers and their digits, where one may be refused or leave a trace. -/
structure Conversions (m : Type → Type) where
  digits : Nat → m (List Char)
  value : List Char → m Nat

/-- The reading of a natural, one conversion after another: the limit is written out for its
length, and what is left of the text is converted to be compared and again to be returned. -/
def Conversions.natural {m : Type → Type} [Monad m] (c : Conversions m) (limit : Nat)
    (text : List Char) : m (Option Nat) :=
  if isDigits text then do
    let bound ← c.digits limit
    if bound.length < (stripZeros text).length then pure none
    else do
      let n ← c.value (stripZeros text)
      if limit < n then pure none else some <$> c.value (stripZeros text)
  else pure none

/-- The reading of a natural, with a conversion that may refuse in place of the value; `none` is
a refusal, and `some none` says that the text is no natural within the limit. -/
def naturalBy (convert : List Char → Option Nat) (limit : Nat) (text : List Char) :
    Option (Option Nat) :=
  if isDigits text then
    if (Nat.toDigits 10 limit).length < (stripZeros text).length then some none
    else (convert (stripZeros text)).map fun n => if n ≤ limit then some n else none
  else some none

/-- The conversion of digits to their value where no more than `most` digits are allowed. -/
def boundedValue? (most : Nat) (digits : List Char) : Option Nat :=
  if isDigits digits && decide (digits.length ≤ most) then some (digitsValue digits) else none

/-- A conversion that is right on the digits of numbers up to some length. -/
def ConvertsUpTo (most : Nat) (convert : List Char → Option Nat) : Prop :=
  ∀ digits, isDigits digits = true → digits.length ≤ most →
    convert digits = some (digitsValue digits)

theorem ConvertsUpTo.mono {short most : Nat} {convert : List Char → Option Nat}
    (h : ConvertsUpTo most convert) (hle : short ≤ most) : ConvertsUpTo short convert :=
  fun digits hdigits hlen => h digits hdigits (Nat.le_trans hlen hle)

theorem convertsUpTo_boundedValue? (most : Nat) : ConvertsUpTo most (boundedValue? most) := by
  intro digits hdigits hlen
  simp [boundedValue?, hdigits, hlen]

theorem isDigits_stripZeros {text : List Char} (h : isDigits text = true) :
    isDigits (stripZeros text) = true := by
  unfold stripZeros
  split
  · rfl
  · rename_i hne
    refine isDigits_iff.mpr ⟨by simpa using hne, fun c hc => ?_⟩
    exact (isDigits_iff.mp h).2 c ((List.dropWhile_sublist _).subset hc)

theorem digitsValue_stripZeros (text : List Char) :
    digitsValue (stripZeros text) = digitsValue (text.dropWhile (· == '0')) := by
  unfold stripZeros
  split
  · rename_i hnil
    rw [List.isEmpty_iff.mp hnil]
    rfl
  · rfl

/-- The single zero that is kept is no longer than any limit. -/
theorem lt_length_stripZeros {n : Nat} (h : 0 < n) (text : List Char) :
    n < (stripZeros text).length ↔ n < (text.dropWhile (· == '0')).length := by
  unfold stripZeros
  split
  · rename_i hnil
    rw [List.isEmpty_iff.mp hnil, List.length_singleton, List.length_nil]
    omega
  · rfl

/-- Only a text of digits is converted, and only if the zeros in front apart it is no longer than
the limit. -/
theorem Conversions.natural_eq_ite {m : Type → Type} [Monad m] [LawfulMonad m] {c : Conversions m}
    {limit : Nat} (hlimit : c.digits limit = pure (Nat.toDigits 10 limit)) (text : List Char) :
    c.natural limit text =
      if isDigits text = true ∧ (stripZeros text).length ≤ (Nat.toDigits 10 limit).length then do
        let n ← c.value (stripZeros text)
        if limit < n then pure none else some <$> c.value (stripZeros text)
      else pure none := by
  unfold Conversions.natural
  by_cases hd : isDigits text = true
  · simp only [hd, if_true, hlimit, pure_bind, true_and]
    by_cases hlen : (Nat.toDigits 10 limit).length < (stripZeros text).length
    · rw [if_pos hlen, if_neg (Nat.not_le.mpr hlen)]
    · rw [if_neg hlen, if_pos (Nat.not_lt.mp hlen)]
  · rw [if_neg hd, if_neg fun h => hd h.1]

theorem natural?_eq_ite (limit : Nat) (text : List Char) :
    natural? limit text =
      if isDigits text = true ∧ (stripZeros text).length ≤ (Nat.toDigits 10 limit).length then
        if limit < digitsValue (stripZeros text) then none
        else some (digitsValue (stripZeros text))
      else none := by
  unfold natural?
  by_cases hd : isDigits text = true
  · simp only [hd, if_true, true_and, ← lt_length_stripZeros Nat.length_toDigits_pos,
      ← digitsValue_stripZeros, ← Nat.not_lt, ite_not]
  · rw [if_neg hd, if_neg fun h => hd h.1]

/-- Conversions that are right on the limit, and on digits that are no longer than it, read the
natural that stands in the text. -/
theorem Conversions.natural_eq {m : Type → Type} [Monad m] [LawfulMonad m] {c : Conversions m}
    {limit : Nat} (hlimit : c.digits limit = pure (Nat.toDigits 10 limit))
    (hvalue : ∀ digits, isDigits digits = true → digits.length ≤ (Nat.toDigits 10 limit).length →
      c.value digits = pure (digitsValue digits))
    (text : List Char) : c.natural limit text = pure (natural? limit text) := by
  rw [Conversions.natural_eq_ite hlimit, natural?_eq_ite]
  by_cases h : isDigits text = true ∧ (stripZeros text).length ≤ (Nat.toDigits 10 limit).length
  · rw [if_pos h, if_pos h, hvalue _ (isDigits_stripZeros h.1) h.2, pure_bind, map_pure]
    split <;> rfl
  · rw [if_neg h, if_neg h]

/-- One conversion does for both, as it gives the same each time. -/
theorem naturalBy_eq_natural (convert : List Char → Option Nat) (limit : Nat) (text : List Char) :
    naturalBy convert limit text =
      Conversions.natural ⟨fun n => some (Nat.toDigits 10 n), convert⟩ limit text := by
  unfold naturalBy Conversions.natural
  cases h : convert (stripZeros text) with
  | none => simp [h]
  | some n =>
    by_cases hn : limit < n
    · simp [h, hn, Nat.not_le.mpr hn]
    · simp [h, hn, Nat.not_lt.mp hn]

/-- No more digits than the limit has are ever converted, so no conversion that is right on so
few is seen to refuse. -/
theorem naturalBy_eq {convert : List Char → Option Nat} {limit : Nat}
    (h : ConvertsUpTo (Nat.toDigits 10 limit).length convert) (text : List Char) :
    naturalBy convert limit text = some (natural? limit text) := by
  rw [naturalBy_eq_natural]
  refine Conversions.natural_eq rfl (fun digits hdigits hlen => ?_) text
  exact h digits hdigits hlen

end Turtle.Number
