/-! Natural numbers written in decimal digits and bounded by a limit. The length of a
text, its leading zeros apart, is compared with that of the limit before its value is
worked out, so the digits of an enormous number are never added up. -/

namespace Turtle.Number

/-- Powers of naturals, written the same in every module whatever else it imports. -/
@[default_instance 10000]
instance (priority := 10000) powNat : Pow Nat Nat := instPowNat

/-- The value of a text of the digits `0` to `9`. -/
def digitsValue (digits : List Char) : Nat := Nat.ofDigitChars 10 digits 0

/-- Whether a text is one or more of the digits `0` to `9`. -/
def isDigits (text : List Char) : Bool := !text.isEmpty && text.all Char.isDigit

/-- The number that a text of digits writes, if it is at most `limit`. -/
def natural? (limit : Nat) (text : List Char) : Option Nat :=
  if isDigits text then
    let digits := text.dropWhile (· == '0')
    if (Nat.toDigits 10 limit).length < digits.length then none
    else if digitsValue digits ≤ limit then some (digitsValue digits)
    else none
  else none

theorem isDigits_iff {text : List Char} :
    isDigits text = true ↔ text ≠ [] ∧ ∀ c ∈ text, c.isDigit = true := by
  simp [isDigits]

@[simp] theorem natural?_nil (limit : Nat) : natural? limit [] = none := rfl

/-- Zeros in front of a number do not change it. -/
theorem natural?_cons_zero {limit : Nat} {text : List Char} (h : text ≠ []) :
    natural? limit ('0' :: text) = natural? limit text := by
  have hd : isDigits ('0' :: text) = isDigits text := by
    cases text with
    | nil => exact absurd rfl h
    | cons c rest => simp [isDigits, (by decide : ('0').isDigit = true)]
  simp [natural?, hd]

end Turtle.Number
