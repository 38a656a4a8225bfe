import Turtle.Json.Reader
import Turtle.Proofs.Numeral

/-! Integers in structured data. A number that begins with a digit is neither a named value nor one
in brackets or quotes, so digits up to a closing bracket are read as the integer that they write,
unless there are too many of them. An object of one member is read by reading its name
and its value. -/

namespace Turtle.Json
open Turtle.Number

variable {c : Char} {digits rest : List Char}

theorem digit_ne {mark : Char} (hc : c.isDigit = true) (hmark : mark.isDigit = false) : c ≠ mark := by
  rintro rfl
  exact absurd hc (by simp [hmark])

/-! What a digit leads to. -/

/-- No name of a value begins with a digit. -/
theorem named?_digit (offset : Nat) (hc : c.isDigit = true) : named? ⟨offset, c :: rest⟩ = none := by
  have hnames : ∀ entry ∈ names, entry.1.toList.head?.map Char.isDigit = some false := by decide
  refine List.findSome?_eq_none_iff.mpr fun (name, v) hentry => if_neg ?_
  obtain ⟨mark, hmark, hdigit⟩ := Option.map_eq_some_iff.mp (hnames _ hentry)
  obtain ⟨more, hname⟩ := List.head?_eq_some_iff.mp hmark
  rw [hname, List.isPrefixOf_cons_cons, beq_false_of_ne (digit_ne hc hdigit).symm]
  exact Bool.false_ne_true

theorem value_digit (inner : Scan → Except Failure (Value × Scan)) (offset : Nat)
    (hc : c.isDigit = true) : value inner ⟨offset, c :: rest⟩ = number ⟨offset, c :: rest⟩ := by
  unfold value
  dsimp only
  split
  · rename_i h
    exact absurd (List.cons.inj h).1 (digit_ne hc rfl)
  · rename_i h
    exact absurd (List.cons.inj h).1 (digit_ne hc rfl)
  · rename_i h
    exact absurd (List.cons.inj h).1 (digit_ne hc rfl)
  · rw [named?_digit offset hc]

theorem skipSpace_digit (offset : Nat) (hc : c.isDigit = true) :
    Scan.skipSpace ⟨offset, ' ' :: c :: rest⟩ = ⟨offset + 1, c :: rest⟩ := by
  have hspace : isSpace c = false := by
    simp only [isSpace, Bool.or_eq_false_iff, beq_eq_false_iff_ne]
    exact ⟨⟨⟨digit_ne hc rfl, digit_ne hc rfl⟩, digit_ne hc rfl⟩, digit_ne hc rfl⟩
  have htake : (' ' :: c :: rest).takeWhile isSpace = [' '] := by
    rw [List.takeWhile_cons_of_pos rfl, List.takeWhile_cons_of_neg (by simp [hspace])]
  rw [Scan.skipSpace, htake]
  rfl

/-! Digits up to a closing bracket. -/

theorem wholeLength_digits (hc : c.isDigit = true) (hne : c ≠ '0')
    (hdigits : ∀ d ∈ digits, d.isDigit = true) :
    wholeLength (c :: digits ++ '\x7d' :: rest) = digits.length + 1 := by
  have hsign : ¬ (c :: digits ++ '\x7d' :: rest).head? = some '-' :=
    fun h => digit_ne hc rfl (Option.some.inj h)
  obtain ⟨htake, -⟩ :=
    Decimal.takeWhile_digits ('\x7d' :: rest) (List.forall_mem_cons.mpr ⟨hc, hdigits⟩) (by simp)
  unfold wholeLength
  rw [if_neg hsign]
  dsimp only
  split
  · rename_i tail h
    exact absurd (List.cons.inj h).1 hne
  · rw [List.drop_zero, htake, Nat.zero_add]
    rfl

theorem integerOf_digits (hc : c.isDigit = true) (hlength : digits.length < mostDigits) :
    integerOf (c :: digits) = .ok (.integer (digitsValue (c :: digits) : Nat)) := by
  have hsplit : Decimal.splitSign (c :: digits) = (false, c :: digits) :=
    Decimal.splitSign_append .absent (by simpa using ⟨digit_ne hc rfl, digit_ne hc rfl⟩)
  rw [integerOf, hsplit]
  exact if_neg (Nat.not_lt_of_le hlength)

theorem number_digits (offset : Nat) (hc : c.isDigit = true) (hne : c ≠ '0')
    (hdigits : ∀ d ∈ digits, d.isDigit = true) (hlength : digits.length < mostDigits) :
    number ⟨offset, c :: digits ++ '\x7d' :: rest⟩ =
      .ok (.integer (digitsValue (c :: digits) : Nat),
        ⟨offset + (digits.length + 1), '\x7d' :: rest⟩) := by
  have htake : (c :: digits ++ '\x7d' :: rest).take (digits.length + 1) = c :: digits :=
    List.take_left' rfl
  have hdrop : (c :: digits ++ '\x7d' :: rest).drop (digits.length + 1) = '\x7d' :: rest :=
    List.drop_left' rfl
  have hfraction : fractionLength ('\x7d' :: rest) = 0 := rfl
  have hpower : exponentLength ('\x7d' :: rest) = 0 := rfl
  unfold number
  dsimp only
  rw [wholeLength_digits hc hne hdigits, if_neg (Nat.succ_ne_zero _), hdrop, hfraction, Nat.add_zero,
    hdrop, hpower, if_pos rfl, Nat.add_zero, htake, integerOf_digits hc hlength]
  dsimp only [bind, Except.bind, pure, Except.pure, Scan.advance]
  rw [hdrop]

/-! An object of one member. -/

theorem membersWithin_one {inner : Scan → Except Failure (Value × Scan)} (most : Nat)
    {offset after last : Nat} {quoted colon rest : List Char} {name : String} {v : Value}
    (hname : string ⟨offset, '"' :: quoted⟩ = .ok (name, ⟨after, ':' :: colon⟩))
    (hvalue : inner (Scan.skipSpace ⟨after + 1, colon⟩) = .ok (v, ⟨last, '\x7d' :: rest⟩)) :
    membersWithin inner (most + 1) ⟨offset, '"' :: quoted⟩ = .ok ([(name, v)], ⟨last + 1, rest⟩) := by
  have hcolon : Scan.skipSpace ⟨after, ':' :: colon⟩ = ⟨after, ':' :: colon⟩ := rfl
  have hadvance : Scan.advance ⟨after, ':' :: colon⟩ 1 = ⟨after + 1, colon⟩ := rfl
  rw [membersWithin]
  dsimp only
  rw [hname]
  dsimp only [bind, Except.bind]
  rw [hcolon]
  dsimp only
  rw [hadvance, hvalue]
  rfl

theorem read_one {after last : Nat} {quoted colon : List Char} {name : String} {v : Value}
    (hname : string ⟨1, '"' :: quoted⟩ = .ok (name, ⟨after, ':' :: colon⟩))
    (hvalue : ∀ depth, valueWithin (depth + 1) (Scan.skipSpace ⟨after + 1, colon⟩) =
      .ok (v, ⟨last, ['\x7d']⟩)) :
    read ('\x7b' :: '"' :: quoted) = .ok (.object [(name, v)]) := by
  have hobject : value (valueWithin (quoted.length + 2)) ⟨0, '\x7b' :: '"' :: quoted⟩ =
      .ok (.object [(name, v)], ⟨last + 1, []⟩) := by
    change Except.bind (membersWithin _ (quoted.length + 1 + 1) ⟨1, '"' :: quoted⟩) _ = _
    rw [membersWithin_one _ hname (hvalue _)]
    rfl
  rw [read, if_neg nofun]
  change Except.bind (valueWithin (quoted.length + 2 + 1) ⟨0, '\x7b' :: '"' :: quoted⟩) _ = _
  rw [valueWithin, hobject]
  rfl

/-- The text of a description with nothing but a width. -/
def widthText (digits : List Char) : List Char := "\x7b\"width\": ".toList ++ (digits ++ ['\x7d'])

/-- A width in digits is read as the integer that they write. -/
theorem read_widthText (hc : c.isDigit = true) (hne : c ≠ '0')
    (hdigits : ∀ d ∈ digits, d.isDigit = true) (hlength : digits.length < mostDigits) :
    read (widthText (c :: digits)) =
      .ok (.object [("width", .integer (digitsValue (c :: digits) : Nat))]) := by
  have htext : widthText (c :: digits) = '\x7b' :: '"' :: 'w' :: 'i' :: 'd' :: 't' :: 'h' :: '"' ::
      ':' :: ' ' :: (c :: digits ++ ['\x7d']) := rfl
  have hvalue : ∀ depth, valueWithin (depth + 1) (Scan.skipSpace ⟨9, ' ' :: (c :: digits ++ ['\x7d'])⟩) =
      .ok (.integer (digitsValue (c :: digits) : Nat), ⟨10 + (digits.length + 1), ['\x7d']⟩) := by
    intro depth
    rw [List.cons_append, skipSpace_digit 9 hc, valueWithin, value_digit _ 10 hc]
    exact number_digits 10 hc hne hdigits hlength
  rw [htext]
  exact read_one rfl hvalue

theorem no_return_widthText (hdigits : ∀ d ∈ digits, d.isDigit = true) : '\r' ∉ widthText digits := by
  have hname : '\r' ∉ "\x7b\"width\": ".toList := by decide
  have hdigit : '\r' ∉ digits := fun h => absurd (hdigits _ h) (by decide)
  intro h
  rcases List.mem_append.mp h with h | h
  · exact hname h
  · exact (List.mem_append.mp h).elim hdigit (by decide)

end Turtle.Json
