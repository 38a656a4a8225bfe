/-! Lines of a text. A break ends the line before it and belongs to no line; a
carriage return with the line feed after it is one break; a break at the very end
starts no further line. -/

namespace Turtle.Text

/-- The characters that end a line. -/
def isBreak (c : Char) : Bool :=
  let n := c.toNat
  (10 ≤ n && n ≤ 13) || (28 ≤ n && n ≤ 30) || n == 0x85 || n == 0x2028 || n == 0x2029

/-- Puts a character in front of the first line. -/
def extendFirst (c : Char) : List (List Char) → List (List Char)
  | [] => [[c]]
  | line :: more => (c :: line) :: more

/-- The lines of a text, without their breaks. -/
def lines : List Char → List (List Char)
  | [] => []
  | '\r' :: '\n' :: rest => [] :: lines rest
  | c :: rest => if isBreak c then [] :: lines rest else extendFirst c (lines rest)

/-- Writes every line end (`\r\n`, `\r`) as a line feed, the way text files are read. -/
def unifyNewlines : List Char → List Char
  | [] => []
  | '\r' :: '\n' :: rest => '\n' :: unifyNewlines rest
  | '\r' :: rest => '\n' :: unifyNewlines rest
  | c :: rest => c :: unifyNewlines rest

/-- A text without carriage returns is read as it is. -/
theorem unifyNewlines_of_no_return {text : List Char} (h : '\r' ∉ text) :
    unifyNewlines text = text := by
  induction text with
  | nil => rfl
  | cons c rest ih =>
    have hc : c ≠ '\r' := fun he => h (he ▸ List.mem_cons_self)
    have hrest : '\r' ∉ rest := fun hmem => h (List.mem_cons_of_mem c hmem)
    rw [unifyNewlines.eq_4 _ _ (fun _ he _ => hc he) hc, ih hrest]

@[simp] theorem lines_nil : lines [] = [] := rfl

/-- A line feed ends the line before it, whatever follows. -/
theorem lines_newline (rest : List Char) : lines ('\n' :: rest) = [] :: lines rest := by
  simp [lines, isBreak]

/-- A text without breaks is one line. -/
theorem lines_of_no_break {text : List Char} (h : ∀ c ∈ text, isBreak c = false)
    (hne : text ≠ []) : lines text = [text] := by
  induction text with
  | nil => exact absurd rfl hne
  | cons c rest ih =>
    have hc : isBreak c = false := h c (by simp)
    have hrest : ∀ d ∈ rest, isBreak d = false := fun d hd => h d (by simp [hd])
    have hcr : c ≠ '\r' := by rintro rfl; simp [isBreak] at hc
    have step : lines (c :: rest) = extendFirst c (lines rest) := by
      cases rest <;> simp [lines, hcr, hc]
    rw [step]
    cases rest with
    | nil => rfl
    | cons d more => rw [ih hrest (by simp)]; rfl

end Turtle.Text
