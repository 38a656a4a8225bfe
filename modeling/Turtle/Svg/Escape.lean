/-! Text inside a markup document. The two angle brackets and the ampersand are written
as entities, so no text can begin or end an element. -/

namespace Turtle.Svg

/-- A character as it stands inside an element. -/
def escapeChar : Char → List Char
  | '&' => "&amp;".toList
  | '<' => "&lt;".toList
  | '>' => "&gt;".toList
  | c => [c]

/-- A text as it stands inside an element. -/
def escape (text : String) : String := String.ofList (text.toList.flatMap escapeChar)

theorem not_mem_escapeChar {c d : Char} (hd : d = '<' ∨ d = '>') : d ∉ escapeChar c := by
  rcases hd with rfl | rfl <;> simp only [escapeChar] <;> split <;> simp_all [eq_comm]

/-- An escaped text has no angle brackets. -/
theorem not_mem_escape {text : String} {d : Char} (hd : d = '<' ∨ d = '>') :
    d ∉ (escape text).toList := by
  simp only [escape, String.toList_ofList, List.mem_flatMap, not_exists, not_and]
  exact fun c _ => not_mem_escapeChar hd

end Turtle.Svg
