import Turtle.Proofs.CanonicalText
import Turtle.Proofs.Lines

/-! Texts that are put together from lines. Where no line holds a break, the lines of the text
are the lines that it was put together from, so its tokens are theirs and each line counts. -/

namespace Turtle.Text

/-- Whether a text is a single line. -/
def OneLine (line : String) : Prop := ∀ c ∈ line.toList, isBreak c = false

instance (line : String) : Decidable (OneLine line) := List.decidableBAll _ line.toList

theorem lineCount_append (first second : String) :
    lineCount (first ++ "\n" ++ second) = lineCount first + lineCount second := by
  rw [lineCount, String.append_assoc, toList_feed_append, lines_append, List.length_append,
    ← toList_feed]
  rfl

theorem lineCount_of_oneLine {line : String} (h : OneLine line) : lineCount line = 1 := by
  rw [lineCount, toList_feed, lines_append_newline h]
  rfl

/-- Each line that is put behind a text counts. -/
theorem lineCount_intercalate (first : String) {found : List String}
    (h : ∀ line ∈ found, OneLine line) :
    lineCount ("\n".intercalate (first :: found)) = lineCount first + found.length := by
  induction found generalizing first with
  | nil => rfl
  | cons line rest ih =>
    rw [String.intercalate_cons_of_ne_nil (List.cons_ne_nil line rest), lineCount_append,
      ih line fun other hother => h other (by simp [hother]),
      lineCount_of_oneLine (h line (by simp)), List.length_cons]
    omega

/-- More lines behind some lines are a text behind a text. -/
theorem intercalate_append (first line : String) (found more : List String) :
    "\n".intercalate (first :: (found ++ line :: more)) =
      "\n".intercalate (first :: found) ++ "\n" ++ "\n".intercalate (line :: more) :=
  String.intercalate_append_of_ne_nil (List.cons_ne_nil first found) (List.cons_ne_nil line more)

end Turtle.Text

namespace Turtle.Token
open Text

/-- The tokens of lines that are joined by line feeds. -/
theorem ofText_intercalate (n : Int) {found : List String} (h : ∀ line ∈ found, OneLine line) :
    ofText n ("\n".intercalate found) = ofLines n (found.map String.toList) := by
  induction found generalizing n with
  | nil => rfl
  | cons line rest ih =>
    have hline : OneLine line := h line (by simp)
    have hrest := ih (n + 1) fun other hother => h other (by simp [hother])
    by_cases hnil : rest = []
    · subst hnil
      rw [String.intercalate_singleton, List.map_singleton, ofText]
      by_cases hempty : line.toList = []
      · rw [hempty]
        rfl
      · rw [lines_of_no_break hline hempty]
    · have htext : ("\n".intercalate (line :: rest)).toList =
          line.toList ++ '\n' :: ("\n".intercalate rest).toList := by
        rw [String.intercalate_cons_of_ne_nil hnil, toList_feed_append]
      rw [ofText, htext, lines_append_newline hline, ofLines, List.map_cons, ofLines, ← hrest]
      rfl

end Turtle.Token
