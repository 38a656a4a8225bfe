import Turtle.Proofs.Correspondence
import Turtle.Proofs.JoinedLines

/-! Lines that nothing is read from. A blank line or a comment has no tokens, so what it does to
the tokens of a text is to number the lines below it higher by one. Reading asks of line numbers
only whether two of them are equal, and different lines keep different numbers, so the same
program is read, or the same error is found, under its new number. -/

namespace Turtle.Text

/-- Where a line is put in below the first `above` lines, the number of each line. -/
def shifted (above : Nat) (n : Int) : Int := if n ≤ above then n else n + 1

/-- One list of lines becomes another by putting in lines that nothing is read from, one at a
time and anywhere; the function gives each old line its new number. -/
inductive Inserts : (Int → Int) → List String → List String → Prop
  | none (found : List String) : Inserts id found found
  | more {f : Int → Int} {found before after : List String} {line : String} :
      Inserts f found (before ++ after) → OneLine line → isSkipped line.toList = true →
      Inserts (shifted before.length ∘ f) found (before ++ line :: after)

theorem shifted_injective (above : Nat) : Function.Injective (shifted above) := by
  intro m n h
  unfold shifted at h
  split at h <;> split at h <;> omega

theorem Inserts.injective {f : Int → Int} {found found' : List String}
    (h : Inserts f found found') : Function.Injective f := by
  induction h with
  | none => exact fun _ _ h => h
  | more _ _ _ ih => exact fun _ _ h => ih (shifted_injective _ h)

theorem Inserts.oneLine {f : Int → Int} {found found' : List String} (h : Inserts f found found')
    (hlines : ∀ line ∈ found, OneLine line) : ∀ line ∈ found', OneLine line := by
  induction h with
  | none => exact hlines
  | more _ hline _ ih =>
    intro other hother
    rcases List.mem_append.mp hother with hother | hother
    · exact ih hlines other (List.mem_append_left _ hother)
    · rcases List.mem_cons.mp hother with rfl | hother
      · exact hline
      · exact ih hlines other (List.mem_append_right _ hother)

end Turtle.Text

namespace Turtle.Token
open Text

theorem renumber_of_eq {f : Int → Int} {t : Token} (h : f t.lineNumber = t.lineNumber) :
    t.renumber f = t := by
  rw [renumber, h]

/-- A line without tokens moves those below it down by one. -/
theorem ofLines_insert {before after : List (List Char)} {line : List Char}
    (h : isSkipped line = true) :
    ofLines 1 (before ++ line :: after) =
      (ofLines 1 (before ++ after)).map (renumber (shifted before.length)) := by
  have habove : (ofLines 1 before).map (renumber (shifted before.length)) = ofLines 1 before := by
    refine (List.map_congr_left fun t ht => renumber_of_eq ?_).trans (List.map_id _)
    have hlt := (lineNumber_of_mem_ofLines ht).2
    exact if_pos (by omega)
  have hbelow : (ofLines (1 + before.length) after).map (renumber (shifted before.length)) =
      ofLines (1 + before.length + 1) after := by
    rw [ofLines_add (1 + before.length) 1]
    refine List.map_congr_left fun t ht => ?_
    have hle := (lineNumber_of_mem_ofLines ht).1
    have hnumber : shifted before.length t.lineNumber = t.lineNumber + 1 := if_neg (by omega)
    rw [renumber, renumber, hnumber]
  rw [ofLines_append, ofLines_append, ofLines, ofLine_of_isSkipped h, List.nil_append,
    List.map_append, habove, hbelow]

theorem ofLines_of_inserts {f : Int → Int} {found found' : List String}
    (h : Inserts f found found') :
    ofLines 1 (found'.map String.toList) =
      (ofLines 1 (found.map String.toList)).map (renumber f) := by
  induction h with
  | none => exact (List.map_id _).symm
  | more _ _ hskipped ih =>
    rw [List.map_append, List.map_cons, ofLines_insert hskipped, ← List.map_append, ih,
      List.map_map, List.length_map]
    rfl

end Turtle.Token

namespace Turtle.Parse
open Correspondence Text

/-- Two texts hold the same program, or both are refused in the same way on lines that answer to
one another. -/
def ReadAlike (f : Int → Int) (text other : String) : Prop :=
  (∀ program, program? text = .ok program ↔ program? other = .ok program) ∧
    ∀ e, program? text = .error e →
      ∃ e', program? other = .error e' ∧ ParseError.Moved f e e'

/-- Texts with the same tokens but for the numbers of their lines are read alike. -/
theorem readAlike_of_renumber {f : Int → Int} (hf : Function.Injective f) {text other : String}
    (h : Token.ofText 1 other = (Token.ofText 1 text).map (Token.renumber f)) :
    ReadAlike f text other := by
  have hresults : (renumbering f hf).Results (program? text) (program? other) := by
    have hahead := ahead_renumbering hf (Token.ofText 1 text)
    rw [← h] at hahead
    exact results_program? hahead
  cases htext : program? text with
  | ok program =>
    rw [htext] at hresults
    rw [ReadAlike, htext, hresults.of_ok rfl]
    exact ⟨fun _ => Iff.rfl, fun e he => by cases he⟩
  | error e =>
    rw [htext] at hresults
    obtain ⟨e', herrors, hother⟩ := hresults.of_error (.inl rfl)
    rw [ReadAlike, htext, hother]
    refine ⟨fun program => ?_, fun found hfound => ?_⟩
    · constructor <;> exact fun h => by cases h
    · obtain rfl := Except.error.inj hfound
      exact ⟨e', rfl, moved_of_errors herrors⟩

/-- Lines that nothing is read from change nothing, wherever they are put in. -/
theorem readAlike_of_inserts {f : Int → Int} {found found' : List String}
    (hlines : ∀ line ∈ found, OneLine line) (h : Inserts f found found') :
    ReadAlike f ("\n".intercalate found) ("\n".intercalate found') := by
  refine readAlike_of_renumber h.injective ?_
  rw [Token.ofText_intercalate 1 hlines, Token.ofText_intercalate 1 (h.oneLine hlines),
    Token.ofLines_of_inserts h]

/-- **Blank lines and comments are not seen.** A blank line or a comment that is put in anywhere
between the lines of a text, inside of a block or not, leaves the program as it is; an error
stays the same too, on a line whose number is one higher if it is below. The same holds of any
number of such lines. -/
theorem skipped_lines_are_not_seen (before after : List String)
    (hlines : ∀ line ∈ before ++ after, OneLine line) :
    (∀ line, OneLine line → isSkipped line.toList = true →
      ReadAlike (fun n => if n ≤ before.length then n else n + 1)
        ("\n".intercalate (before ++ after)) ("\n".intercalate (before ++ line :: after))) ∧
    (∀ f found, Inserts f (before ++ after) found →
      ReadAlike f ("\n".intercalate (before ++ after)) ("\n".intercalate found)) := by
  refine ⟨fun line hline hskipped => ?_, fun f found h => readAlike_of_inserts hlines h⟩
  exact readAlike_of_inserts hlines (.more (.none _) hline hskipped)

/-- A comment that is put into a block leaves the block as it is; below it and a blank line, the
word that cannot be read is found two lines further down. -/
theorem skipped_lines_are_not_seen_block :
    program? ("\n".intercalate (["REPEAT 2 ["] ++ "\t# left" :: ["L ]", "F 5"])) =
        .ok [.block 2 [.turn .left], .forward 5] ∧
      ∃ e', program? ("\n".intercalate (["REPEAT 2 [", "# left"] ++ "" :: ["F x ]"])) = .error e' ∧
        ParseError.Moved (shifted 2 ∘ shifted 1 ∘ id)
          (.badNumber ⟨"x", 2, "F x ]"⟩ .distance) e' := by
  have hread : program? ("\n".intercalate (["REPEAT 2 ["] ++ ["L ]", "F 5"])) =
      .ok [.block 2 [.turn .left], .forward 5] := by decide +kernel
  have hrefused : program? ("\n".intercalate (["REPEAT 2 ["] ++ ["F x ]"])) =
      .error (.badNumber ⟨"x", 2, "F x ]"⟩ .distance) := by decide +kernel
  have hone := (skipped_lines_are_not_seen ["REPEAT 2 ["] ["L ]", "F 5"] (by decide +kernel)).1
    "\t# left" (by decide +kernel) (by decide +kernel)
  have hcomment : Inserts (shifted 1 ∘ id) (["REPEAT 2 ["] ++ ["F x ]"])
      (["REPEAT 2 ["] ++ "# left" :: ["F x ]"]) :=
    @Inserts.more id (["REPEAT 2 ["] ++ ["F x ]"]) ["REPEAT 2 ["] ["F x ]"] "# left" (.none _)
      (by decide +kernel) (by decide +kernel)
  have hblank : Inserts (shifted 2 ∘ shifted 1 ∘ id) (["REPEAT 2 ["] ++ ["F x ]"])
      (["REPEAT 2 [", "# left"] ++ "" :: ["F x ]"]) :=
    @Inserts.more (shifted 1 ∘ id) (["REPEAT 2 ["] ++ ["F x ]"]) ["REPEAT 2 [", "# left"] ["F x ]"]
      "" hcomment (by decide +kernel) (by decide +kernel)
  have htwo :=
    (skipped_lines_are_not_seen ["REPEAT 2 ["] ["F x ]"] (by decide +kernel)).2 _ _ hblank
  exact ⟨(hone.1 _).mp hread, htwo.2 _ hrefused⟩

end Turtle.Parse
