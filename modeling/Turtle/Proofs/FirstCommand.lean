import Turtle.Proofs.Concatenation
import Turtle.Proofs.JoinedLines
import Turtle.Proofs.Runs

/-! The first command of a text, read by itself and read as the beginning of a program. To read one
command is to take the first step of reading a program, so both fail alike, and where the command is
read a program goes on with what is left. All that is left stands on lines below the command, so no
later error can be mistaken for one of it. The number of the first line only moves the numbers of
the lines in errors. -/

namespace Turtle.Token
open Text

theorem pairwise_ofText (n : Int) (text : String) :
    (ofText n text).Pairwise fun s t => s.lineNumber ≤ t.lineNumber := by
  rw [ofText_eq_ofRuns]
  exact pairwise_ofRuns n text.toList

/-- Behind a line that has ended every token is further down. -/
theorem lineNumber_lt_of_ended {taken rest : List Token} {last t : Token}
    (h : (taken ++ rest).Pairwise fun s t => s.lineNumber ≤ t.lineNumber)
    (hlast : taken.getLast? = some last)
    (hended : ∀ next ∈ rest.head?, next.lineNumber ≠ last.lineNumber) (ht : t ∈ rest) :
    last.lineNumber < t.lineNumber := by
  obtain ⟨-, hrest, hcross⟩ := List.pairwise_append.mp h
  cases rest with
  | nil => cases ht
  | cons next more =>
    have hne := hended next rfl
    have hle := hcross last (List.mem_of_getLast? hlast) next List.mem_cons_self
    rcases List.mem_cons.mp ht with rfl | ht
    · omega
    · have hnext := (List.pairwise_cons.mp hrest).1 t ht
      omega

/-- The tokens of one line are on that line. -/
theorem lineNumber_of_oneLine {n : Int} {text : String} (h : OneLine text) :
    ∀ t ∈ ofText n text, t.lineNumber = n := by
  intro t ht
  have hlength : (lines text.toList).length ≤ 1 := by
    by_cases hnil : text.toList = []
    · rw [hnil]
      exact Nat.zero_le 1
    · rw [lines_of_no_break h hnil]
      exact Nat.le_refl 1
  obtain ⟨hlow, hhigh⟩ := lineNumber_of_mem_ofLines ht
  omega

end Turtle.Token

namespace Turtle

/-- Where nothing stands behind, both readers end with one value or in corresponding errors. -/
theorem Correspondence.Answers.results {c : Correspondence} {α : Type} {first second : Outcome α}
    (h : c.Answers first second) (hbehind : c.behind = []) :
    (∃ a, first.result = .ok a ∧ second.result = .ok a) ∨
      ∃ e e', first.result = .error e ∧ second.result = .error e' ∧ c.Errors e e' := by
  cases h with
  | ok => exact .inl ⟨_, rfl, rfl⟩
  | error he => exact .inr ⟨_, _, rfl, rfl, he⟩
  | cut hne => exact absurd hbehind hne

end Turtle

namespace Turtle.Parse
open Correspondence Grammar Reader Text

variable {text : String} {number : Int}

theorem line?_of_nil (h : Token.ofText number text = []) :
    line? number text = .error (.emptyCommand none) := by
  rw [line?, line, h]
  rfl

theorem program?_of_nil (h : Token.ofText 1 text = []) : program? text = .ok [] := by
  rw [program?, program, h]
  rfl

/-- Where there are tokens a program begins with a statement. -/
theorem program?_of_ne_nil (h : Token.ofText 1 text ≠ []) :
    ∃ most, (Token.ofText 1 text).length = most + 1 ∧ program? text =
      ((statement >>= fun read => statementsWithin most >>= fun more => pure (read :: more))
        (Tape.ofTokens (Token.ofText 1 text))).result := by
  obtain ⟨most, hmost⟩ := Nat.exists_eq_succ_of_ne_zero (mt List.length_eq_zero_iff.mp h)
  have hprogram : program? text =
      (statementsWithin (most + 1) (Tape.ofTokens (Token.ofText 1 text))).result := by
    rw [← Nat.succ_eq_add_one, ← hmost]
    rfl
  exact ⟨most, hmost, hprogram.trans (congrArg Outcome.result (statementsWithin_of_rest h))⟩

/-- An error in the first command is the error of the program. -/
theorem program?_of_line?_error {e : ParseError} (hne : Token.ofText 1 text ≠ [])
    (h : line? 1 text = .error e) : program? text = .error e := by
  obtain ⟨most, -, hprogram⟩ := program?_of_ne_nil hne
  rw [hprogram]
  exact result_bind_error h _

/-- Behind the first command the program goes on, and no error is on a line of the command. -/
theorem program?_of_line?_ok {read : Command} (h : line? 1 text = .ok read) :
    ∃ taken rest last, Token.ofText 1 text = taken ++ rest ∧ Derives 0 taken read ∧
      taken.getLast? = some last ∧
      ((∃ more, program? text = .ok (read :: more)) ∨
        ∃ e t, program? text = .error e ∧ e.token = some t ∧ last.lineNumber < t.lineNumber) := by
  have hreads : statement.Reads (Tape.ofTokens (Token.ofText 1 text)) read (line 1 text).tape := ⟨h, rfl⟩
  generalize (line 1 text).tape = left at hreads
  obtain ⟨taken, htook, hd, hended⟩ := reads_statement.mp hreads
  have htokens : Token.ofText 1 text = taken ++ left.rest := htook.rest
  have hlast := List.getLast?_eq_some_getLast hd.ne_nil
  refine ⟨taken, left.rest, _, htokens, hd, hlast, ?_⟩
  have hne : Token.ofText 1 text ≠ [] := by simp [htokens, hd.ne_nil]
  obtain ⟨most, hmost, hprogram⟩ := program?_of_ne_nil hne
  have hshort : left.rest.length < most + 1 := hmost ▸ htook.length_lt hd.ne_nil
  rw [hprogram, hreads.result_bind, result_bind_pure]
  cases hrest : (statementsWithin most left).result with
  | ok more => exact .inl ⟨more, rfl⟩
  | error e =>
    obtain ⟨-, t, ht, htoken⟩ := token_of_statementsWithin_error (by omega) hrest
    have hsorted := Token.pairwise_ofText 1 text
    rw [htokens] at hsorted
    exact .inr ⟨e, t, rfl, htoken, Token.lineNumber_lt_of_ended hsorted hlast (hended _ hlast) ht⟩

/-- A single line is one command exactly if it is a program of one. -/
theorem line?_eq_ok_of_oneLine {read : Command} (h : OneLine text) :
    line? 1 text = .ok read ↔ program? text = .ok [read] := by
  rw [line?_eq_ok_of_lineNumber (Token.lineNumber_of_oneLine h), program?_eq_ok, derivesProgram_singleton]

/-- A single line with tokens is a program of one command, or both readers refuse it. -/
theorem results_of_oneLine (h : OneLine text) (hne : Token.ofText 1 text ≠ []) :
    (∃ read, line? 1 text = .ok read ∧ program? text = .ok [read]) ∨
      ∃ e, program? text = .error e ∧ ∀ read, line? 1 text ≠ .ok read := by
  cases hline : line? 1 text with
  | ok read => exact .inl ⟨read, rfl, (line?_eq_ok_of_oneLine h).mp hline⟩
  | error e => exact .inr ⟨e, program?_of_line?_error hne hline, nofun⟩

/-- Further down a command is the same, and an error has moved. -/
theorem line?_moved (number : Int) (text : String) :
    (∀ read, line? number text = .ok read ↔ line? 1 text = .ok read) ∧
    ∀ e, line? 1 text = .error e → ∃ e', line? number text = .error e' ∧ e'.kind = e.kind ∧
      (e.token = none ∧ e'.token = none ∨ ParseError.Moved (· + (number - 1)) e e') := by
  have htokens : Token.ofText number text =
      (Token.ofText 1 text).map (Token.renumber (· + (number - 1))) := by
    have hnumber : 1 + (number - 1) = number := by omega
    rw [Token.ofText, Token.ofText, ← Token.ofLines_add, hnumber]
  by_cases hnil : Token.ofText 1 text = []
  · have hnil' : Token.ofText number text = [] := by rw [htokens, hnil, List.map_nil]
    rw [line?_of_nil hnil, line?_of_nil hnil']
    refine ⟨fun _ => Iff.rfl, fun e he => ?_⟩
    obtain rfl := Except.error.inj he
    exact ⟨_, rfl, rfl, .inl ⟨rfl, rfl⟩⟩
  · have hahead := ahead_renumbering (f := (· + (number - 1))) (fun _ _ => (Int.add_left_inj _).mp)
      (Token.ofText 1 text)
    rw [← htokens] at hahead
    rcases (answers_statement (tapes_of_ahead hahead []) hnil).results rfl with
      ⟨read, hfirst, hmoved⟩ | ⟨e, e', hfirst, hmoved, herrors⟩
    · have hfirst : line? 1 text = .ok read := hfirst
      have hmoved : line? number text = .ok read := hmoved
      rw [hfirst, hmoved]
      exact ⟨fun _ => Iff.rfl, fun e he => by cases he⟩
    · have hfirst : line? 1 text = .error e := hfirst
      have hmoved : line? number text = .error e' := hmoved
      rw [hfirst, hmoved]
      refine ⟨fun read => ?_, fun found hfound => ?_⟩
      · constructor <;> exact fun h => by cases h
      · obtain rfl := Except.error.inj hfound
        have hmove := moved_of_errors herrors
        exact ⟨e', rfl, hmove.kind, .inr hmove⟩

/-- **One command is read as the beginning of a program.** A text without tokens holds no command and is
the program without commands. Any other error of the first command is that of the program; where the
command is read, the program begins with it, or its error is on a line below the last token of the
command. A single line is a command exactly if it is a program of that command alone; and whatever the
number of the first line, the command is the same, or the error is, moved by as many lines. -/
theorem line_begins_program (text : String) :
    (Token.ofText 1 text = [] → line? 1 text = .error (.emptyCommand none) ∧ program? text = .ok []) ∧
    (Token.ofText 1 text ≠ [] → ∀ e, line? 1 text = .error e → program? text = .error e) ∧
    (∀ read, line? 1 text = .ok read →
      ∃ taken rest last, Token.ofText 1 text = taken ++ rest ∧ Derives 0 taken read ∧
        taken.getLast? = some last ∧
        ((∃ more, program? text = .ok (read :: more)) ∨
          ∃ e t, program? text = .error e ∧ e.token = some t ∧ last.lineNumber < t.lineNumber)) ∧
    (OneLine text → ∀ read, line? 1 text = .ok read ↔ program? text = .ok [read]) ∧
    ∀ number,
      (∀ read, line? number text = .ok read ↔ line? 1 text = .ok read) ∧
      ∀ e, line? 1 text = .error e → ∃ e', line? number text = .error e' ∧ e'.kind = e.kind ∧
        (e.token = none ∧ e'.token = none ∨ ParseError.Moved (· + (number - 1)) e e') :=
  ⟨fun h => ⟨line?_of_nil h, program?_of_nil h⟩, fun hne _ h => program?_of_line?_error hne h,
    fun _ h => program?_of_line?_ok h, fun h _ => line?_eq_ok_of_oneLine h,
    fun number => line?_moved number text⟩

/-- Behind a block over two lines a distance is no number: the error is on a line below the block. The
same distance in the first command is refused by both readers, on the seventh line as on the first. A
comment holds no command, and a single line is read as a program of its command. -/
theorem line_begins_program_block :
    (∃ taken last e t, Derives 0 taken (.block 2 [.turn .left]) ∧ taken.getLast? = some last ∧
      program? "REPEAT 2 [ L\n]\nF x" = .error e ∧ e.token = some t ∧ last.lineNumber < t.lineNumber) ∧
    program? "F x" = .error (.badNumber ⟨"x", 1, "F x"⟩ .distance) ∧
    (∃ e', line? 7 "F x" = .error e' ∧ e'.kind = .badNumber) ∧
    line? 1 "# none" = .error (.emptyCommand none) ∧
    program? "F 5" = .ok [.forward 5] := by
  have hblock : line? 1 "REPEAT 2 [ L\n]\nF x" = .ok (.block 2 [.turn .left]) := by decide +kernel
  have hlast : program? "REPEAT 2 [ L\n]\nF x" = .error (.badNumber ⟨"x", 3, "F x"⟩ .distance) := by
    decide +kernel
  have hrefused : line? 1 "F x" = .error (.badNumber ⟨"x", 1, "F x"⟩ .distance) := by decide +kernel
  have hline : line? 1 "F 5" = .ok (.forward 5) := by decide +kernel
  obtain ⟨-, hsame, -, -, hmoved⟩ := line_begins_program "F x"
  obtain ⟨e', hseventh, hkind, -⟩ := (hmoved 7).2 _ hrefused
  refine ⟨?_, hsame (by decide +kernel) _ hrefused, ⟨e', hseventh, hkind⟩,
    ((line_begins_program "# none").1 (by decide +kernel)).1,
    ((line_begins_program "F 5").2.2.2.1 (by decide +kernel) _).mp hline⟩
  obtain ⟨taken, -, last, -, hd, hend, hgoes⟩ :=
    (line_begins_program "REPEAT 2 [ L\n]\nF x").2.2.1 _ hblock
  rcases hgoes with ⟨more, hread⟩ | ⟨e, t, he, htoken, hbelow⟩
  · rw [hlast] at hread
    cases hread
  · exact ⟨taken, last, e, t, hd, hend, he, htoken, hbelow⟩

end Turtle.Parse
