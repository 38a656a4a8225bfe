import Turtle.Proofs.Correspondence

/-! Texts one behind the other. A text that is a program leaves nothing open, so what follows it
on new lines is read as it would be read by itself, further down. A text that is refused is
refused with anything behind it, unless a block was open at its end. -/

namespace Turtle.Parse
open Correspondence Text

/-- Where a text ends, the lines of the next one have not begun. -/
theorem apart_append (first second : String) :
    ∀ t ∈ Token.ofText 1 first,
      ∀ extra ∈ (Token.ofText 1 second).map (Token.renumber (· + lineCount first)),
        extra.lineNumber ≠ t.lineNumber := by
  intro t ht extra hextra
  obtain ⟨u, hu, rfl⟩ := List.mem_map.mp hextra
  have hle := Token.lineNumber_le_lineCount ht
  have hlow := (Token.lineNumber_of_mem_ofLines hu).1
  have hnumber : (u.renumber (· + lineCount first)).lineNumber = u.lineNumber + lineCount first :=
    rfl
  omega

/-- The reading of two texts goes through the first and then on to the second. -/
theorem results_append (first second : String) :
    (within (Token.ofText 1 first) _ (apart_append first second)).Results (program? first)
      (program? (first ++ "\n" ++ second)) := by
  have hahead := ahead_within (apart_append first second)
  rw [← Token.ofText_append] at hahead
  exact results_program? hahead

/-- An error that is not the end of the text is found whatever comes behind. -/
theorem program?_append_of_error {first : String} {e : ParseError} (h : program? first = .error e)
    (hkind : e.kind ≠ .unterminated) (second : String) :
    program? (first ++ "\n" ++ second) = .error e := by
  have hresults := results_append first second
  rw [h] at hresults
  obtain ⟨e', herrors, hboth⟩ := hresults.of_error (.inr hkind)
  rw [hboth, (errors_within herrors).1]

/-- Behind a program the second text is read as by itself, and its commands come after. -/
theorem exists_of_program?_append {first : String} {program : List Command}
    (h : program? first = .ok program) (second : String) :
    ∃ result, program? (first ++ "\n" ++ second) = result.map (program ++ ·) ∧
      (renumbering (· + lineCount first) fun _ _ => (Int.add_left_inj _).mp).Results (program? second)
        result := by
  have hresults := results_append first second
  rw [h] at hresults
  generalize hboth : program? (first ++ "\n" ++ second) = both at hresults
  cases hresults with
  | ok henough =>
    refine ⟨_, rfl, results_statementsWithin (tapes_of_ahead (ahead_renumbering _ _) _)
      (Nat.le_refl _) henough⟩

/-- The commands of two programs come one after the other. -/
theorem program?_append_ok {first second : String} {program more : List Command}
    (h : program? first = .ok program) (hmore : program? second = .ok more) :
    program? (first ++ "\n" ++ second) = .ok (program ++ more) := by
  obtain ⟨result, hboth, hresults⟩ := exists_of_program?_append h second
  rw [hmore] at hresults
  rw [hboth, hresults.of_ok rfl]
  rfl

/-- Behind a program an error is found where it is, further down. -/
theorem program?_append_error {first second : String} {program : List Command} {e : ParseError}
    (h : program? first = .ok program) (he : program? second = .error e) :
    ∃ t, e.token = some t ∧ program? (first ++ "\n" ++ second) =
      .error (e.blaming (t.renumber (· + lineCount first))) := by
  obtain ⟨result, hboth, hresults⟩ := exists_of_program?_append h second
  rw [he] at hresults
  obtain ⟨_, ⟨t, _, htoken, -, rfl, rfl⟩, rfl⟩ := hresults.of_error (.inl rfl)
  exact ⟨t, htoken, hboth⟩

/-- **Programs are put together line by line.** Behind a text that is a program, a second text
is read as by itself: its commands come after those of the first, and if it is refused then both
are, for the same reason and further down by the lines of the first. -/
theorem program?_concatenated {first : String} {program : List Command}
    (h : program? first = .ok program) (second : String) :
    (∀ more, program? second = .ok more →
      program? (first ++ "\n" ++ second) = .ok (program ++ more)) ∧
    (∀ e, program? second = .error e → ∃ e', program? (first ++ "\n" ++ second) = .error e' ∧
      ParseError.Moved (· + lineCount first) e e') := by
  refine ⟨fun more hmore => program?_append_ok h hmore, fun e he => ?_⟩
  obtain ⟨t, htoken, hboth⟩ := program?_append_error h he
  exact ⟨_, hboth, ParseError.moved_blaming htoken rfl rfl rfl⟩

/-- A block over three lines, of which the last ends in a carriage return: the line feed behind
it belongs to the same break, so what follows begins on the fourth line. -/
theorem program?_concatenated_block :
    program? ("REPEAT 2 [\n F 5\n]\r" ++ "\n" ++ "# left\nL") =
        .ok [.block 2 [.forward 5], .turn .left] ∧
      ∃ e', program? ("REPEAT 2 [\n F 5\n]\r" ++ "\n" ++ "L\nREPEAT 3 [ R") = .error e' ∧
        ParseError.Moved (· + 3) (.unterminated ⟨"REPEAT", 2, "REPEAT 3 [ R"⟩) e' := by
  have h : program? "REPEAT 2 [\n F 5\n]\r" = .ok [.block 2 [.forward 5]] := by decide +kernel
  have hmore : program? "# left\nL" = .ok [.turn .left] := by decide +kernel
  have he : program? "L\nREPEAT 3 [ R" = .error (.unterminated ⟨"REPEAT", 2, "REPEAT 3 [ R"⟩) := by
    decide +kernel
  exact ⟨(program?_concatenated h _).1 _ hmore, (program?_concatenated h _).2 _ he⟩

end Turtle.Parse
