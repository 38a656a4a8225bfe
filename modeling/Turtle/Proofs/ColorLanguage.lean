import Turtle.Canvas.Description
import Turtle.Proofs.ColorForms
import Turtle.Proofs.FirstCommand

/-! Colours in descriptions and in programs. A description gives a colour as a word in base sixteen or as
three integers, a program as one such word or as three naturals in decimal. Each side is compared
with the same two relations: which words write which colour, and which amounts are bytes. -/

namespace Turtle.Description
open Grammar

/-- A described word is read as the colour that it writes, or refused. -/
theorem color_string (path x : String) :
    (∃ c, color path (.string x) = .ok c ∧ HexColor x.toList c) ∨
      ∃ fault, color path (.string x) = .error (.badHex path x fault) ∧ ∀ c, ¬ HexColor x.toList c := by
  simp only [← ofHex?_eq_ok_iff]
  rw [color]
  cases Color.ofHex? x.toList with
  | ok c => exact .inl ⟨c, rfl, rfl⟩
  | error fault => exact .inr ⟨fault, rfl, nofun⟩

/-- Three described integers are a colour if they are bytes. -/
theorem color_array (path : String) (c : Color) :
    color path (.array [.integer c.red, .integer c.green, .integer c.blue]) =
      if c.IsBytes then .ok c else .error (.channelRange path) := by
  have hchannels : (isChannel c.red && isChannel c.green && isChannel c.blue) = true ↔ c.IsBytes := by
    simp only [isChannel, Color.IsBytes, Bool.and_eq_true, decide_eq_true_eq, and_assoc]
  by_cases hbytes : c.IsBytes
  · rw [if_pos hbytes]
    exact if_pos (hchannels.mpr hbytes)
  · rw [if_neg hbytes]
    exact if_neg (mt hchannels.mp hbytes)

end Turtle.Description

namespace Turtle.Grammar

/-- Behind the word of a colour command one token is a colour in base sixteen. -/
theorem derives_colorWord {depth : Nat} {word digits : Token} {read : Command} (hs : Spells word .color)
    (hl : OnLine word digits) :
    Derives depth [word, digits] read ↔ ∃ c, read = .setColor c ∧ HexColor digits.text.toList c := by
  constructor
  · intro h
    cases h with
    | forward hs' => cases spells_unique hs hs'
    | size hs' => cases spells_unique hs hs'
    | hexColor _ _ hc => exact ⟨_, rfl, hc⟩
  · rintro ⟨c, rfl, hc⟩
    exact .hexColor hs hl hc

end Turtle.Grammar

namespace Turtle.Parse
open Command Grammar Text

/-- A program of a colour word is read as the colour that the word writes, or refused. -/
theorem program?_colorWord {x : String} (h : IsWord x.toList) :
    (∃ c, program? ("SETCOLOR " ++ x) = .ok [.setColor c] ∧ HexColor x.toList c) ∨
      ∃ e, program? ("SETCOLOR " ++ x) = .error e ∧ ∀ c, ¬ HexColor x.toList c := by
  have hwords : ∀ word ∈ [Keyword.color.word, x], IsWord word.toList := by
    simp [isWord_keyword, h]
  have htext : " ".intercalate [Keyword.color.word, x] = "SETCOLOR " ++ x := by
    simp [Keyword.word, String.intercalate_cons_cons]
  have htokens := ofText_joined hwords rfl (by simp) 1
  have hline : OneLine (" ".intercalate [Keyword.color.word, x]) := not_isBreak_joined hwords
  rw [htext] at htokens hline
  have hread : ∀ read, line? 1 ("SETCOLOR " ++ x) = .ok read ↔
      ∃ c, read = .setColor c ∧ HexColor x.toList c := by
    intro read
    rw [line?_eq_ok_of_lineNumber (Token.lineNumber_of_oneLine hline), htokens]
    exact derives_colorWord (spells_word rfl) rfl
  rcases results_of_oneLine hline (by simp [htokens, onLine]) with
    ⟨read, hok, hprogram⟩ | ⟨e, hprogram, hnone⟩
  · obtain ⟨c, rfl, hc⟩ := (hread read).mp hok
    exact .inl ⟨c, hprogram, hc⟩
  · exact .inr ⟨e, hprogram, fun c hc => hnone _ ((hread _).mpr ⟨c, rfl, hc⟩)⟩

/-- A program of a colour in decimal is read as that colour if the amounts are bytes, and refused if
they are not. -/
theorem program?_amounts (c : Color) :
    (program? (Command.setColor c).text = .ok [.setColor c] ∧ c.IsBytes) ∨
      ∃ e, program? (Command.setColor c).text = .error e ∧ ¬ c.IsBytes := by
  have hline : OneLine (Command.setColor c).text := not_isBreak_text _
  have hne : Token.ofText 1 (Command.setColor c).text ≠ [] := by
    rw [ofText_text]
    exact List.cons_ne_nil _ _
  have hbytes : WellFormed [.setColor c] ↔ c.IsBytes :=
    ⟨fun hw => hw.fits _ List.mem_cons_self,
      fun hc => ⟨by simpa [parts, Fits] using hc, Nat.zero_le _⟩⟩
  rcases results_of_oneLine hline hne with ⟨read, hok, hprogram⟩ | ⟨e, hprogram, hnone⟩
  · obtain ⟨hw, rfl⟩ := line?_text_iff.mp hok
    exact .inl ⟨hprogram, hbytes.mp hw⟩
  · exact .inr ⟨e, hprogram, fun hc => hnone _ (line?_text_iff.mpr ⟨hbytes.mpr hc, rfl⟩)⟩

/-- **Colours are one language.** Whatever word a description is given for a colour, it gives the colour
that a program sets to it by that word, and it is refused exactly if the program is. The same holds
of three integers, of any size and sign, and the program that has them in decimal. -/
theorem described_colors_are_set_by_programs (path : String) :
    (∀ x, IsWord x.toList →
      (∀ c, Description.color path (.string x) = .ok c ↔
        program? ("SETCOLOR " ++ x) = .ok [.setColor c]) ∧
      ((∀ c, Description.color path (.string x) ≠ .ok c) →
        ∃ fault e, Description.color path (.string x) = .error (.badHex path x fault) ∧
          program? ("SETCOLOR " ++ x) = .error e)) ∧
    ∀ r g b : Int,
      (Description.color path (.array [.integer r, .integer g, .integer b]) = .ok ⟨r, g, b⟩ ↔
        program? s!"SETCOLOR {r} {g} {b}" = .ok [.setColor ⟨r, g, b⟩]) ∧
      (Description.color path (.array [.integer r, .integer g, .integer b]) ≠ .ok ⟨r, g, b⟩ →
        ∃ e, Description.color path (.array [.integer r, .integer g, .integer b]) =
            .error (.channelRange path) ∧
          program? s!"SETCOLOR {r} {g} {b}" = .error e) := by
  have htext : ∀ r g b : Int, s!"SETCOLOR {r} {g} {b}" = (Command.setColor ⟨r, g, b⟩).text := by
    intro r g b
    simp only [Command.text, Command.words, Keyword.word, String.intercalate_cons_cons,
      String.intercalate_singleton, String.append_assoc]
    rfl
  refine ⟨fun x hx => ?_, fun r g b => ?_⟩
  · rcases Description.color_string path x with ⟨c, hc, hwrites⟩ | ⟨fault, hc, hnone⟩
    · rcases program?_colorWord hx with ⟨c', hprogram, hwrites'⟩ | ⟨e, -, hnone⟩
      · rw [hc, hprogram, hwrites.unique hwrites']
        exact ⟨by simp, fun hno => absurd rfl (hno _)⟩
      · exact absurd hwrites (hnone c)
    · rcases program?_colorWord hx with ⟨c, -, hwrites⟩ | ⟨e, hprogram, -⟩
      · exact absurd hwrites (hnone c)
      · rw [hc, hprogram]
        exact ⟨by simp, fun _ => ⟨fault, e, rfl, rfl⟩⟩
  · rw [htext, Description.color_array path ⟨r, g, b⟩]
    rcases program?_amounts ⟨r, g, b⟩ with ⟨hprogram, hbytes⟩ | ⟨e, hprogram, hbytes⟩
    · rw [hprogram, if_pos hbytes]
      exact ⟨by simp, fun hno => absurd rfl hno⟩
    · rw [hprogram, if_neg hbytes]
      exact ⟨by simp, fun _ => ⟨e, rfl, rfl⟩⟩

/-- A word of three digits sets the colour that it describes. A word with a number sign and three
amounts of which one is below zero are refused on both sides. -/
theorem described_colors_are_set_by_programs_background :
    program? ("SETCOLOR " ++ "0xFa3") = .ok [.setColor ⟨255, 170, 51⟩] ∧
    (∃ fault e, Description.color "background" (.string "#ffaa33") =
        .error (.badHex "background" "#ffaa33" fault) ∧ program? ("SETCOLOR " ++ "#ffaa33") = .error e) ∧
    ∃ e, Description.color "background" (.array [.integer (-1), .integer 0, .integer 1000]) =
        .error (.channelRange "background") ∧ program? "SETCOLOR -1 0 1000" = .error e := by
  obtain ⟨hword, hamounts⟩ := described_colors_are_set_by_programs "background"
  have hdescribed : Description.color "background" (.string "0xFa3") = .ok ⟨255, 170, 51⟩ := by
    decide +kernel
  have hnone : ∀ c, Description.color "background" (.string "#ffaa33") ≠ .ok c := nofun
  obtain ⟨e, hc, hprogram⟩ := (hamounts (-1) 0 1000).2 nofun
  have htext : program? "SETCOLOR -1 0 1000" = .error e :=
    (congrArg program? (by decide +kernel)).trans hprogram
  exact ⟨((hword "0xFa3" (by decide +kernel)).1 _).mp hdescribed,
    (hword "#ffaa33" (by decide +kernel)).2 hnone, e, hc, htext⟩

end Turtle.Parse
