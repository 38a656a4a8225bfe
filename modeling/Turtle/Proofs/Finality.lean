import Turtle.Proofs.Concatenation
import Turtle.Proofs.JoinedLines
import Turtle.Proofs.Unterminated

/-! Which errors are final. What is wrong with a text is wrong with it whatever comes behind,
unless the end of the text is what is wrong: then there are blocks that are open, and an end for
each of them makes a program. Ends that are too few leave the next block open, and the first of
the ends that are too many is the error. -/

namespace Turtle.Text

/-- A line that holds the end of a block and nothing else. -/
def IsEnd (line : String) : Prop := OneLine line ∧ words line.toList = [[']']]

instance (line : String) : Decidable (IsEnd line) := inferInstanceAs (Decidable (_ ∧ _))

end Turtle.Text

namespace Turtle.Token
open Text Grammar

theorem ofLine_of_isEnd {line : String} (h : IsEnd line) (n : Int) :
    ofLine n line.toList = [⟨"]", n, line⟩] := by
  simp [ofLine, h.2, isComment]

/-- Lines that hold an end each hold nothing else. -/
theorem ofLines_of_isEnd (n : Int) {found : List String} (h : ∀ line ∈ found, IsEnd line) :
    (ofLines n (found.map String.toList)).length = found.length ∧
      ∀ t ∈ ofLines n (found.map String.toList), Spells t .blockEnd := by
  induction found generalizing n with
  | nil => exact ⟨rfl, fun t ht => by cases ht⟩
  | cons line rest ih =>
    obtain ⟨hlen, hspells⟩ := ih (n + 1) fun other hother => h other (by simp [hother])
    rw [List.map_cons, ofLines, ofLine_of_isEnd (h line (by simp)), List.singleton_append]
    refine ⟨by rw [List.length_cons, List.length_cons, hlen], fun t ht => ?_⟩
    rcases List.mem_cons.mp ht with rfl | ht
    · exact List.mem_singleton.mpr rfl
    · exact hspells t ht

/-- Behind the tokens of a text come the ends that are put on lines behind it. -/
theorem ofText_ends (first : String) {found : List String} (h : ∀ line ∈ found, IsEnd line) :
    ∃ ends, ofText 1 ("\n".intercalate (first :: found)) = ofText 1 first ++ ends ∧
      ends.length = found.length ∧ ∀ t ∈ ends, Spells t .blockEnd := by
  by_cases hnil : found = []
  · subst hnil
    exact ⟨[], by rw [String.intercalate_singleton, List.append_nil], rfl, fun t ht => by cases ht⟩
  · obtain ⟨hlen, hspells⟩ := ofLines_of_isEnd 1 h
    rw [String.intercalate_cons_of_ne_nil hnil, ofText_append,
      ofText_intercalate 1 fun line hline => (h line hline).1]
    refine ⟨_, rfl, by rw [List.length_map, hlen], fun t ht => ?_⟩
    obtain ⟨close, hclose, rfl⟩ := List.mem_map.mp ht
    exact hspells close hclose

end Turtle.Token

namespace Turtle.Parse
open Correspondence Grammar Reader Text

/-- A text that begins with the end of a block is refused for it. -/
theorem program?_of_blockEnd {text : String} {t : Token} {rest : List Token}
    (h : Token.ofText 1 text = t :: rest) (ht : Spells t .blockEnd) :
    program? text = .error (.unmatchedEnd (some t)) := by
  have hread : (commandAt 0).Reads ⟨[], t :: rest⟩ .blockEnd ⟨[t], rest⟩ :=
    (accepts_commandWithin deepestBlock 0 rfl ..).mpr
      ⟨[t], ⟨rfl, rfl⟩, item_blockEnd.mpr ⟨t, rfl, ht⟩⟩
  have hstatement : (statement ⟨[], t :: rest⟩).result = .error (.unmatchedEnd (some t)) := by
    rw [statement, hread.result_bind]
    exact congrArg Outcome.result (position_bind _)
  have hprogram : program? text = (statementsWithin (rest.length + 1) ⟨[], t :: rest⟩).result := by
    rw [program?, program, h]
    rfl
  rw [hprogram, statementsWithin_of_rest (List.cons_ne_nil t rest), result_bind_error hstatement]

/-- Ends alone are refused for the first of them. -/
theorem program?_ends {line : String} {more : List String}
    (h : ∀ other ∈ line :: more, IsEnd other) :
    program? ("\n".intercalate (line :: more)) = .error (.unmatchedEnd (some ⟨"]", 1, line⟩)) := by
  have htokens : Token.ofText 1 ("\n".intercalate (line :: more)) =
      ⟨"]", 1, line⟩ :: Token.ofLines (1 + 1) (more.map String.toList) := by
    rw [Token.ofText_intercalate 1 fun other hother => (h other hother).1, List.map_cons,
      Token.ofLines, Token.ofLine_of_isEnd (h line (by simp)), List.singleton_append]
  exact program?_of_blockEnd htokens (List.mem_singleton.mpr rfl)

/-- The blocks that are open at the end of a text: the innermost one is blamed, and there are no
more than may enclose one another. -/
theorem openBlocks_of_program? {first : String} {opener : Token}
    (h : program? first = .error (.unterminated opener)) :
    (openBlocks (Token.ofText 1 first)).head? = some opener ∧
      (openBlocks (Token.ofText 1 first)).length ≤ deepestBlock := by
  obtain ⟨openers, hpending, hlast⟩ := pending_of_program? h
  rw [hpending.openBlocks, List.head?_reverse, List.length_reverse]
  exact ⟨hlast, hpending.length_le⟩

section Ends
variable {first : String} {opener : Token} {blocks : List Token} {found : List String}

/-- As many ends as there are open blocks make a program. -/
theorem exists_program?_ends (h : program? first = .error (.unterminated opener))
    (hblocks : openBlocks (Token.ofText 1 first) = blocks) (hfound : ∀ line ∈ found, IsEnd line)
    (hlen : found.length = blocks.length) :
    ∃ program, program? ("\n".intercalate (first :: found)) = .ok program := by
  obtain ⟨openers, hpending, -⟩ := pending_of_program? h
  obtain ⟨ends, htokens, hends, hspells⟩ := Token.ofText_ends first hfound
  rw [← hblocks, hpending.openBlocks, List.length_reverse, ← hends] at hlen
  obtain ⟨program, hprogram⟩ := hpending.complete hspells hlen
  rw [← htokens] at hprogram
  exact ⟨program, program?_eq_ok.mpr hprogram⟩

/-- Where ends behind a text make a program, fewer of them leave a block open: more ends would
mend no other error, and they would spoil what is a program already. -/
theorem exists_unterminated {line : String} {more : List String} {program : List Command}
    (h : program? ("\n".intercalate (first :: (found ++ line :: more))) = .ok program)
    (hmore : ∀ other ∈ line :: more, IsEnd other) :
    ∃ last, program? ("\n".intercalate (first :: found)) = .error (.unterminated last) := by
  rw [intercalate_append] at h
  cases hfew : program? ("\n".intercalate (first :: found)) with
  | ok read =>
    obtain ⟨t, -, hboth⟩ := program?_append_error hfew (program?_ends hmore)
    rw [hboth] at h
    cases h
  | error e =>
    by_cases hkind : e.kind = .unterminated
    · obtain ⟨last, rfl⟩ := ParseError.exists_of_kind_unterminated hkind
      exact ⟨last, rfl⟩
    · rw [program?_append_of_error hfew hkind] at h
      cases h

/-- Fewer ends leave the next block open. -/
theorem program?_few_ends (h : program? first = .error (.unterminated opener))
    (hblocks : openBlocks (Token.ofText 1 first) = blocks) (hfound : ∀ line ∈ found, IsEnd line)
    (hfew : found.length < blocks.length) :
    program? ("\n".intercalate (first :: found)) = .error (.unterminated blocks[found.length]) := by
  obtain ⟨missing, hmissing⟩ := Nat.exists_eq_add_of_lt hfew
  have hmore : ∀ line ∈ List.replicate (missing + 1) "]", IsEnd line := by
    intro line hline
    rw [List.eq_of_mem_replicate hline]
    decide +kernel
  have hall : ∀ line ∈ found ++ List.replicate (missing + 1) "]", IsEnd line := fun line hline =>
    (List.mem_append.mp hline).elim (hfound line) (hmore line)
  have henough : (found ++ List.replicate (missing + 1) "]").length = blocks.length := by
    rw [hmissing, List.length_append, List.length_replicate, Nat.add_assoc]
  obtain ⟨program, hprogram⟩ := exists_program?_ends h hblocks hall henough
  obtain ⟨last, hlast⟩ := exists_unterminated hprogram hmore
  -- the blocks that are open then are those that the ends have not closed
  obtain ⟨ends, htokens, hends, hspells⟩ := Token.ofText_ends first hfound
  have hhead := (openBlocks_of_program? hlast).1
  rw [htokens, openBlocks, afterTokens_append, afterTokens_ends hspells, hends, List.head?_drop,
    ← openBlocks, hblocks, List.getElem?_eq_getElem hfew] at hhead
  rw [hlast, Option.some.inj hhead]

/-- The first of the ends that are too many is refused, on its own line. -/
theorem program?_many_ends (h : program? first = .error (.unterminated opener))
    (hblocks : openBlocks (Token.ofText 1 first) = blocks) (hfound : ∀ line ∈ found, IsEnd line)
    (hmany : blocks.length < found.length) :
    program? ("\n".intercalate (first :: found)) = .error (.unmatchedEnd (some
      ⟨"]", lineCount first + blocks.length + 1, found[blocks.length]⟩)) := by
  have hsplit : found.take blocks.length ++ found[blocks.length] :: found.drop (blocks.length + 1) =
      found := by
    rw [← List.drop_eq_getElem_cons, List.take_append_drop]
  have htaken : (found.take blocks.length).length = blocks.length :=
    List.length_take_of_le (Nat.le_of_lt hmany)
  have hbefore : ∀ line ∈ found.take blocks.length, IsEnd line := fun line hline =>
    hfound line (List.mem_of_mem_take hline)
  have hmore : ∀ line ∈ found[blocks.length] :: found.drop (blocks.length + 1), IsEnd line := by
    rw [← List.drop_eq_getElem_cons]
    exact fun line hline => hfound line (List.mem_of_mem_drop hline)
  obtain ⟨program, hprogram⟩ := exists_program?_ends h hblocks hbefore htaken
  obtain ⟨t, ht, hboth⟩ := program?_append_error hprogram (program?_ends hmore)
  obtain rfl := Option.some.inj ht
  rw [← intercalate_append, hsplit, lineCount_intercalate first fun line hline =>
    (hbefore line hline).1, htaken] at hboth
  have hnumber : (1 : Int) + ((lineCount first + blocks.length : Nat) : Int) =
      lineCount first + blocks.length + 1 := by omega
  rw [hboth, Token.renumber, hnumber]
  rfl

end Ends

/-- **Errors are final unless a block is open.** A text that is refused is refused with the same
error whatever comes on the lines behind it, unless it ends inside of a block. Then the error
blames the innermost block that is open, and some number of blocks is open, one at least and no
more than may enclose one another: with as many lines that hold an end each it becomes a program
and with no other number of them; with fewer, the innermost block of those that they leave open
is blamed; with more, the first that is too many is, on its line. -/
theorem refusal_is_final_unless_open {first : String} {e : ParseError}
    (h : program? first = .error e) :
    (e.kind ≠ .unterminated → ∀ second, program? (first ++ "\n" ++ second) = .error e) ∧
    (e.kind = .unterminated → ∃ opener outer,
      openBlocks (Token.ofText 1 first) = opener :: outer ∧ e = .unterminated opener ∧
      (opener :: outer).length ≤ deepestBlock ∧
      ∀ ends : List String, (∀ line ∈ ends, IsEnd line) →
        ((∃ program, program? ("\n".intercalate (first :: ends)) = .ok program) ↔
          ends.length = (opener :: outer).length) ∧
        (∀ hfew : ends.length < (opener :: outer).length,
          program? ("\n".intercalate (first :: ends)) =
            .error (.unterminated (opener :: outer)[ends.length])) ∧
        (∀ hmany : (opener :: outer).length < ends.length,
          program? ("\n".intercalate (first :: ends)) = .error (.unmatchedEnd (some
            ⟨"]", lineCount first + (opener :: outer).length + 1,
              ends[(opener :: outer).length]⟩)))) := by
  refine ⟨program?_append_of_error h, fun hkind => ?_⟩
  obtain ⟨opener, rfl⟩ := ParseError.exists_of_kind_unterminated hkind
  obtain ⟨hhead, hdepth⟩ := openBlocks_of_program? h
  obtain ⟨outer, hblocks⟩ := List.head?_eq_some_iff.mp hhead
  rw [hblocks] at hdepth
  refine ⟨opener, outer, hblocks, rfl, hdepth, fun ends hends => ?_⟩
  have hfew := program?_few_ends h hblocks hends
  have hmany := program?_many_ends h hblocks hends
  refine ⟨⟨fun hread => ?_, exists_program?_ends h hblocks hends⟩, hfew, hmany⟩
  obtain ⟨program, hread⟩ := hread
  rcases Nat.lt_trichotomy ends.length (opener :: outer).length with hlt | heq | hgt
  · rw [hfew hlt] at hread
    cases hread
  · exact heq
  · rw [hmany hgt] at hread
    cases hread

/-- Behind an error nothing is read. Two blocks are open at the end of a text of two lines: one
end leaves the outer block open, two make a program, and of three the last is refused on the
fifth line. -/
theorem refusal_is_final_unless_open_nested :
    program? ("F x" ++ "\n" ++ "L") = .error (.badNumber ⟨"x", 1, "F x"⟩ .distance) ∧
      program? ("\n".intercalate ["REPEAT 2 [\n F 5 REPEAT 3 [ L", "]"]) =
        .error (.unterminated ⟨"REPEAT", 1, "REPEAT 2 ["⟩) ∧
      (∃ program, program? ("\n".intercalate ["REPEAT 2 [\n F 5 REPEAT 3 [ L", "]", " ]"]) =
        .ok program) ∧
      program? ("\n".intercalate ["REPEAT 2 [\n F 5 REPEAT 3 [ L", "]", " ]", "]\t"]) =
        .error (.unmatchedEnd (some ⟨"]", 5, "]\t"⟩)) := by
  have hnumber : program? "F x" = .error (.badNumber ⟨"x", 1, "F x"⟩ .distance) := by decide +kernel
  have hopen : program? "REPEAT 2 [\n F 5 REPEAT 3 [ L" =
      .error (.unterminated ⟨"REPEAT", 2, " F 5 REPEAT 3 [ L"⟩) := by decide +kernel
  have hblocks : openBlocks (Token.ofText 1 "REPEAT 2 [\n F 5 REPEAT 3 [ L") =
      [⟨"REPEAT", 2, " F 5 REPEAT 3 [ L"⟩, ⟨"REPEAT", 1, "REPEAT 2 ["⟩] := by decide +kernel
  obtain ⟨opener, outer, hfound, -, -, hends⟩ := (refusal_is_final_unless_open hopen).2 rfl
  obtain ⟨rfl, rfl⟩ := List.cons.inj (hblocks.symm.trans hfound)
  exact ⟨(refusal_is_final_unless_open hnumber).1 nofun _,
    (hends ["]"] (by decide +kernel)).2.1 (by decide),
    (hends ["]", " ]"] (by decide +kernel)).1.mpr rfl,
    (hends ["]", " ]", "]\t"] (by decide +kernel)).2.2 (by decide)⟩

end Turtle.Parse
