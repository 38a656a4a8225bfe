import Turtle.Proofs.Occurrence
import Turtle.Proofs.Rewording

/-! Short words and long words. A short word begins the same command as its long word, and in no
other place can either of them stand: neither is a number, a colour or a bracket. So a text may be
spelled out, at any of its words, and the same program is read from it, or the same error is found at
the same place. -/

namespace Turtle.Keyword
open Number Text

/-- The short words, each with the long word of the same command. -/
def shortWords : List (String × String) := [
  ("F", "FORWARD"), ("L", "LEFT"), ("R", "RIGHT"), ("U", "PENUP"), ("D", "PENDOWN"),
  ("S", "SETSIZE"), ("C", "SETCOLOR")]

/-- The long word for a short one; any other word is left alone. -/
def spelledOut (word : String) : String := (shortWords.lookup word).getD word

/-- A word that is neither a number nor a colour nor a bracket. -/
def IsName (word : String) : Prop :=
  isDigits word.toList = false ∧ Decimal.read? word.toList = none ∧
    Color.isMarked word.toList = false ∧ word ≠ "["

instance (word : String) : Decidable (IsName word) := inferInstanceAs (Decidable (_ ∧ _))

/-- Names are told apart by what they begin alone. -/
theorem interchangeable_of_isName {word other : String} (h : IsName word) (h' : IsName other)
    (hkeyword : ofWord? other = ofWord? word) : Interchangeable word other := by
  obtain ⟨hdigits, hnumeral, hmarked, hbracket⟩ := h
  obtain ⟨hdigits', hnumeral', hmarked', hbracket'⟩ := h'
  refine ⟨hkeyword, fun limit => ?_, hnumeral'.trans hnumeral.symm, hdigits'.trans hdigits.symm,
    hmarked'.trans hmarked.symm, ?_, ?_⟩
  · rw [natural?_eq, natural?_eq, hdigits, hdigits']
    rfl
  · rw [Color.hexDigits?, Color.hexDigits?, hmarked, hmarked']
    rfl
  · exact ⟨fun heq => absurd heq hbracket', fun heq => absurd heq hbracket⟩

theorem isName_of_mem_shortWords : ∀ entry ∈ shortWords,
    IsName entry.1 ∧ IsName entry.2 ∧ ofWord? entry.2 = ofWord? entry.1 := by
  decide +kernel

theorem isWord_of_mem_shortWords : ∀ entry ∈ shortWords,
    IsWord entry.2.toList ∧ entry.2.toList.head? ≠ some '#' ∧ entry.1.toList.head? ≠ some '#' := by
  decide +kernel

/-- A word is no short word, or an entry gives its long word. -/
theorem spelledOut_cases (word : String) :
    spelledOut word = word ∨ (word, spelledOut word) ∈ shortWords := by
  cases h : shortWords.lookup word with
  | none =>
    left
    rw [spelledOut, h]
    rfl
  | some long =>
    right
    obtain ⟨before, after, hsplit, -⟩ := List.lookup_eq_some_iff.mp h
    rw [spelledOut, h, hsplit]
    simp

theorem interchangeable_spelledOut (word : String) : Interchangeable word (spelledOut word) := by
  rcases spelledOut_cases word with h | h
  · exact .of_eq h
  · obtain ⟨hshort, hlong, hkeyword⟩ := isName_of_mem_shortWords _ h
    exact interchangeable_of_isName hshort hlong hkeyword

end Turtle.Keyword

namespace Turtle.Parse
open Keyword Text

/-- The words of a text, some of them spelled out: those that begin at the chosen offsets. -/
def someSpelledOut (chosen : Nat → Bool) (i : Nat) (word : List Char) : List Char :=
  if chosen i then (spelledOut (String.ofList word)).toList else word

/-- A text in which the words that begin at the chosen offsets are spelled out. What is chosen in a
comment makes no difference. -/
def spelledOutAt (chosen : Nat → Bool) (source : String) : String :=
  String.ofList (reword (someSpelledOut chosen) source.toList)

example : spelledOutAt (15 < ·) "REPEAT 2 [\n# F\n F\tF ]" = "REPEAT 2 [\n# F\n FORWARD\tFORWARD ]" := by
  decide +kernel

theorem fitting_someSpelledOut (chosen : Nat → Bool) : Fitting (someSpelledOut chosen) := by
  intro i word hword
  unfold someSpelledOut
  split
  · rcases spelledOut_cases (String.ofList word) with h | h
    · rw [h, String.toList_ofList]
      exact standsFor_of_isWord hword Iff.rfl
    · obtain ⟨hlong, hsign, hsign'⟩ := isWord_of_mem_shortWords _ h
      rw [String.toList_ofList] at hsign'
      exact standsFor_of_isWord hlong ⟨fun heq => absurd heq hsign, fun heq => absurd heq hsign'⟩
  · exact standsFor_of_isWord hword Iff.rfl

/-- A text that is a word and that no reader tells from a word. -/
def Respells (word text : List Char) : Prop :=
  IsWord text ∧ Interchangeable (String.ofList word) (String.ofList text)

theorem respells_someSpelledOut (chosen : Nat → Bool) (i : Nat) (word : List Char) (hword : IsWord word) :
    Respells word (someSpelledOut chosen i word) := by
  unfold someSpelledOut
  split
  · refine ⟨?_, ?_⟩
    · rcases spelledOut_cases (String.ofList word) with h | h
      · rwa [h, String.toList_ofList]
      · exact (isWord_of_mem_shortWords _ h).1
    · rw [String.ofList_toList]
      exact interchangeable_spelledOut _
  · exact ⟨hword, .of_eq rfl⟩

/-- One token stands for each token, alike. -/
theorem allAlike_of_reworded {tokens tokens' : List Token} (h : Token.Reworded Respells tokens tokens') :
    AllAlike tokens tokens' := by
  induction h with
  | nil => exact .nil
  | @cons t text found rest rest' htext hfound _ ih =>
    obtain ⟨hword, hsame⟩ := htext
    rw [words_of_isWord hword, List.map_singleton] at hfound
    obtain ⟨t', rfl, hplace⟩ := List.map_eq_singleton_iff.mp hfound
    obtain ⟨htext', hnumber⟩ := Prod.mk.inj hplace
    rw [String.ofList_toList, ← htext'] at hsame
    exact .cons ⟨hsame, hnumber⟩ ih

theorem allAlike_spelledOutAt (chosen : Nat → Bool) (source : String) :
    AllAlike (Token.ofText 1 source) (Token.ofText 1 (spelledOutAt chosen source)) :=
  allAlike_of_reworded
    (Token.reworded_ofText (fitting_someSpelledOut chosen) (respells_someSpelledOut chosen) 1 source)

/-- **Short and long words are interchangeable.** A text in which any words are spelled out holds the
same program, or it is refused with an error of the same kind: the tokens at fault are at one place
among the tokens of the two texts, and on lines with one number. -/
theorem spelled_out_reads_alike (chosen : Nat → Bool) (source : String) :
    (∀ program, program? source = .ok program ↔ program? (spelledOutAt chosen source) = .ok program) ∧
    ∀ e, program? source = .error e → ∃ e', program? (spelledOutAt chosen source) = .error e' ∧
      e'.kind = e.kind ∧
      (∃ i, ∀ j, (BlamesAt (Token.ofText 1 source) j e ↔ j = i) ∧
        (BlamesAt (Token.ofText 1 (spelledOutAt chosen source)) j e' ↔ j = i)) ∧
      ∃ t t', e.token = some t ∧ e'.token = some t' ∧ t'.lineNumber = t.lineNumber := by
  have hself := AllAlike.refl (Token.ofText 1 source)
  have halike := allAlike_spelledOutAt chosen source
  rcases read_of_allAlike (Token.ofText 1 source) with ⟨program, hread⟩ | ⟨blank, i, hrefused⟩
  · have hsource : program? source = .ok program := hread _ hself
    have hother : program? (spelledOutAt chosen source) = .ok program := hread _ halike
    rw [hsource, hother]
    exact ⟨fun _ => Iff.rfl, fun e he => by cases he⟩
  · obtain ⟨t, ht, hsource⟩ := hrefused _ hself
    obtain ⟨t', ht', hother⟩ := hrefused _ halike
    have hplace := blamesAt_iff hrefused hself hsource
    have hplace' := blamesAt_iff hrefused halike hother
    have hsource : program? source = .error (blank.blaming t) := hsource
    have hother : program? (spelledOutAt chosen source) = .error (blank.blaming t') := hother
    rw [hsource, hother]
    refine ⟨fun program => ?_, fun e he => ?_⟩
    · constructor <;> exact fun h => by cases h
    · obtain rfl := Except.error.inj he
      refine ⟨_, rfl, ?_, ⟨i, fun j => ⟨hplace j, hplace' j⟩⟩, t, t', ?_, ?_, ?_⟩
      · rw [ParseError.kind_blaming, ParseError.kind_blaming]
      · exact ParseError.token_blaming t blank
      · exact ParseError.token_blaming t' blank
      · exact (halike.getElem? ht ht').lineNumber

/-- A distance is spelled out and a turn is not. In a block behind a comment the second of two equal
words is refused as a distance, spelled out or not. -/
theorem spelled_out_reads_alike_block :
    program? (spelledOutAt (· < 5) "F 5\nL") = .ok [.forward 5, .turn .left] ∧
      ∃ e' i, program? (spelledOutAt (15 < ·) "REPEAT 2 [\n# F\n F F ]") = .error e' ∧
        e'.kind = .badNumber ∧
        BlamesAt (Token.ofText 1 "REPEAT 2 [\n# F\n F F ]") i (.badNumber ⟨"F", 3, " F F ]"⟩ .distance) ∧
        BlamesAt (Token.ofText 1 (spelledOutAt (15 < ·) "REPEAT 2 [\n# F\n F F ]")) i e' := by
  have hread : program? "F 5\nL" = .ok [.forward 5, .turn .left] := by decide +kernel
  have hrefused : program? "REPEAT 2 [\n# F\n F F ]" =
      .error (.badNumber ⟨"F", 3, " F F ]"⟩ .distance) := by decide +kernel
  obtain ⟨e', hother, hkind, ⟨i, hplace⟩, -⟩ :=
    (spelled_out_reads_alike (15 < ·) "REPEAT 2 [\n# F\n F F ]").2 _ hrefused
  exact ⟨((spelled_out_reads_alike (· < 5) "F 5\nL").1 _).mp hread,
    e', i, hother, hkind, (hplace i).1.mpr rfl, (hplace i).2.mpr rfl⟩

end Turtle.Parse
