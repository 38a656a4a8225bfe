import Turtle.Command.Printer
import Turtle.Proofs.ShortestText
import Turtle.Proofs.Tree
import Turtle.Token

/-! The tokens of canonical text. The words of a command hold no blank, so splitting its text
gives them back, and its text holds no line break, so the lines of a program's text are the
texts of its commands. No canonical line begins with a number sign. All this is so for
every command, whether it can be read back or not. -/

namespace Turtle.Text

/-- A break is a blank. -/
theorem isBlank_of_isBreak {c : Char} (h : isBreak c = true) : isBlank c = true := by
  simp only [isBreak, isBlank, Bool.or_eq_true, Bool.and_eq_true, decide_eq_true_eq,
    beq_iff_eq] at h ⊢
  omega

/-- Characters that make one word. -/
def IsWord (word : List Char) : Prop := word ≠ [] ∧ ∀ c ∈ word, isBlank c = false

instance (word : List Char) : Decidable (IsWord word) :=
  decidable_of_iff ((!word.isEmpty && word.all fun c => !isBlank c) = true) (by simp [IsWord])

theorem not_isBreak_of_isWord {word : List Char} (h : IsWord word) : ∀ c ∈ word, isBreak c = false := by
  intro c hc
  have hblank := h.2 c hc
  cases hbreak : isBreak c with
  | false => rfl
  | true =>
    rw [isBlank_of_isBreak hbreak] at hblank
    cases hblank

/-- Characters that are not blank are collected, up to what follows them. -/
theorem wordsFrom_append {word : List Char} (h : ∀ c ∈ word, isBlank c = false)
    (begun rest : List Char) :
    wordsFrom begun (word ++ rest) = wordsFrom (word.reverse ++ begun) rest := by
  induction word generalizing begun with
  | nil => rfl
  | cons c word ih =>
    have hc : isBlank c = false := h c (by simp)
    have hword : ∀ d ∈ word, isBlank d = false := fun d hd => h d (by simp [hd])
    rw [List.cons_append, wordsFrom, hc]
    simp only [Bool.false_eq_true, if_false]
    rw [ih hword, List.reverse_cons, List.append_assoc]
    rfl

theorem words_of_isWord {word : List Char} (h : IsWord word) : words word = [word] := by
  have hfrom := wordsFrom_append h.2 [] []
  rw [List.append_nil, List.append_nil] at hfrom
  have hne : word.reverse.isEmpty = false := by simp [h.1]
  rw [words, hfrom, wordsFrom, endWord, hne]
  simp

theorem wordsFrom_append_blank {c : Char} (hc : isBlank c = true) (begun front rest : List Char) :
    wordsFrom begun (front ++ c :: rest) = wordsFrom begun front ++ words rest := by
  have hend : ∀ word more, endWord word more = endWord word [] ++ more := by
    intro word more
    unfold endWord
    split <;> rfl
  induction front generalizing begun with
  | nil =>
    have hblank : wordsFrom begun (c :: rest) = endWord begun (words rest) := if_pos hc
    rw [List.nil_append, hblank, hend, wordsFrom]
  | cons d front ih =>
    rw [List.cons_append, wordsFrom, wordsFrom]
    split
    · rw [ih, hend begun (wordsFrom [] front), hend, List.append_assoc]
    · rw [ih]

/-- Words split at a blank. -/
theorem words_append {c : Char} (hc : isBlank c = true) (front rest : List Char) :
    words (front ++ c :: rest) = words front ++ words rest := wordsFrom_append_blank hc [] front rest

/-- A blank ends the word before it. -/
theorem words_append_blank {word : List Char} {c : Char} (h : IsWord word) (hc : isBlank c = true)
    (rest : List Char) : words (word ++ c :: rest) = word :: words rest := by
  rw [words_append hc, words_of_isWord h, List.singleton_append]

/-- Induction over a text word by word, of which any may be empty. -/
@[elab_as_elim]
theorem wordInduction {motive : List Char → Prop}
    (last : ∀ word, (∀ c ∈ word, isBlank c = false) → motive word)
    (blank : ∀ word c rest, (∀ c ∈ word, isBlank c = false) → isBlank c = true → motive rest →
      motive (word ++ c :: rest))
    (text : List Char) : motive text := by
  -- the characters before a blank are collected until they are known to be a whole word
  suffices hbegun : ∀ word, (∀ c ∈ word, isBlank c = false) → motive (word ++ text) from
    hbegun [] (List.forall_mem_nil _)
  induction text with
  | nil =>
    intro word h
    rw [List.append_nil]
    exact last word h
  | cons c text ih =>
    intro word h
    cases hc : isBlank c with
    | true => exact blank word c text h hc (ih [] (List.forall_mem_nil _))
    | false =>
      have hall : ∀ d ∈ word ++ [c], isBlank d = false := by
        intro d hd
        rcases List.mem_append.mp hd with hd | hd
        · exact h d hd
        · rw [List.mem_singleton.mp hd]
          exact hc
      rw [List.append_cons]
      exact ih (word ++ [c]) hall

/-- Words that are joined by blanks are found again. -/
theorem words_intercalate {found : List (List Char)} (h : ∀ word ∈ found, IsWord word) :
    words ([' '].intercalate found) = found := by
  induction found with
  | nil => rfl
  | cons word rest ih =>
    have hword : IsWord word := h word (by simp)
    have hrest := ih fun w hw => h w (by simp [hw])
    by_cases hnil : rest = []
    · subst hnil
      rw [List.intercalate_singleton, words_of_isWord hword]
    · rw [List.intercalate_cons_of_ne_nil hnil, List.append_assoc, List.singleton_append,
        words_append_blank hword (by decide), hrest]

theorem mem_intercalate {found : List (List Char)} {c : Char} (h : c ∈ [' '].intercalate found) :
    c = ' ' ∨ ∃ word ∈ found, c ∈ word := by
  induction found with
  | nil => cases h
  | cons word rest ih =>
    by_cases hnil : rest = []
    · rw [hnil, List.intercalate_singleton] at h
      exact .inr ⟨word, by simp, h⟩
    · rw [List.intercalate_cons_of_ne_nil hnil] at h
      rcases List.mem_append.mp h with h | h
      · rcases List.mem_append.mp h with h | h
        · exact .inr ⟨word, by simp, h⟩
        · exact .inl (List.mem_singleton.mp h)
      · rcases ih h with h | ⟨other, ho, hc⟩
        · exact .inl h
        · exact .inr ⟨other, by simp [ho], hc⟩

theorem not_isBreak_intercalate {found : List (List Char)} (h : ∀ word ∈ found, IsWord word) :
    ∀ c ∈ [' '].intercalate found, isBreak c = false := by
  intro c hc
  rcases mem_intercalate hc with rfl | ⟨word, hword, hc⟩
  · decide
  · exact not_isBreak_of_isWord (h word hword) c hc

/-- A line feed ends the line before it. -/
theorem lines_append_newline {line : List Char} (h : ∀ c ∈ line, isBreak c = false)
    (rest : List Char) : lines (line ++ '\n' :: rest) = line :: lines rest := by
  induction line with
  | nil => exact lines_newline rest
  | cons c line ih =>
    have hc : isBreak c = false := h c (by simp)
    have hcr : c ≠ '\r' := by
      intro heq
      rw [heq] at hc
      cases hc
    have hline := ih fun d hd => h d (by simp [hd])
    have hstep : lines (c :: (line ++ '\n' :: rest)) =
        extendFirst c (lines (line ++ '\n' :: rest)) := by
      cases hmore : line ++ '\n' :: rest <;> simp [lines, hcr, hc]
    rw [List.cons_append, hstep, hline]
    rfl

end Turtle.Text

namespace Turtle.Command
open Turtle.Number Turtle.Text

theorem words_eq_cons (command : Command) :
    ∃ arguments, command.words = command.keyword.word :: arguments := by
  cases command <;> simp [words, keyword]

theorem isWord_keyword (k : Keyword) : IsWord k.word.toList := by
  rcases k with _ | ⟨_ | _⟩ | ⟨_ | _⟩ | _ | _ | _ | _ <;> decide

theorem isWord_toString (i : Int) : IsWord (toString i).toList := by
  have hdigits := isDigits_iff.mp (isDigits_toDigits i.natAbs)
  rw [toList_toString_int]
  refine ⟨by simp [hdigits.1], fun c hc => ?_⟩
  rcases List.mem_append.mp hc with hc | hc
  · split at hc
    · rw [List.mem_singleton.mp hc]
      decide
    · cases hc
  · exact Binary64.not_blank_of_isDigit (hdigits.2 c hc)

/-- The text of a number, finite or not, is one word. -/
theorem isWord_text (x : Binary64) : IsWord x.text.toList := by
  rw [Binary64.text, String.toList_ofList]
  cases hx : x.isFinite with
  | true =>
    obtain ⟨d, hwrites, -⟩ := Binary64.writes_chars hx
    refine ⟨?_, Binary64.not_blank_of_writes hwrites⟩
    intro hnil
    rw [hnil] at hwrites
    have hread := Decimal.read?_eq_some_iff.mpr hwrites
    cases hread
  | false => exact Binary64.chars_of_not_finite IsWord hx (by decide) (by decide) (by decide)

theorem isWord_of_mem_words {command : Command} (hb : command.isBlock = false) :
    ∀ word ∈ command.words, IsWord word.toList := by
  intro word hw
  cases command with
  | block => cases hb
  | turn | pen | blockEnd =>
    rw [words, List.mem_singleton] at hw
    rw [hw]
    exact isWord_keyword _
  | forward distance =>
    simp only [words, List.mem_cons, List.not_mem_nil, or_false] at hw
    rcases hw with rfl | rfl
    · exact isWord_keyword _
    · exact isWord_toString distance
  | setSize width =>
    simp only [words, List.mem_cons, List.not_mem_nil, or_false] at hw
    rcases hw with rfl | rfl
    · exact isWord_keyword _
    · exact isWord_text width
  | setColor color =>
    simp only [words, List.mem_cons, List.not_mem_nil, or_false] at hw
    rcases hw with rfl | rfl | rfl | rfl
    · exact isWord_keyword _
    · exact isWord_toString color.red
    · exact isWord_toString color.green
    · exact isWord_toString color.blue

/-- Every canonical word is one word. -/
theorem isWord_of_mem_wordsAll (program : List Command) :
    ∀ word ∈ wordsAll program, IsWord word.toList := by
  induction program using programInduction with
  | nil => simp [wordsAll]
  | single command rest hb ih =>
    intro word hw
    rw [wordsAll] at hw
    rcases List.mem_append.mp hw with hw | hw
    · exact isWord_of_mem_words hb word hw
    · exact ih word hw
  | block count body rest ihBody ih =>
    have hbrackets : IsWord "[".toList ∧ IsWord "]".toList := by decide
    intro word hw
    simp only [wordsAll, words, List.cons_append, List.append_assoc, List.nil_append,
      List.mem_cons, List.mem_append] at hw
    rcases hw with rfl | rfl | rfl | hw | rfl | hw
    · exact isWord_keyword _
    · exact isWord_toString count
    · exact hbrackets.1
    · exact ihBody word hw
    · exact hbrackets.2
    · exact ih word hw

theorem isWord_of_words (command : Command) : ∀ word ∈ command.words, IsWord word.toList := by
  intro word hw
  refine isWord_of_mem_wordsAll [command] word ?_
  rw [wordsAll]
  exact List.mem_append_left _ hw

theorem not_isComment (command : Command) :
    Token.isComment (command.words.map String.toList) = false := by
  obtain ⟨arguments, harguments⟩ := command.words_eq_cons
  rw [harguments, List.map_cons]
  generalize command.keyword = k
  rcases k with _ | ⟨_ | _⟩ | ⟨_ | _⟩ | _ | _ | _ | _ <;> rfl

/-- The tokens of words on one line. -/
def onLine (number : Int) (line : String) (found : List String) : List Token :=
  found.map fun word => ⟨word, number, line⟩

/-! Words that are joined by blanks and make one line. -/

section Joined

variable {found : List String}

theorem toList_joined (found : List String) :
    (" ".intercalate found).toList = [' '].intercalate (found.map String.toList) :=
  String.toList_intercalate

theorem words_joined (h : ∀ word ∈ found, IsWord word.toList) :
    Text.words (" ".intercalate found).toList = found.map String.toList := by
  rw [toList_joined]
  exact words_intercalate (List.forall_mem_map.mpr h)

theorem not_isBreak_joined (h : ∀ word ∈ found, IsWord word.toList) :
    ∀ c ∈ (" ".intercalate found).toList, isBreak c = false := by
  rw [toList_joined]
  exact not_isBreak_intercalate (List.forall_mem_map.mpr h)

theorem ofLine_joined (h : ∀ word ∈ found, IsWord word.toList)
    (hcomment : Token.isComment (found.map String.toList) = false) (number : Int) :
    Token.ofLine number (" ".intercalate found).toList =
      onLine number (" ".intercalate found) found := by
  simp only [Token.ofLine, words_joined h, hcomment, String.ofList_toList, onLine, List.map_map,
    Bool.false_eq_true, if_false, Function.comp_def]

theorem ofText_joined (h : ∀ word ∈ found, IsWord word.toList)
    (hcomment : Token.isComment (found.map String.toList) = false) (hne : found ≠ []) (number : Int) :
    Token.ofText number (" ".intercalate found) = onLine number (" ".intercalate found) found := by
  have hnil : (" ".intercalate found).toList ≠ [] := by
    intro hnil
    have hwords := words_joined h
    rw [hnil] at hwords
    exact hne (List.map_eq_nil_iff.mp hwords.symm)
  rw [Token.ofText, lines_of_no_break (not_isBreak_joined h) hnil, Token.ofLines, Token.ofLines,
    ofLine_joined h hcomment, List.append_nil]

end Joined

/-- The tokens of a command whose canonical text is a line by itself. -/
def tokens (number : Int) (command : Command) : List Token :=
  onLine number command.text command.words

theorem ofLine_text (number : Int) (command : Command) :
    Token.ofLine number command.text.toList = command.tokens number :=
  ofLine_joined command.isWord_of_words command.not_isComment number

theorem not_isBreak_text (command : Command) : ∀ c ∈ command.text.toList, isBreak c = false :=
  not_isBreak_joined command.isWord_of_words

end Turtle.Command

namespace Turtle
open Command Text

/-- The tokens of a program in canonical form, one command on a line. -/
def programTokens (first : Int) : List Command → List Token
  | [] => []
  | command :: rest => command.tokens first ++ programTokens (first + 1) rest

theorem lines_programText (program : List Command) :
    lines (programText program).toList = program.map fun command => command.text.toList := by
  induction program with
  | nil => rfl
  | cons command rest ih =>
    have htext : (programText (command :: rest)).toList =
        command.text.toList ++ '\n' :: (programText rest).toList := by
      simp [programText, String.toList_append]
    rw [htext, lines_append_newline command.not_isBreak_text, ih, List.map_cons]

theorem ofLines_texts (first : Int) (program : List Command) :
    Token.ofLines first (program.map fun command => command.text.toList) =
      programTokens first program := by
  induction program generalizing first with
  | nil => rfl
  | cons command rest ih => rw [List.map_cons, Token.ofLines, ofLine_text, ih, programTokens]

/-- The tokens of a program's canonical text are the words of its commands. -/
theorem ofText_programText (first : Int) (program : List Command) :
    Token.ofText first (programText program) = programTokens first program := by
  rw [Token.ofText, lines_programText, ofLines_texts]

/-- The tokens of a command's canonical text, as one line. -/
theorem ofText_text (number : Int) (command : Command) :
    Token.ofText number command.text = command.tokens number := by
  obtain ⟨arguments, harguments⟩ := command.words_eq_cons
  have hne : command.words ≠ [] := by simp [harguments]
  exact ofText_joined command.isWord_of_words command.not_isComment hne number

end Turtle
