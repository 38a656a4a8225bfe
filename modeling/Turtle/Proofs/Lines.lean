import Turtle.Token

/-! The lines of a text and the tokens on them. A line feed ends a line whatever stands before
it, so a text that goes on behind one has the lines of both parts: only a carriage return at the
end of the first part belongs to that break and not to one of its own. A token is on one of the
lines that it was split from, under the number of that line, and no token is on a line whose
first character that is not blank is missing or a number sign. -/

namespace Turtle.Text

/-- No break of two characters begins here. -/
def NoPair (c : Char) (rest : List Char) : Prop :=
  ∀ more, c = '\r' → rest = '\n' :: more → False

/-- Away from a break of two characters, the first character decides. -/
theorem lines_cons {c : Char} {rest : List Char} (h : NoPair c rest) :
    lines (c :: rest) = if isBreak c then [] :: lines rest else extendFirst c (lines rest) := by
  rw [lines]
  exact h

theorem lines_pair (rest : List Char) : lines ('\r' :: '\n' :: rest) = [] :: lines rest := rfl

theorem extendFirst_append {found : List (List Char)} (h : found ≠ []) (c : Char)
    (more : List (List Char)) : extendFirst c (found ++ more) = extendFirst c found ++ more := by
  cases found with
  | nil => exact absurd rfl h
  | cons line rest => rfl

theorem extendFirst_ne_nil (c : Char) (found : List (List Char)) : extendFirst c found ≠ [] := by
  cases found <;> simp [extendFirst]

theorem lines_ne_nil {text : List Char} (h : text ≠ []) : lines text ≠ [] := by
  induction text using lines.induct with
  | case1 => exact absurd rfl h
  | case2 => simp [lines_pair]
  | case3 c rest hpair hbreak => simp [lines_cons hpair, hbreak]
  | case4 c rest hpair hbreak => simp [lines_cons hpair, hbreak, extendFirst_ne_nil]

/-- A pair that a line feed would complete is there already, or it begins with the last
character. -/
theorem noPair_append {c : Char} {rest : List Char} (h : NoPair c rest)
    (hlast : ¬ (c = '\r' ∧ rest = [])) (more : List Char) : NoPair c (rest ++ more) := by
  cases rest with
  | nil => exact fun _ hc _ => hlast ⟨hc, rfl⟩
  | cons d rest =>
    intro after hc hd
    exact h rest hc (by rw [(List.cons.inj hd).1])

/-- Behind a line feed the lines are those of what follows it. -/
theorem lines_append (text rest : List Char) :
    lines (text ++ '\n' :: rest) = lines (text ++ ['\n']) ++ lines rest := by
  induction text using lines.induct with
  | case1 => rw [List.nil_append, List.nil_append, lines_newline, lines_newline]; rfl
  | case2 text ih => simp only [List.cons_append, lines_pair, ih]
  | case3 c text hpair hbreak ih =>
    by_cases hlast : c = '\r' ∧ text = []
    · obtain ⟨rfl, rfl⟩ := hlast
      rfl
    · simp only [List.cons_append, lines_cons (noPair_append hpair hlast _), hbreak, if_true, ih]
  | case4 c text hpair hbreak ih =>
    have hlast : ¬ (c = '\r' ∧ text = []) := fun h => hbreak (by rw [h.1]; rfl)
    have hne : lines (text ++ ['\n']) ≠ [] := lines_ne_nil (by simp)
    simp only [List.cons_append, lines_cons (noPair_append hpair hlast _), hbreak,
      Bool.false_eq_true, if_false, ih, extendFirst_append hne]

/-- A line feed at the end adds no line but an empty one. -/
theorem lines_append_feed (text : List Char) :
    lines (text ++ ['\n']) = lines text ∨ lines (text ++ ['\n']) = lines text ++ [[]] := by
  induction text using lines.induct with
  | case1 => exact .inr rfl
  | case2 text ih => simpa only [List.cons_append, lines_pair, List.cons.injEq, true_and] using ih
  | case3 c text hpair hbreak ih =>
    by_cases hlast : c = '\r' ∧ text = []
    · obtain ⟨rfl, rfl⟩ := hlast
      exact .inl rfl
    · simpa only [List.cons_append, lines_cons (noPair_append hpair hlast _), lines_cons hpair,
        hbreak, if_true, List.cons.injEq, true_and] using ih
  | case4 c text hpair hbreak ih =>
    have hlast : ¬ (c = '\r' ∧ text = []) := fun h => hbreak (by rw [h.1]; rfl)
    simp only [List.cons_append, lines_cons (noPair_append hpair hlast _), lines_cons hpair,
      hbreak, Bool.false_eq_true, if_false]
    by_cases hnil : text = []
    · subst hnil
      exact .inl rfl
    · rcases ih with ih | ih
      · exact .inl (by rw [ih])
      · exact .inr (by rw [ih, extendFirst_append (lines_ne_nil hnil)])

/-- A break in front of a text: two characters, or one that does not begin such a pair. -/
inductive IsLineEnd (rest : List Char) : List Char → Prop
  | pair : IsLineEnd rest ['\r', '\n']
  | single {c : Char} : isBreak c = true → NoPair c rest → IsLineEnd rest [c]

theorem IsLineEnd.isBreak_of_mem {rest brk : List Char} (h : IsLineEnd rest brk) : ∀ c ∈ brk, isBreak c = true := by
  cases h with
  | pair => simp [isBreak]
  | single hc => simpa using hc

theorem IsLineEnd.ne_nil {rest brk : List Char} (h : IsLineEnd rest brk) : brk ≠ [] := by
  cases h <;> exact List.cons_ne_nil _ _

/-- A break ends the line before it. -/
theorem IsLineEnd.lines_append {line rest brk : List Char} (h : IsLineEnd rest brk)
    (hline : ∀ c ∈ line, isBreak c = false) :
    lines (line ++ (brk ++ rest)) = line :: lines rest := by
  induction line with
  | nil =>
    cases h with
    | pair => rfl
    | single hc hpair => rw [List.nil_append, List.singleton_append, lines_cons hpair, if_pos hc]
  | cons c line ih =>
    have hc : isBreak c = false := hline c List.mem_cons_self
    have hpair : NoPair c (line ++ (brk ++ rest)) := by
      rintro more rfl -
      cases hc
    rw [List.cons_append, lines_cons hpair, hc, ih fun d hd => hline d (List.mem_cons_of_mem c hd)]
    rfl

/-- Induction over a text line by line: what is left behind the last break is a line too. -/
@[elab_as_elim]
theorem lineInduction {motive : List Char → Prop}
    (last : ∀ line, (∀ c ∈ line, isBreak c = false) → motive line)
    (more : ∀ line brk rest, (∀ c ∈ line, isBreak c = false) → IsLineEnd rest brk → motive rest →
      motive (line ++ (brk ++ rest)))
    (text : List Char) : motive text := by
  -- the characters before a break are collected until they are known to be a whole line
  suffices hbegun : ∀ line, (∀ c ∈ line, isBreak c = false) → motive (line ++ text) from
    hbegun [] (List.forall_mem_nil _)
  induction text using lines.induct with
  | case1 =>
    intro line h
    rw [List.append_nil]
    exact last line h
  | case2 rest ih => exact fun line h => more line _ rest h .pair (ih [] (List.forall_mem_nil _))
  | case3 c rest hpair hbreak ih =>
    exact fun line h => more line _ rest h (.single hbreak hpair) (ih [] (List.forall_mem_nil _))
  | case4 c rest hpair hbreak ih =>
    intro line h
    have hall : ∀ d ∈ line ++ [c], isBreak d = false := by
      intro d hd
      rcases List.mem_append.mp hd with hd | hd
      · exact h d hd
      · rw [List.mem_singleton.mp hd]
        exact Bool.eq_false_iff.mpr hbreak
    rw [List.append_cons]
    exact ih (line ++ [c]) hall

/-- A line without any token: its first character that is not blank, if it has one, is a number
sign. -/
def isSkipped (line : List Char) : Bool := (line.find? fun c => !isBlank c).all (· == '#')

theorem words_blank {c : Char} (h : isBlank c = true) (rest : List Char) :
    words (c :: rest) = words rest := by
  simp [words, wordsFrom, endWord, h]

/-- The word that was begun is the first one. -/
theorem wordsFrom_of_ne_nil {word : List Char} (h : word ≠ []) (text : List Char) :
    ∃ tail more, wordsFrom word text = (word.reverse ++ tail) :: more := by
  induction text generalizing word with
  | nil => exact ⟨[], [], by simp [wordsFrom, endWord, h]⟩
  | cons c rest ih =>
    rw [wordsFrom]
    split
    · exact ⟨[], wordsFrom [] rest, by simp [endWord, h]⟩
    · obtain ⟨tail, more, heq⟩ := ih (List.cons_ne_nil c word)
      exact ⟨c :: tail, more, by rw [heq]; simp⟩

/-- The first word begins with the first character that is not blank. -/
theorem head?_words (line : List Char) :
    (words line).head?.bind List.head? = line.find? fun c => !isBlank c := by
  induction line with
  | nil => rfl
  | cons c rest ih =>
    cases hc : isBlank c with
    | true => rw [words_blank hc, ih, List.find?_cons_of_neg (by simp [hc])]
    | false =>
      obtain ⟨tail, more, heq⟩ := wordsFrom_of_ne_nil (List.cons_ne_nil c []) rest
      have hfirst : words (c :: rest) = (c :: tail) :: more := by
        rw [words, wordsFrom, hc]
        simpa using heq
      rw [hfirst, List.find?_cons_of_pos (by simp [hc])]
      rfl

theorem isSkipped_eq (line : List Char) :
    isSkipped line = ((words line).isEmpty || Token.isComment (words line)) := by
  rw [isSkipped, ← head?_words]
  cases hw : words line with
  | nil => rfl
  | cons word more =>
    cases word with
    | nil => exact absurd rfl (ne_nil_of_mem_words (by rw [hw]; simp))
    | cons c word => by_cases hc : c = '#' <;> simp [Token.isComment, hc]

theorem toList_feed (text : String) : (text ++ "\n").toList = text.toList ++ ['\n'] := by
  simp [String.toList_append]

theorem toList_feed_append (text more : String) :
    (text ++ "\n" ++ more).toList = text.toList ++ '\n' :: more.toList := by
  simp [String.toList_append]

/-- How many lines a text has when a line feed ends it. -/
def lineCount (text : String) : Nat := (lines (text ++ "\n").toList).length

end Turtle.Text

namespace Turtle

/-- The token on a line with another number. -/
def Token.renumber (f : Int → Int) (t : Token) : Token := { t with lineNumber := f t.lineNumber }

namespace Token
open Text

theorem ofLine_of_isSkipped {line : List Char} (h : isSkipped line = true) (n : Int) :
    ofLine n line = [] := by
  rw [isSkipped_eq, Bool.or_eq_true, List.isEmpty_iff] at h
  unfold ofLine
  rcases h with h | h <;> simp [h]

theorem not_isSkipped_of_mem {n : Int} {line : List Char} {t : Token} (h : t ∈ ofLine n line) :
    isSkipped line = false := by
  cases hs : isSkipped line with
  | false => rfl
  | true =>
    rw [ofLine_of_isSkipped hs] at h
    cases h

theorem ofLines_append (n : Int) (before after : List (List Char)) :
    ofLines n (before ++ after) = ofLines n before ++ ofLines (n + before.length) after := by
  induction before generalizing n with
  | nil => simp [ofLines]
  | cons line rest ih =>
    have hn : n + 1 + (rest.length : Int) = n + ((line :: rest).length : Nat) := by
      rw [List.length_cons]
      omega
    rw [List.cons_append, ofLines, ofLines, ih, List.append_assoc, hn]

theorem ofLine_renumber (f : Int → Int) (n : Int) (line : List Char) :
    ofLine (f n) line = (ofLine n line).map (renumber f) := by
  unfold ofLine
  dsimp only
  split
  · rfl
  · simp [renumber]

/-- Lines that begin further down have the same tokens, further down. -/
theorem ofLines_add (n k : Int) (found : List (List Char)) :
    ofLines (n + k) found = (ofLines n found).map (renumber (· + k)) := by
  induction found generalizing n with
  | nil => rfl
  | cons line rest ih =>
    have hn : n + k + 1 = n + 1 + k := by omega
    rw [ofLines, ofLines, List.map_append, ← ofLine_renumber, hn, ih]

/-- A token is on one of the lines, which has the number of the token. -/
theorem exists_of_mem_ofLines {n : Int} {found : List (List Char)} {t : Token}
    (h : t ∈ ofLines n found) :
    ∃ (i : Nat) (line : List Char), found[i]? = some line ∧ t.lineNumber = n + i ∧
      t ∈ ofLine (n + i) line := by
  induction found generalizing n with
  | nil => cases h
  | cons first rest ih =>
    rcases List.mem_append.mp h with h | h
    · obtain ⟨hn, -, -⟩ := line_of_mem_ofLine h
      exact ⟨0, first, rfl, by simpa using hn, by simpa using h⟩
    · obtain ⟨i, line, hi, hn, hmem⟩ := ih h
      have hnext : n + 1 + (i : Int) = n + (i + 1 : Nat) := by omega
      rw [hnext] at hn hmem
      exact ⟨i + 1, line, hi, hn, hmem⟩

theorem lineNumber_of_mem_ofLines {n : Int} {found : List (List Char)} {t : Token}
    (h : t ∈ ofLines n found) : n ≤ t.lineNumber ∧ t.lineNumber < n + found.length := by
  obtain ⟨i, line, hi, hn, -⟩ := exists_of_mem_ofLines h
  have hlt : i < found.length := (List.getElem?_eq_some_iff.mp hi).1
  omega

/-- A line feed at the end of a text adds no token. -/
theorem ofLines_feed (n : Int) (text : List Char) :
    ofLines n (Text.lines (text ++ ['\n'])) = ofLines n (Text.lines text) := by
  rcases lines_append_feed text with h | h
  · rw [h]
  · have hempty : ofLine (n + (Text.lines text).length) [] = [] := rfl
    rw [h, ofLines_append, ofLines, hempty, ofLines, List.append_nil, List.append_nil]

/-- The tokens of a text that goes on behind a line feed. -/
theorem ofText_append (n : Int) (text more : String) :
    ofText n (text ++ "\n" ++ more) =
      ofText n text ++ (ofText n more).map (renumber (· + lineCount text)) := by
  rw [ofText, toList_feed_append, lines_append, ofLines_append, ofLines_feed, ofLines_add,
    ← toList_feed]
  rfl

/-- No token of a text is below its last line. -/
theorem lineNumber_le_lineCount {text : String} {t : Token} (h : t ∈ ofText 1 text) :
    t.lineNumber ≤ lineCount text := by
  rw [ofText, ← ofLines_feed, ← toList_feed] at h
  obtain ⟨-, hlt⟩ := lineNumber_of_mem_ofLines h
  unfold lineCount
  omega

end Token

end Turtle
