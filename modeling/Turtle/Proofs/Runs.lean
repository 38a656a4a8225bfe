import Mathlib.Data.List.Basic
import Mathlib.Data.List.TakeWhile
import Turtle.Proofs.JoinedLines

/-! Tokens by their places in a text. A token is a maximal run of characters that are not blank, and
everything it carries can be read off the text around its first character: the run itself, the
number of breaks before it, and the line between the breaks around it. The proofs take a text apart
line by line and a line word by word; a break and a blank are where the places on both sides
have nothing to do with each other. -/

namespace Turtle.Text

/-- At an offset begins a maximal run of characters that are not blank. -/
def startsRun (text : List Char) (i : Nat) : Bool :=
  text[i]?.any (!isBlank ·) && (i == 0 || text[i - 1]?.any isBlank)

/-- The offsets at which runs begin, in order. -/
def runStarts (text : List Char) : List Nat := (List.range text.length).filter (startsRun text)

/-- The characters from an offset up to the next blank. -/
def runAt (text : List Char) (i : Nat) : List Char := (text.drop i).takeWhile (!isBlank ·)

/-- A break ends with the character at an offset; a carriage return with the line feed after it is one
break. -/
def endsBreak (text : List Char) (i : Nat) : Bool :=
  text[i]?.any isBreak && !(text[i]? == some '\r' && text[i + 1]? == some '\n')

/-- How many breaks end before an offset. -/
def breaksBefore (text : List Char) (i : Nat) : Nat := (List.range i).countP (endsBreak text)

/-- The text between the breaks around an offset. -/
def lineAround (text : List Char) (i : Nat) : List Char :=
  ((text.take i).reverse.takeWhile (!isBreak ·)).reverse ++ (text.drop i).takeWhile (!isBreak ·)

/-- The first character that is not blank on the line around an offset is a number sign. -/
def isCommented (text : List Char) (i : Nat) : Bool :=
  (lineAround text i).find? (!isBlank ·) == some '#'

variable {line brk front rest tail : List Char} {c : Char} {i : Nat}

theorem takeWhile_append_stop {p : Char → Bool} (l : List Char) (h : ∀ c ∈ tail.head?, p c = false) :
    (l ++ tail).takeWhile p = l.takeWhile p := by
  have hnone : tail.takeWhile p = [] := by
    cases tail with
    | nil => rfl
    | cons d tail => exact List.takeWhile_cons_of_neg (by simp [h d rfl])
  rw [List.takeWhile_append, hnone, List.append_nil]
  split
  · rename_i hlength
    exact ((List.takeWhile_prefix p).eq_of_length hlength).symm
  · rfl

/-! Runs of a text in two parts. -/

theorem startsRun_append_left (hi : i < front.length) : startsRun (front ++ rest) i = startsRun front i := by
  have hprev : i - 1 < front.length := by omega
  rw [startsRun, startsRun, List.getElem?_append_left hi, List.getElem?_append_left hprev]

/-- Behind a blank the runs of the rest begin as by itself. -/
theorem startsRun_append_right (h : ∀ c ∈ front.getLast?, isBlank c = true) (j : Nat) :
    startsRun (front ++ rest) (front.length + j) = startsRun rest j := by
  have hhere : (front ++ rest)[front.length + j]? = rest[j]? := by
    rw [List.getElem?_append_right (Nat.le_add_right _ _), Nat.add_sub_cancel_left]
  rw [startsRun, startsRun, hhere]
  congr 1
  cases j with
  | zero =>
    by_cases hnil : front = []
    · rw [hnil]
      rfl
    · have hlast : (front ++ rest)[front.length + 0 - 1]? = front.getLast? := by
        have hpos := List.length_pos_iff.mpr hnil
        rw [List.getElem?_append_left (by omega), List.getLast?_eq_getElem?]
        rfl
      rw [hlast, List.getLast?_eq_some_getLast hnil, Option.any_some,
        h _ (List.getLast?_eq_some_getLast hnil), Bool.or_true]
      rfl
  | succ j =>
    have hprev : (front ++ rest)[front.length + (j + 1) - 1]? = rest[j + 1 - 1]? := by
      have hindex : front.length + (j + 1) - 1 = front.length + j := by omega
      rw [hindex, List.getElem?_append_right (Nat.le_add_right _ _), Nat.add_sub_cancel_left]
      rfl
    have hzero : (front.length + (j + 1) == 0) = false := rfl
    rw [hprev, hzero]
    rfl

theorem runStarts_append (h : ∀ c ∈ front.getLast?, isBlank c = true) (rest : List Char) :
    runStarts (front ++ rest) = runStarts front ++ (runStarts rest).map (front.length + ·) := by
  have hleft : (List.range front.length).filter (startsRun (front ++ rest)) =
      (List.range front.length).filter (startsRun front) :=
    List.filter_congr fun i hi => startsRun_append_left (List.mem_range.mp hi)
  have hright : startsRun (front ++ rest) ∘ (front.length + ·) = startsRun rest :=
    funext fun j => startsRun_append_right h j
  rw [runStarts, List.length_append, List.range_add, List.filter_append, hleft, List.filter_map, hright]
  rfl

/-- No run begins in blanks. -/
theorem runStarts_append_blanks (h : ∀ c ∈ tail, isBlank c = true) (front : List Char) :
    runStarts (front ++ tail) = runStarts front := by
  have hleft : (List.range front.length).filter (startsRun (front ++ tail)) =
      (List.range front.length).filter (startsRun front) :=
    List.filter_congr fun i hi => startsRun_append_left (List.mem_range.mp hi)
  have hright : (List.range tail.length).filter (startsRun (front ++ tail) ∘ (front.length + ·)) = [] := by
    refine List.filter_eq_nil_iff.mpr fun j hj => ?_
    have hlt := List.mem_range.mp hj
    have hhere : (front ++ tail)[front.length + j]? = some tail[j] := by
      rw [List.getElem?_append_right (Nat.le_add_right _ _), Nat.add_sub_cancel_left,
        List.getElem?_eq_getElem hlt]
    rw [Function.comp_apply, startsRun, hhere, Option.any_some, h _ (List.getElem_mem hlt)]
    exact Bool.false_ne_true
  rw [runStarts, List.length_append, List.range_add, List.filter_append, hleft, List.filter_map, hright,
    List.map_nil, List.append_nil]
  rfl

/-- A word is one run. -/
theorem runStarts_of_isWord {word : List Char} (h : IsWord word) : runStarts word = [0] := by
  obtain ⟨hne, hall⟩ := h
  cases word with
  | nil => exact absurd rfl hne
  | cons c word =>
    have hfirst : startsRun (c :: word) 0 = true := by
      simp [startsRun, hall c List.mem_cons_self]
    have hmore : (List.range word.length).filter (startsRun (c :: word) ∘ Nat.succ) = [] := by
      refine List.filter_eq_nil_iff.mpr fun j hj => ?_
      have hlt : j < (c :: word).length := by
        have hj := List.mem_range.mp hj
        rw [List.length_cons]
        omega
      have hprev : (c :: word)[j.succ - 1]? = some (c :: word)[j] := List.getElem?_eq_getElem hlt
      rw [Function.comp_apply, startsRun, hprev, Option.any_some, hall _ (List.getElem_mem hlt)]
      simp
    rw [runStarts, List.length_cons, List.range_succ_eq_map, List.filter_cons_of_pos hfirst,
      List.filter_map, hmore, List.map_nil]

theorem runAt_append_right (front rest : List Char) (j : Nat) :
    runAt (front ++ rest) (front.length + j) = runAt rest j := by
  rw [runAt, ← List.drop_drop, List.drop_left, runAt]

theorem runAt_append_left (h : ∀ c ∈ tail.head?, isBlank c = true) (hi : i ≤ front.length) :
    runAt (front ++ tail) i = runAt front i := by
  rw [runAt, List.drop_append_of_le_length hi, takeWhile_append_stop _ (by simpa using h), runAt]

theorem runAt_zero_of_isWord {word : List Char} (h : IsWord word) : runAt word 0 = word :=
  List.takeWhile_eq_self_iff.mpr fun c hc => by rw [h.2 c hc]; rfl

/-- The words of a text are its runs. -/
theorem words_eq_runs (text : List Char) : words text = (runStarts text).map (runAt text) := by
  induction text using wordInduction with
  | last word h =>
    by_cases hnil : word = []
    · rw [hnil]
      rfl
    · have hword : IsWord word := ⟨hnil, h⟩
      rw [words_of_isWord hword, runStarts_of_isWord hword, List.map_singleton, runAt_zero_of_isWord hword]
  | blank word c rest h hc ih =>
    have hlast : ∀ d ∈ (word ++ [c]).getLast?, isBlank d = true := by
      intro d hd
      rw [List.getLast?_concat] at hd
      rw [← Option.some.inj hd]
      exact hc
    have hstop : ∀ d ∈ (c :: rest).head?, isBlank d = true := by
      intro d hd
      rw [← Option.some.inj hd]
      exact hc
    have hlater : (runStarts rest).map (runAt (word ++ c :: rest) ∘ ((word ++ [c]).length + ·)) =
        words rest := by
      rw [ih, List.append_cons]
      exact List.map_congr_left fun j _ => runAt_append_right (word ++ [c]) rest j
    have hblank : ∀ d ∈ [c], isBlank d = true := by simpa using hc
    have hruns : runStarts (word ++ c :: rest) =
        runStarts word ++ (runStarts rest).map ((word ++ [c]).length + ·) := by
      rw [List.append_cons, runStarts_append hlast, runStarts_append_blanks hblank]
    rw [hruns, List.map_append, List.map_map, hlater]
    by_cases hnil : word = []
    · rw [hnil]
      exact words_blank hc rest
    · have hword : IsWord word := ⟨hnil, h⟩
      rw [words_append_blank hword hc, runStarts_of_isWord hword, List.map_singleton,
        runAt_append_left hstop (Nat.zero_le _), runAt_zero_of_isWord hword]
      rfl

/-! Lines. -/

theorem not_endsBreak (h : ∀ c ∈ line, isBreak c = false) (hi : i < line.length) :
    endsBreak (line ++ tail) i = false := by
  rw [endsBreak, List.getElem?_append_left hi, List.getElem?_eq_getElem hi, Option.any_some,
    h _ (List.getElem_mem hi)]
  rfl

theorem breaksBefore_of_line (h : ∀ c ∈ line, isBreak c = false) (hi : i ≤ line.length) :
    breaksBefore (line ++ tail) i = 0 := by
  refine List.countP_eq_zero.mpr fun j hj => ?_
  have hlt : j < line.length := Nat.lt_of_lt_of_le (List.mem_range.mp hj) hi
  rw [not_endsBreak h hlt]
  exact Bool.false_ne_true

theorem lineAround_of_line (h : ∀ c ∈ line, isBreak c = false)
    (htail : ∀ c ∈ tail.head?, isBreak c = true) (hi : i ≤ line.length) :
    lineAround (line ++ tail) i = line := by
  have hbefore : ((line ++ tail).take i).reverse.takeWhile (!isBreak ·) = (line.take i).reverse := by
    rw [List.take_append_of_le_length hi]
    refine List.takeWhile_eq_self_iff.mpr fun c hc => ?_
    rw [h c (List.mem_of_mem_take (List.mem_reverse.mp hc))]
    rfl
  have hafter : ((line ++ tail).drop i).takeWhile (!isBreak ·) = line.drop i := by
    rw [List.drop_append_of_le_length hi, takeWhile_append_stop _ (by simpa using htail)]
    refine List.takeWhile_eq_self_iff.mpr fun c hc => ?_
    rw [h c (List.mem_of_mem_drop hc)]
    rfl
  rw [lineAround, hbefore, hafter, List.reverse_reverse, List.take_append_drop]

theorem endsBreak_append_right (front rest : List Char) (j : Nat) :
    endsBreak (front ++ rest) (front.length + j) = endsBreak rest j := by
  have hget : ∀ k, (front ++ rest)[front.length + k]? = rest[k]? := by
    intro k
    rw [List.getElem?_append_right (Nat.le_add_right _ _), Nat.add_sub_cancel_left]
  rw [endsBreak, hget, Nat.add_assoc, hget, endsBreak]

theorem breaksBefore_append_right (front rest : List Char) (j : Nat) :
    breaksBefore (front ++ rest) (front.length + j) =
      breaksBefore (front ++ rest) front.length + breaksBefore rest j := by
  have hright : endsBreak (front ++ rest) ∘ (front.length + ·) = endsBreak rest :=
    funext fun k => endsBreak_append_right front rest k
  rw [breaksBefore, List.range_add, List.countP_append, List.countP_map, hright]
  rfl

theorem lineAround_append_right (h : ∀ c ∈ front.getLast?, isBreak c = true) (rest : List Char) (j : Nat) :
    lineAround (front ++ rest) (front.length + j) = lineAround rest j := by
  have hstop : ∀ c ∈ front.reverse.head?, (!isBreak c) = false := by
    intro c hc
    rw [List.head?_reverse] at hc
    rw [h c hc]
    rfl
  rw [lineAround, List.take_length_add_append, List.reverse_append, takeWhile_append_stop _ hstop,
    ← List.drop_drop, List.drop_left, lineAround]

theorem IsLineEnd.breaksBefore (h : IsLineEnd rest brk) : breaksBefore (brk ++ rest) brk.length = 1 := by
  cases h with
  | pair => rfl
  | @single c hc hpair =>
    have hnot : (some c == some '\r' && rest[0]? == some '\n') = false := by
      rw [Bool.and_eq_false_imp]
      intro hcr
      cases rest with
      | nil => rfl
      | cons d rest =>
        rw [List.getElem?_cons_zero, beq_eq_false_iff_ne]
        intro hd
        exact hpair rest (by simpa using hcr) (by rw [Option.some.inj hd])
    have hends : endsBreak (c :: rest) 0 = true := by
      rw [endsBreak, List.getElem?_cons_zero, List.getElem?_cons_succ, hnot, Option.any_some, hc]
      rfl
    exact List.countP_eq_length.mpr (by simpa using hends)

end Turtle.Text

namespace Turtle.Token
open Text

variable {line brk rest tail : List Char}

/-- The token of the run that begins at an offset. -/
def atRun (first : Int) (text : List Char) (i : Nat) : Token :=
  ⟨String.ofList (runAt text i), first + breaksBefore text i, String.ofList (lineAround text i)⟩

/-- The tokens of the runs that no comment holds. -/
def ofRuns (first : Int) (text : List Char) : List Token :=
  ((runStarts text).filter (!isCommented text ·)).map (atRun first text)

theorem isComment_words (line : List Char) :
    isComment (words line) = (line.find? (!isBlank ·) == some '#') := by
  rw [← head?_words]
  cases hw : words line with
  | nil => rfl
  | cons word more =>
    cases word with
    | nil => exact absurd rfl (ne_nil_of_mem_words (by rw [hw]; simp))
    | cons c word => by_cases hc : c = '#' <;> simp [isComment, hc]

/-- The runs of a line that a break ends, or the end of the text. -/
theorem ofLine_eq_runs (n : Int) (h : ∀ c ∈ line, isBreak c = false)
    (htail : ∀ c ∈ tail.head?, isBreak c = true) :
    ofLine n line =
      ((runStarts line).filter (!isCommented (line ++ tail) ·)).map (atRun n (line ++ tail)) := by
  have hlt : ∀ i ∈ runStarts line, i ≤ line.length := fun i hi =>
    Nat.le_of_lt (List.mem_range.mp (List.mem_filter.mp hi).1)
  have hcommented : ∀ i ∈ runStarts line,
      (!isCommented (line ++ tail) i) = !isComment (words line) := by
    intro i hi
    rw [isCommented, lineAround_of_line h htail (hlt i hi), isComment_words]
  rw [List.filter_congr hcommented, ofLine]
  cases isComment (words line) with
  | true => simp
  | false =>
    have hblank : ∀ c ∈ tail.head?, isBlank c = true := fun c hc => isBlank_of_isBreak (htail c hc)
    simp only [Bool.false_eq_true, if_false, Bool.not_false, List.filter_true, words_eq_runs, List.map_map]
    refine List.map_congr_left fun i hi => ?_
    rw [Function.comp_apply, atRun, runAt_append_left hblank (hlt i hi), breaksBefore_of_line h (hlt i hi),
      lineAround_of_line h htail (hlt i hi), Int.natCast_zero, Int.add_zero]

theorem ofRuns_append_end (hbrk : IsLineEnd rest brk) (h : ∀ c ∈ line, isBreak c = false) (n : Int) :
    ofRuns n (line ++ (brk ++ rest)) = ofLine n line ++ ofRuns (n + 1) rest := by
  have hlast : ∀ c ∈ (line ++ brk).getLast?, isBreak c = true := by
    intro c hc
    rw [List.getLast?_append_of_ne_nil line hbrk.ne_nil] at hc
    exact hbrk.isBreak_of_mem c (List.mem_of_getLast? hc)
  have hhead : ∀ c ∈ (brk ++ rest).head?, isBreak c = true := by
    intro c hc
    rw [List.head?_append_of_ne_nil brk hbrk.ne_nil] at hc
    exact hbrk.isBreak_of_mem c (List.mem_of_head? hc)
  have hcount : breaksBefore (line ++ (brk ++ rest)) (line ++ brk).length = 1 := by
    rw [List.length_append, breaksBefore_append_right, breaksBefore_of_line h (Nat.le_refl _),
      hbrk.breaksBefore]
  have hcommented : (!isCommented (line ++ (brk ++ rest)) ·) ∘ ((line ++ brk).length + ·) =
      (!isCommented rest ·) := by
    funext j
    rw [Function.comp_apply, isCommented, ← List.append_assoc, lineAround_append_right hlast, isCommented]
  have hat : atRun n (line ++ (brk ++ rest)) ∘ ((line ++ brk).length + ·) = atRun (n + 1) rest := by
    funext j
    rw [← List.append_assoc] at hcount
    rw [Function.comp_apply, atRun, ← List.append_assoc, runAt_append_right, breaksBefore_append_right,
      hcount, lineAround_append_right hlast, atRun, Int.natCast_add, ← Int.add_assoc]
    rfl
  have hruns : runStarts (line ++ (brk ++ rest)) =
      runStarts line ++ (runStarts rest).map ((line ++ brk).length + ·) := by
    rw [← List.append_assoc, runStarts_append fun c hc => isBlank_of_isBreak (hlast c hc),
      runStarts_append_blanks fun c hc => isBlank_of_isBreak (hbrk.isBreak_of_mem c hc)]
  rw [ofRuns, hruns, List.filter_append, List.map_append, ← ofLine_eq_runs n h hhead, List.filter_map,
    List.map_map, hcommented, hat, ofRuns]

/-- Lines and their words find the runs. -/
theorem ofLines_eq_ofRuns (n : Int) (text : List Char) : ofLines n (lines text) = ofRuns n text := by
  induction text using lineInduction generalizing n with
  | last line h =>
    by_cases hnil : line = []
    · rw [hnil]
      rfl
    · have hlast := @ofLine_eq_runs line [] n h (by simp)
      rw [List.append_nil] at hlast
      rw [lines_of_no_break h hnil, ofLines, ofLines, List.append_nil, hlast, ofRuns]
  | more line brk rest h hbrk ih => rw [hbrk.lines_append h, ofLines, ih, ofRuns_append_end hbrk h]

theorem ofText_eq_ofRuns (first : Int) (source : String) :
    ofText first source = ofRuns first source.toList := ofLines_eq_ofRuns first source.toList

/-- Further down a text there are at least as many breaks behind. -/
theorem breaksBefore_mono (text : List Char) {i j : Nat} (h : i ≤ j) :
    breaksBefore text i ≤ breaksBefore text j :=
  (List.range_sublist.mpr h).countP_le

theorem pairwise_ofRuns (first : Int) (text : List Char) :
    (ofRuns first text).Pairwise fun s t => s.lineNumber ≤ t.lineNumber := by
  have hsorted : ((runStarts text).filter (!isCommented text ·)).Pairwise (· < ·) :=
    (List.pairwise_lt_range.sublist List.filter_sublist).sublist List.filter_sublist
  refine List.pairwise_map.mpr (hsorted.imp fun hij => ?_)
  have hle := breaksBefore_mono text (Nat.le_of_lt hij)
  simp only [atRun]
  omega

/-- Tokens with one line number stand on one line. -/
theorem line_eq_of_lineNumber_eq {n : Int} {found : List (List Char)} {s t : Token}
    (hs : s ∈ ofLines n found) (ht : t ∈ ofLines n found) (h : s.lineNumber = t.lineNumber) :
    s.line = t.line := by
  obtain ⟨i, first, hi, hsi, hsline⟩ := exists_of_mem_ofLines hs
  obtain ⟨j, second, hj, htj, htline⟩ := exists_of_mem_ofLines ht
  have hij : i = j := by omega
  rw [hij, hj] at hi
  rw [(line_of_mem_ofLine hsline).2.1, (line_of_mem_ofLine htline).2.1, Option.some.inj hi]

theorem mem_words_of_mem_ofLines {n : Int} {found : List (List Char)} {t : Token}
    (h : t ∈ ofLines n found) : ∃ line, t.text.toList ∈ words line := by
  obtain ⟨i, line, -, -, hmem⟩ := exists_of_mem_ofLines h
  exact ⟨line, (line_of_mem_ofLine hmem).2.2⟩

/-! The text that writes every line as its tokens, one blank between two of them. -/

/-- What a token is without the text around it. -/
def place (t : Token) : String × Int := (t.text, t.lineNumber)

/-- The tokens on the line with a number, joined by blanks. -/
def lineOf (found : List Token) (number : Int) : String :=
  " ".intercalate ((found.filter (·.lineNumber == number)).map text)

/-- The lines of a source, each as the tokens on it, also where there are none. -/
def tidiedLines (first : Int) (source : String) : List String :=
  (List.range (lines source.toList).length).map fun (k : Nat) => lineOf (ofText first source) (first + k)

/-- A source written anew from its tokens. -/
def tidied (first : Int) (source : String) : String := "\n".intercalate (tidiedLines first source)

/-- The words of a line that are tokens. -/
def shownWords (line : List Char) : List (List Char) :=
  if isComment (words line) then [] else words line

theorem ofLine_eq (n : Int) (line : List Char) :
    ofLine n line = (shownWords line).map fun word => ⟨String.ofList word, n, String.ofList line⟩ := by
  unfold ofLine shownWords
  dsimp only
  split <;> rfl

theorem isWord_of_mem_shownWords {line word : List Char} (h : word ∈ shownWords line) : IsWord word := by
  unfold shownWords at h
  split at h
  · cases h
  · exact ⟨ne_nil_of_mem_words h, not_blank_of_mem_words h⟩

/-- The tokens of a line, joined by blanks, are its tokens again. -/
theorem shownWords_intercalate (line : List Char) :
    shownWords ([' '].intercalate (shownWords line)) = shownWords line := by
  have hcomment : isComment (shownWords line) = false := by
    unfold shownWords
    split
    · rfl
    · exact Bool.eq_false_iff.mpr ‹_›
  have hwords := words_intercalate fun word h => @isWord_of_mem_shownWords line word h
  rw [shownWords, hwords, hcomment]
  rfl

/-- Only the line with a number has tokens with that number. -/
theorem filter_ofLines {n : Int} {found : List (List Char)} {k : Nat} {line : List Char}
    (h : found[k]? = some line) :
    (ofLines n found).filter (·.lineNumber == n + k) = ofLine (n + k) line := by
  induction found generalizing n k with
  | nil => cases h
  | cons first rest ih =>
    rw [ofLines, List.filter_append]
    cases k with
    | zero =>
      obtain rfl : first = line := Option.some.inj h
      have hall : ∀ t ∈ ofLine n first, (t.lineNumber == n + (0 : Nat)) = true := by
        intro t ht
        simpa using (line_of_mem_ofLine ht).1
      have hnone : ∀ t ∈ ofLines (n + 1) rest, ¬ (t.lineNumber == n + (0 : Nat)) = true := by
        intro t ht
        have hle := (lineNumber_of_mem_ofLines ht).1
        rw [beq_iff_eq]
        omega
      rw [List.filter_eq_self.mpr hall, List.filter_eq_nil_iff.mpr hnone, List.append_nil]
      simp
    | succ k =>
      have hnone : ∀ t ∈ ofLine n first, ¬ (t.lineNumber == n + (k + 1 : Nat)) = true := by
        intro t ht
        have hn := (line_of_mem_ofLine ht).1
        rw [beq_iff_eq]
        omega
      have hnext : n + (k + 1 : Nat) = n + 1 + k := by omega
      rw [List.filter_eq_nil_iff.mpr hnone, List.nil_append, hnext]
      exact ih h

theorem toList_lineOf {n : Int} {found : List (List Char)} {k : Nat} {line : List Char}
    (h : found[k]? = some line) :
    (lineOf (ofLines n found) (n + k)).toList = [' '].intercalate (shownWords line) := by
  have hblank : " ".toList = [' '] := rfl
  have htexts : (String.toList ∘ text) ∘
      (fun word => (⟨String.ofList word, n + k, String.ofList line⟩ : Token)) = id :=
    funext fun word => String.toList_ofList
  rw [lineOf, filter_ofLines h, String.toList_intercalate, hblank, List.map_map, ofLine_eq, List.map_map,
    htexts, List.map_id]

/-- A line of its own tokens has them at the same places. -/
theorem places_of_shownWords (n : Int) (found : List (List Char)) :
    (ofLines n (found.map fun line => [' '].intercalate (shownWords line))).map place =
      (ofLines n found).map place := by
  induction found generalizing n with
  | nil => rfl
  | cons line rest ih =>
    rw [List.map_cons, ofLines, ofLines, List.map_append, List.map_append, ih, ofLine_eq, ofLine_eq,
      shownWords_intercalate, List.map_map, List.map_map]
    rfl

theorem toList_tidiedLines (first : Int) (source : String) :
    (tidiedLines first source).map String.toList =
      (lines source.toList).map fun line => [' '].intercalate (shownWords line) := by
  rw [tidiedLines, List.map_map]
  refine List.ext_getElem (by simp) fun k hk hk' => ?_
  have hlt : k < (lines source.toList).length := by simpa using hk'
  have hline : (lines source.toList)[k]? = some (lines source.toList)[k] := List.getElem?_eq_getElem hlt
  rw [List.getElem_map, List.getElem_range, List.getElem_map]
  exact toList_lineOf hline

theorem oneLine_of_mem_tidiedLines {first : Int} {source line : String}
    (h : line ∈ tidiedLines first source) : OneLine line := by
  have hmem := List.mem_map_of_mem h (f := String.toList)
  rw [toList_tidiedLines] at hmem
  obtain ⟨old, -, hold⟩ := List.mem_map.mp hmem
  rw [OneLine, ← hold]
  exact not_isBreak_intercalate fun word hword => isWord_of_mem_shownWords hword

/-- Writing a source anew moves no token. -/
theorem places_tidied (first : Int) (source : String) :
    (ofText first (tidied first source)).map place = (ofText first source).map place := by
  rw [tidied, ofText_intercalate first fun line h => oneLine_of_mem_tidiedLines h, toList_tidiedLines,
    places_of_shownWords, ofText]

/-- The tokens of a text are its runs in order, each at its place, but for those on a comment. So no
token holds a blank or a break, the numbers of the lines do not go down and each belongs to one line,
and the text with every line written as its tokens has the same tokens at the same places. -/
theorem tokens_are_runs (first : Int) (source : String) :
    ofText first source = ofRuns first source.toList ∧
      (∀ t ∈ ofText first source, t.text.toList ≠ [] ∧
        ∀ c ∈ t.text.toList, isBlank c = false ∧ isBreak c = false) ∧
      (ofText first source).Pairwise (fun s t => s.lineNumber ≤ t.lineNumber) ∧
      (∀ s ∈ ofText first source, ∀ t ∈ ofText first source,
        s.lineNumber = t.lineNumber → s.line = t.line) ∧
      (ofText first (tidied first source)).map place = (ofText first source).map place := by
  refine ⟨ofText_eq_ofRuns first source, fun t ht => ?_, ?_,
    fun s hs t ht hst => line_eq_of_lineNumber_eq hs ht hst, places_tidied first source⟩
  · obtain ⟨line, hmem⟩ := mem_words_of_mem_ofLines ht
    refine ⟨ne_nil_of_mem_words hmem, fun c hc => ?_⟩
    have hblank := not_blank_of_mem_words hmem c hc
    refine ⟨hblank, Bool.eq_false_iff.mpr fun hbreak => ?_⟩
    rw [isBlank_of_isBreak hbreak] at hblank
    cases hblank
  · rw [ofText_eq_ofRuns]
    exact pairwise_ofRuns first source.toList

example : ofRuns 5 "F\t1\r\n # L\n\x0bR #".toList =
    [⟨"F", 5, "F\t1"⟩, ⟨"1", 5, "F\t1"⟩, ⟨"R", 8, "R #"⟩, ⟨"#", 8, "R #"⟩] := by decide

end Turtle.Token
