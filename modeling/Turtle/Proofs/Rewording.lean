import Turtle.Proofs.Runs

/-! Texts in which other words stand. Where a text is put in the place of a word, everything around
the word stays, so the tokens of the new text are those of the old one with the words of what
was put in their places, on the same lines. The breaks stay as long as none is put in, and a
comment stays one as long as a number sign begins exactly the words that it began before. -/

namespace Turtle.Text

/-- What stands for the word that begins at an offset and whose characters were collected newest
first; nothing stands for no word. -/
def newWord (new : Nat → List Char → List Char) (start : Nat) (word : List Char) : List Char :=
  if word.isEmpty then [] else new start word.reverse

def rewordFrom (new : Nat → List Char → List Char) (start : Nat) (word : List Char) :
    List Char → List Char
  | [] => newWord new start word
  | c :: rest =>
    if isBlank c then newWord new start word ++ c :: rewordFrom new (start + word.length + 1) [] rest
    else rewordFrom new start (c :: word) rest

/-- A text with a new text in the place of each word, told by the offset at which the word begins and
by the word. -/
def reword (new : Nat → List Char → List Char) (text : List Char) : List Char :=
  rewordFrom new 0 [] text

/-- A text that may stand for a word: it begins like a word, with a number sign only where the word
does, and stays on its line. -/
structure StandsFor (text word : List Char) : Prop where
  begins : ∃ c rest, text = c :: rest ∧ isBlank c = false ∧ (c = '#' ↔ word.head? = some '#')
  oneLine : ∀ c ∈ text, isBreak c = false

/-- Every word is replaced by a text that may stand for it. -/
def Fitting (new : Nat → List Char → List Char) : Prop :=
  ∀ i word, IsWord word → StandsFor (new i word) word

variable {new : Nat → List Char → List Char} {word text line : List Char} {c : Char}

/-- A word may stand for a word if a number sign begins both or neither. -/
theorem standsFor_of_isWord {other : List Char} (h : IsWord other)
    (hhead : other.head? = some '#' ↔ word.head? = some '#') : StandsFor other word := by
  refine ⟨?_, not_isBreak_of_isWord h⟩
  cases other with
  | nil => exact absurd rfl h.1
  | cons c rest =>
    refine ⟨c, rest, rfl, h.2 c List.mem_cons_self, ?_⟩
    rw [← hhead, List.head?_cons, Option.some.injEq]

theorem Fitting.shift (h : Fitting new) (k : Nat) : Fitting fun i => new (k + i) :=
  fun i word hword => h (k + i) word hword

theorem rewordFrom_add (new : Nat → List Char → List Char) (k start : Nat) (begun text : List Char) :
    rewordFrom new (k + start) begun text = rewordFrom (fun i => new (k + i)) start begun text := by
  induction text generalizing start begun with
  | nil => rfl
  | cons c rest ih =>
    have hstart : k + start + begun.length + 1 = k + (start + begun.length + 1) := by omega
    rw [rewordFrom, rewordFrom, hstart, ih, ih]
    rfl

theorem rewordFrom_append_blank (hc : isBlank c = true) (start : Nat) (begun front rest : List Char) :
    rewordFrom new start begun (front ++ c :: rest) =
      rewordFrom new start begun front ++
        c :: rewordFrom new (start + begun.length + front.length + 1) [] rest := by
  induction front generalizing start begun with
  | nil => exact if_pos hc
  | cons d front ih =>
    rw [List.cons_append, rewordFrom, rewordFrom]
    split
    · have hstart : start + begun.length + 1 + ([] : List Char).length + front.length + 1 =
          start + begun.length + (d :: front).length + 1 := by
        rw [List.length_nil, List.length_cons]
        omega
      rw [ih, hstart, List.append_assoc, List.cons_append]
    · have hstart : start + (d :: begun).length + front.length + 1 =
          start + begun.length + (d :: front).length + 1 := by
        rw [List.length_cons, List.length_cons]
        omega
      rw [ih, hstart]

/-- Behind a blank the words are replaced as by themselves, told by where they begin. -/
theorem reword_append (hc : isBlank c = true) (front rest : List Char) :
    reword new (front ++ c :: rest) =
      reword new front ++ c :: reword (fun i => new (front.length + 1 + i)) rest := by
  rw [reword, rewordFrom_append_blank hc, List.length_nil, Nat.zero_add, ← Nat.add_zero (front.length + 1),
    rewordFrom_add]
  rfl

theorem rewordFrom_of_not_blank (h : ∀ c ∈ word, isBlank c = false) (start : Nat) (begun : List Char) :
    rewordFrom new start begun word = newWord new start (word.reverse ++ begun) := by
  induction word generalizing begun with
  | nil => rfl
  | cons c word ih =>
    have hc : isBlank c = false := h c List.mem_cons_self
    rw [rewordFrom, hc, List.reverse_cons, List.append_assoc]
    exact ih (fun d hd => h d (List.mem_cons_of_mem c hd)) (c :: begun)

theorem reword_of_isWord (h : IsWord word) : reword new word = new 0 word := by
  have hne : (word.reverse ++ []).isEmpty = false := by simp [h.1]
  rw [reword, rewordFrom_of_not_blank h.2, newWord, hne, List.append_nil, List.reverse_reverse]
  rfl

/-- Nothing, or what stands for a word. -/
theorem reword_of_not_blank (new : Nat → List Char → List Char) (h : ∀ c ∈ word, isBlank c = false) :
    word = [] ∧ reword new word = [] ∨ IsWord word ∧ reword new word = new 0 word := by
  by_cases hnil : word = []
  · exact .inl ⟨hnil, by rw [hnil]; rfl⟩
  · exact .inr ⟨⟨hnil, h⟩, reword_of_isWord ⟨hnil, h⟩⟩

/-! What fitting words leave as it is. -/

theorem reword_ne_nil (h : Fitting new) (hne : text ≠ []) : reword new text ≠ [] := by
  induction text using wordInduction with
  | last word hword =>
    rw [reword_of_isWord ⟨hne, hword⟩]
    obtain ⟨c, rest, hnew, -⟩ := (h 0 word ⟨hne, hword⟩).begins
    rw [hnew]
    exact List.cons_ne_nil c rest
  | blank word c rest hword hc =>
    rw [reword_append hc]
    simp

/-- A break that begins a text begins the old one. -/
theorem head?_of_reword (h : Fitting new) (hbreak : isBlank c = true)
    (hhead : (reword new text).head? = some c) : text.head? = some c := by
  have hword : ∀ word rest, IsWord word → (new 0 word ++ rest).head? ≠ some c := by
    intro word rest hword heq
    obtain ⟨d, more, hnew, hd, -⟩ := (h 0 word hword).begins
    rw [hnew, List.cons_append, List.head?_cons, Option.some.injEq] at heq
    rw [heq, hbreak] at hd
    cases hd
  induction text using wordInduction with
  | last word hnot =>
    rcases reword_of_not_blank new hnot with ⟨rfl, -⟩ | ⟨hisword, hnew⟩
    · exact hhead
    · have hno := hword word [] hisword
      rw [List.append_nil, ← hnew] at hno
      exact absurd hhead hno
  | blank word d rest hnot hd =>
    rw [reword_append hd] at hhead
    rcases reword_of_not_blank new hnot with ⟨rfl, -⟩ | ⟨hisword, hnew⟩
    · exact hhead
    · rw [hnew] at hhead
      exact absurd hhead (hword word _ hisword)

theorem not_isBreak_reword (h : Fitting new) (hline : ∀ c ∈ line, isBreak c = false) :
    ∀ c ∈ reword new line, isBreak c = false := by
  have hword : ∀ {new word}, Fitting new → (∀ c ∈ word, isBlank c = false) →
      ∀ c ∈ reword new word, isBreak c = false := by
    intro new word h hnot
    rcases reword_of_not_blank new hnot with ⟨-, hnew⟩ | ⟨hisword, hnew⟩
    · rw [hnew]
      exact List.forall_mem_nil _
    · rw [hnew]
      exact (h 0 word hisword).oneLine
  induction line using wordInduction generalizing new with
  | last word hnot => exact hword h hnot
  | blank word c rest hnot hc ih =>
    intro d hd
    rw [reword_append hc] at hd
    rcases List.mem_append.mp hd with hd | hd
    · exact hword h hnot d hd
    · rcases List.mem_cons.mp hd with rfl | hd
      · exact hline d (by simp)
      · exact ih (h.shift _) (fun e he => hline e (by simp [he])) d hd

/-- The first character that is not blank stays a number sign, and no other becomes one. -/
theorem find?_reword (h : Fitting new) (line : List Char) :
    (reword new line).find? (!isBlank ·) = some '#' ↔ line.find? (!isBlank ·) = some '#' := by
  have hword : ∀ {new word}, Fitting new → IsWord word → ∀ rest rest',
      (new 0 word ++ rest).find? (!isBlank ·) = some '#' ↔
        (word ++ rest').find? (!isBlank ·) = some '#' := by
    intro new word h hisword rest rest'
    obtain ⟨c, more, hnew, hc, hsign⟩ := (h 0 word hisword).begins
    cases word with
    | nil => exact absurd rfl hisword.1
    | cons d word =>
      have hd : isBlank d = false := hisword.2 d List.mem_cons_self
      rw [hnew, List.cons_append, List.cons_append, List.find?_cons_of_pos (by simp [hc]),
        List.find?_cons_of_pos (by simp [hd]), Option.some.injEq, hsign, List.head?_cons]
  induction line using wordInduction generalizing new with
  | last word hnot =>
    rcases reword_of_not_blank new hnot with ⟨rfl, -⟩ | ⟨hisword, hnew⟩
    · exact Iff.rfl
    · have hboth := hword h hisword [] []
      rwa [List.append_nil, List.append_nil, ← hnew] at hboth
  | blank word c rest hnot hc ih =>
    rw [reword_append hc]
    rcases reword_of_not_blank new hnot with ⟨rfl, hnew⟩ | ⟨hisword, hnew⟩
    · have hskip : ∀ text : List Char, (c :: text).find? (!isBlank ·) = text.find? (!isBlank ·) :=
        fun text => List.find?_cons_of_neg (by simp [hc])
      rw [hnew, List.nil_append, List.nil_append, hskip, hskip]
      exact ih (h.shift _)
    · rw [hnew]
      exact hword h hisword _ _

/-- A comment stays one, and nothing else becomes one. -/
theorem isComment_reword (h : Fitting new) (line : List Char) :
    Token.isComment (words (reword new line)) = Token.isComment (words line) := by
  rw [Token.isComment_words, Token.isComment_words, Bool.eq_iff_iff, beq_iff_eq, beq_iff_eq]
  exact find?_reword h line

/-- Words that become the words of texts which may replace them. -/
inductive Reworded (may : List Char → List Char → Prop) : List (List Char) → List (List Char) → Prop
  | nil : Reworded may [] []
  | cons {word text : List Char} {rest rest' : List (List Char)} : may word text →
      Reworded may rest rest' → Reworded may (word :: rest) (words text ++ rest')

variable {may : List Char → List Char → Prop}

theorem reworded_words (h : ∀ i word, IsWord word → may word (new i word)) (text : List Char) :
    Reworded may (words text) (words (reword new text)) := by
  induction text using wordInduction generalizing new with
  | last word hnot =>
    rcases reword_of_not_blank new hnot with ⟨rfl, -⟩ | ⟨hisword, hnew⟩
    · exact .nil
    · rw [hnew, words_of_isWord hisword, ← List.append_nil (words (new 0 word))]
      exact .cons (h 0 word hisword) .nil
  | blank word c rest hnot hc ih =>
    have hrest := ih fun i other hother => h (word.length + 1 + i) other hother
    rw [reword_append hc, words_append hc, words_append hc]
    rcases reword_of_not_blank new hnot with ⟨rfl, -⟩ | ⟨hisword, hnew⟩
    · exact hrest
    · rw [hnew, words_of_isWord hisword]
      exact .cons (h 0 word hisword) hrest

/-- A break stays one break. -/
theorem IsLineEnd.reword {rest brk : List Char} (hbrk : IsLineEnd rest brk) (h : Fitting new) :
    IsLineEnd (reword new rest) brk := by
  cases hbrk with
  | pair => exact .pair
  | single hc hpair =>
    refine .single hc fun more hcr hfeed => ?_
    have hhead := head?_of_reword (c := '\n') h (by decide) (by rw [hfeed]; rfl)
    obtain ⟨more, hrest⟩ := List.head?_eq_some_iff.mp hhead
    exact hpair more hcr hrest

/-- Behind the end of a line the words are replaced as by themselves. -/
theorem exists_reword_append_end {rest brk : List Char} (hbrk : IsLineEnd rest brk)
    (new : Nat → List Char → List Char) (line : List Char) :
    ∃ k, reword new (line ++ (brk ++ rest)) =
      reword new line ++ (brk ++ reword (fun i => new (k + i)) rest) := by
  cases hbrk with
  | single hc =>
    exact ⟨line.length + 1, reword_append (isBlank_of_isBreak hc) line rest⟩
  | pair =>
    refine ⟨line.length + 1 + 1, ?_⟩
    have hfeed := @reword_append (fun i => new (line.length + 1 + i)) '\n' (by decide) [] rest
    simp only [List.length_nil, Nat.zero_add, ← Nat.add_assoc] at hfeed
    have hreturn := @reword_append new '\r' (by decide) line ('\n' :: rest)
    rw [List.nil_append] at hfeed
    rw [hfeed] at hreturn
    exact hreturn

end Turtle.Text

namespace Turtle.Token
open Text

/-- Tokens that become the words of texts which may replace them, each on the line of its token. -/
inductive Reworded (may : List Char → List Char → Prop) : List Token → List Token → Prop
  | nil : Reworded may [] []
  | cons {t : Token} {text : List Char} {found rest rest' : List Token} : may t.text.toList text →
      found.map place = (words text).map (fun word => (String.ofList word, t.lineNumber)) →
      Reworded may rest rest' → Reworded may (t :: rest) (found ++ rest')

variable {may : List Char → List Char → Prop} {new : Nat → List Char → List Char}

theorem Reworded.append {first first' second second' : List Token} (h : Reworded may first first')
    (hmore : Reworded may second second') : Reworded may (first ++ second) (first' ++ second') := by
  induction h with
  | nil => exact hmore
  | cons htext hfound _ ih =>
    rw [List.cons_append, List.append_assoc]
    exact .cons htext hfound ih

/-- The tokens of words on one line are replaced like the words. -/
theorem reworded_map {found found' : List (List Char)} (h : Text.Reworded may found found')
    (n : Int) (line line' : String) :
    Reworded may (found.map fun word => ⟨String.ofList word, n, line⟩)
      (found'.map fun word => ⟨String.ofList word, n, line'⟩) := by
  induction h with
  | nil => exact .nil
  | @cons word text rest rest' htext _ ih =>
    rw [List.map_cons, List.map_append]
    refine .cons (by rwa [String.toList_ofList]) ?_ ih
    rw [List.map_map]
    rfl

theorem reworded_ofLine (hfit : Fitting new) (hmay : ∀ i word, IsWord word → may word (new i word))
    (n : Int) (line : List Char) : Reworded may (ofLine n line) (ofLine n (reword new line)) := by
  rw [ofLine_eq, ofLine_eq]
  refine reworded_map ?_ n _ _
  rw [shownWords, shownWords, isComment_reword hfit]
  split
  · exact .nil
  · exact reworded_words hmay line

theorem reworded_ofLines (hfit : Fitting new) (hmay : ∀ i word, IsWord word → may word (new i word))
    (n : Int) (text : List Char) :
    Reworded may (ofLines n (lines text)) (ofLines n (lines (reword new text))) := by
  induction text using lineInduction generalizing new n with
  | last line h =>
    by_cases hnil : line = []
    · rw [hnil]
      exact .nil
    · rw [lines_of_no_break h hnil, lines_of_no_break (not_isBreak_reword hfit h) (reword_ne_nil hfit hnil)]
      exact (reworded_ofLine hfit hmay n line).append .nil
  | more line brk rest h hbrk ih =>
    obtain ⟨k, htext⟩ := exists_reword_append_end hbrk new line
    have hbrk' := hbrk.reword (hfit.shift k)
    rw [htext, hbrk.lines_append h, hbrk'.lines_append (not_isBreak_reword hfit h)]
    exact (reworded_ofLine hfit hmay n line).append
      (ih (hfit.shift k) (fun i word hword => hmay (k + i) word hword) (n + 1))

/-- **Words are replaced where they stand.** The tokens of a text in which fitting words stand are the
words of what replaces the old ones, on the same lines; and a comment has no tokens as before. -/
theorem reworded_ofText (hfit : Fitting new) (hmay : ∀ i word, IsWord word → may word (new i word))
    (n : Int) (source : String) :
    Reworded may (ofText n source) (ofText n (String.ofList (reword new source.toList))) := by
  rw [ofText, ofText, String.toList_ofList]
  exact reworded_ofLines hfit hmay n source.toList

end Turtle.Token
