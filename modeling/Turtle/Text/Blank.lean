/-! Blank characters and the words they separate. A word is a maximal run of
characters that are not blank, so no word is empty, and what stands between two
words never matters beyond keeping them apart. -/

namespace Turtle.Text

/-- The characters that separate words: the Unicode spaces, the controls that
move to another column or line, and the four information separators. -/
def isBlank (c : Char) : Bool :=
  let n := c.toNat
  (9 ≤ n && n ≤ 13) || (28 ≤ n && n ≤ 32) || n == 0x85 || n == 0xA0 || n == 0x1680 ||
    (0x2000 ≤ n && n ≤ 0x200A) || n == 0x2028 || n == 0x2029 || n == 0x202F ||
    n == 0x205F || n == 0x3000

/-- Ends the word whose characters were collected newest first; an empty word is
dropped. -/
def endWord (word : List Char) (more : List (List Char)) : List (List Char) :=
  if word.isEmpty then more else word.reverse :: more

def wordsFrom (word : List Char) : List Char → List (List Char)
  | [] => endWord word []
  | c :: rest =>
    if isBlank c then endWord word (wordsFrom [] rest) else wordsFrom (c :: word) rest

/-- The words of a text, in order. -/
def words (text : List Char) : List (List Char) := wordsFrom [] text

/-- A text without the characters of a class at its two ends. -/
def trim (drop : Char → Bool) (text : List Char) : List Char :=
  ((text.dropWhile drop).reverse.dropWhile drop).reverse

@[simp] theorem words_nil : words [] = [] := rfl

theorem ne_nil_of_mem_wordsFrom {word text w : List Char} (h : w ∈ wordsFrom word text) :
    w ≠ [] := by
  induction text generalizing word with
  | nil =>
    simp only [wordsFrom, endWord] at h
    split at h <;> simp_all
  | cons c rest ih =>
    simp only [wordsFrom] at h
    split at h
    · simp only [endWord] at h
      split at h
      · exact ih h
      · rename_i hw
        rcases List.mem_cons.mp h with rfl | hm
        · simpa using hw
        · exact ih hm
    · exact ih h

theorem ne_nil_of_mem_words {text w : List Char} (h : w ∈ words text) : w ≠ [] :=
  ne_nil_of_mem_wordsFrom h

theorem not_blank_of_mem_wordsFrom {word text w : List Char}
    (hword : ∀ c ∈ word, isBlank c = false) (h : w ∈ wordsFrom word text) :
    ∀ c ∈ w, isBlank c = false := by
  induction text generalizing word with
  | nil =>
    simp only [wordsFrom, endWord] at h
    split at h
    · simp at h
    · rcases List.mem_singleton.mp h with rfl
      simpa using hword
  | cons d rest ih =>
    simp only [wordsFrom] at h
    split at h
    · simp only [endWord] at h
      split at h
      · exact ih (by simp) h
      · rcases List.mem_cons.mp h with rfl | hm
        · simpa using hword
        · exact ih (by simp) hm
    · rename_i hd
      exact ih (by simpa using ⟨by simpa using hd, hword⟩) h

/-- No word holds a blank. -/
theorem not_blank_of_mem_words {text w : List Char} (h : w ∈ words text) :
    ∀ c ∈ w, isBlank c = false :=
  not_blank_of_mem_wordsFrom (by simp) h

end Turtle.Text
