import Turtle.Proofs.CanonicalText
import Turtle.Proofs.Grammar

/-! Balanced brackets. What the grammar derives has as many brackets that close as brackets
that open. In the canonical words of a program the brackets of its blocks are balanced too, so
what closes in excess are the ends that belong to no block. No other word weighs in: an
argument is never a bracket, on either side. -/

namespace Turtle.Grammar
open Turtle.Number Command

/-- How much a word closes. -/
def weight (word : String) : Int :=
  if word = "]" then 1 else if word = "[" then -1 else 0

/-- How many more brackets close than open. -/
def excess : List String → Int
  | [] => 0
  | word :: rest => weight word + excess rest

@[simp] theorem excess_nil : excess [] = 0 := rfl

@[simp] theorem excess_cons (word : String) (rest : List String) :
    excess (word :: rest) = weight word + excess rest := rfl

@[simp] theorem excess_append (a b : List String) : excess (a ++ b) = excess a + excess b := by
  induction a with
  | nil => rw [List.nil_append, excess_nil, Int.zero_add]
  | cons word rest ih => rw [List.cons_append, excess_cons, excess_cons, ih, Int.add_assoc]

/-- A word of a kind that has neither bracket weighs nothing. -/
theorem weight_eq_zero {word : String} (kind : List Char → Prop) (h : kind word.toList)
    (hclose : ¬ kind [']']) (hopen : ¬ kind ['[']) : weight word = 0 := by
  have hc : word ≠ "]" := by
    intro heq
    rw [heq] at h
    exact hclose h
  have ho : word ≠ "[" := by
    intro heq
    rw [heq] at h
    exact hopen h
  rw [weight, if_neg hc, if_neg ho]

theorem weight_of_mem_spellings {k : Keyword} (hk : k ≠ .blockEnd) :
    ∀ word ∈ spellings k, weight word = 0 := by
  revert hk
  rcases k with _ | ⟨_ | _⟩ | ⟨_ | _⟩ | _ | _ | _ | _ <;> decide

theorem weight_of_spells {word : Token} {k : Keyword} (h : Spells word k)
    (hk : k ≠ .blockEnd) : weight word.text = 0 :=
  weight_of_mem_spellings hk word.text h

theorem weight_of_keyword {k : Keyword} (hk : k ≠ .blockEnd) : weight k.word = 0 :=
  weight_of_mem_spellings hk k.word (ofWord?_eq_some_iff.mp (Keyword.ofWord?_word k))

theorem weight_of_isDigits {word : String} (h : isDigits word.toList = true) : weight word = 0 :=
  weight_eq_zero (fun text => isDigits text = true) h (by decide) (by decide)

theorem weight_of_writes {word : String} {d : Decimal} (h : Decimal.Writes word.toList d) :
    weight word = 0 := by
  have hread := Decimal.read?_eq_some_iff.mpr h
  refine weight_eq_zero (fun text => Decimal.read? text = some d) hread ?_ ?_
  · intro hclose
    cases hclose
  · intro hopen
    cases hopen

theorem weight_of_hexColor {word : String} {color : Color} (h : HexColor word.toList color) :
    weight word = 0 :=
  weight_eq_zero (fun text => Color.isMarked text = true) h.marked (by decide) (by decide)

def texts (tokens : List Token) : List String := tokens.map Token.text

@[simp] theorem texts_nil : texts [] = [] := rfl

@[simp] theorem texts_cons (token : Token) (rest : List Token) :
    texts (token :: rest) = token.text :: texts rest := rfl

@[simp] theorem texts_append (a b : List Token) : texts (a ++ b) = texts a ++ texts b :=
  List.map_append

/-- The brackets of a command without a body are balanced: there are none. -/
theorem excess_of_derives {depth : Nat} {tokens : List Token} {command : Command}
    (h : Derives depth tokens command) (hb : command.isBlock = false) :
    excess (texts tokens) = 0 := by
  cases h with
  | forward hs _ hn => simp [weight_of_spells hs, weight_of_isDigits hn.1]
  | turn hs | pen hs => simp [weight_of_spells hs]
  | size hs _ hw =>
    obtain ⟨d, hwrites, -⟩ := hw
    simp [weight_of_spells hs, weight_of_writes hwrites]
  | hexColor hs _ hx => simp [weight_of_spells hs, weight_of_hexColor hx]
  | byteColor hs _ hr _ hg _ hbl =>
    simp [weight_of_spells hs, weight_of_isDigits hr.1, weight_of_isDigits hg.1,
      weight_of_isDigits hbl.1]
  | block => cases hb

/-- The brackets of what the grammar derives are balanced. -/
theorem excess_of_derivesAll (program : List Command) : ∀ depth tokens,
    DerivesAll depth tokens program → excess (texts tokens) = 0 := by
  induction program using programInduction with
  | nil =>
    intro depth tokens h
    cases h
    rfl
  | single command rest hb ih =>
    intro depth tokens h
    cases h with
    | cons hfirst hrest =>
      rw [texts_append, excess_append, excess_of_derives hfirst hb, ih _ _ hrest, Int.add_zero]
  | block count body rest ihBody ih =>
    intro depth tokens h
    cases h with
    | cons hfirst hrest =>
      rw [texts_append, excess_append, ih _ _ hrest]
      cases hfirst with
      | block _ hs _ hn _ hbracket hall hclose =>
        have hopen : weight "[" = -1 := by decide
        have hend : ∀ w ∈ spellings .blockEnd, weight w = 1 := by decide
        simp [weight_of_spells hs, weight_of_isDigits hn.1, hbracket, hopen, ihBody _ _ hall,
          hend _ hclose]

theorem weight_of_toString (i : Int) : weight (toString i) = 0 := by
  have hchars : ((toString i).toList.all fun c => c == '-' || c.isDigit) = true := by
    rw [List.all_eq_true, toList_toString_int]
    intro c hc
    rcases List.mem_append.mp hc with hc | hc
    · split at hc
      · rw [List.mem_singleton.mp hc]
        rfl
      · cases hc
    · rw [Decimal.isDigit_of_mem (isDigits_toDigits _) c hc, Bool.or_true]
  exact weight_eq_zero (fun text => (text.all fun c => c == '-' || c.isDigit) = true) hchars
    (by decide) (by decide)

theorem weight_of_text (x : Binary64) : weight x.text = 0 := by
  cases hx : x.isFinite with
  | true =>
    obtain ⟨d, hwrites, -⟩ := Binary64.writes_chars hx
    refine weight_of_writes (d := d) ?_
    rwa [Binary64.text, String.toList_ofList]
  | false =>
    exact Binary64.chars_of_not_finite (fun text => weight (String.ofList text) = 0) hx
      (by decide) (by decide) (by decide)

theorem excess_of_words {command : Command} (hb : command.isBlock = false)
    (hend : command ≠ .blockEnd) : excess command.words = 0 := by
  cases command with
  | block => cases hb
  | blockEnd => exact absurd rfl hend
  | turn | pen =>
    simp only [words, excess_cons, excess_nil]
    rw [weight_of_keyword (by simp)]
    rfl
  | forward | setSize | setColor =>
    simp only [words, excess_cons, excess_nil, weight_of_toString, weight_of_text]
    rw [weight_of_keyword (by simp)]
    rfl

/-- The brackets that a program leaves unbalanced are the ends that belong to no block. -/
theorem excess_of_wordsAll (program : List Command) :
    excess (wordsAll program) = (partsAll program).count .blockEnd := by
  have hclose : weight "]" = 1 := by decide
  have hopen : weight "[" = -1 := by decide
  have hword : weight Keyword.block.word = 0 := by decide
  induction program using programInduction with
  | nil => rfl
  | single command rest hb ih =>
    rw [wordsAll, excess_append, ih, partsAll_cons, parts_of_not_block hb, List.singleton_append]
    by_cases hend : command = .blockEnd
    · subst hend
      have hwords : excess (words .blockEnd) = 1 := by
        rw [words]
        decide
      rw [hwords, List.count_cons_self]
      omega
    · rw [excess_of_words hb hend, List.count_cons_of_ne hend, Int.zero_add]
  | block count body rest ihBody ih =>
    have hne : Command.block count body ≠ .blockEnd := by simp
    rw [wordsAll, excess_append, ih, partsAll_cons, parts_block, List.cons_append,
      List.count_cons_of_ne hne, List.count_append, words]
    simp only [excess_cons, excess_append, excess_nil, weight_of_toString, ihBody, hword, hopen,
      hclose]
    omega

end Turtle.Grammar
