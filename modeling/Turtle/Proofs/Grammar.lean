import Turtle.Binary64.Decimal
import Turtle.Proofs.Numeral
import Turtle.Proofs.Tree
import Turtle.Token

/-! The grammar of programs, as relations on tokens. Nothing here reads a tape: a relation
says which tokens derive which command at which depth. All arguments of a command and the
bracket of a block stand on the line of the command's word; what is inside a block and
the end of it may stand on any line. Outside of blocks each command begins on a new line. -/

namespace Turtle.Grammar
open Turtle.Number

/-- The words of a keyword, the long one first. -/
def spellings : Keyword → List String
  | .forward => ["FORWARD", "F"]
  | .turn .left => ["LEFT", "L"]
  | .turn .right => ["RIGHT", "R"]
  | .pen false => ["PENUP", "U"]
  | .pen true => ["PENDOWN", "D"]
  | .size => ["SETSIZE", "S"]
  | .color => ["SETCOLOR", "C"]
  | .block => ["REPEAT"]
  | .blockEnd => ["]"]

def Spells (word : Token) (keyword : Keyword) : Prop := word.text ∈ spellings keyword

/-- Whether a word stands on the line of a command. -/
def OnLine (opener word : Token) : Prop := word.lineNumber = opener.lineNumber

/-- A word of digits whose value is within a limit. -/
def Natural (limit : Nat) (word : Token) (n : Nat) : Prop :=
  isDigits word.text.toList = true ∧ digitsValue word.text.toList = n ∧ n ≤ limit

/-- A decimal numeral for a finite width that is not below zero. -/
def Width (word : Token) (width : Binary64) : Prop :=
  ∃ d, Decimal.Writes word.text.toList d ∧ Binary64.ofDecimal d = width ∧
    width.isFinite = true ∧ width.isNegative = false

/-- The value of a digit of base sixteen. -/
def HexDigit (c : Char) (n : Nat) : Prop := Color.hexValue? c = some n

/-- The colour of a marked word: one digit for all six, three that are doubled, or six. -/
inductive HexColor : List Char → Color → Prop
  | one {d : Char} {n : Nat} : HexDigit d n →
      HexColor ['0', 'x', d] ⟨16 * n + n, 16 * n + n, 16 * n + n⟩
  | three {d e f : Char} {r g b : Nat} : HexDigit d r → HexDigit e g → HexDigit f b →
      HexColor ['0', 'x', d, e, f] ⟨16 * r + r, 16 * g + g, 16 * b + b⟩
  | six {d e f d' e' f' : Char} {r g b r' g' b' : Nat} : HexDigit d r → HexDigit d' r' →
      HexDigit e g → HexDigit e' g' → HexDigit f b → HexDigit f' b' →
      HexColor ['0', 'x', d, d', e, e', f, f'] ⟨16 * r + r', 16 * g + g', 16 * b + b'⟩

mutual

/-- The tokens of a command with so many blocks around it. -/
inductive Derives : Nat → List Token → Command → Prop
  | forward {depth n : Nat} {word distance : Token} : Spells word .forward →
      OnLine word distance → Natural largestNatural distance n →
      Derives depth [word, distance] (.forward n)
  | turn {depth : Nat} {word : Token} {side : Turn} : Spells word (.turn side) →
      Derives depth [word] (.turn side)
  | pen {depth : Nat} {word : Token} {down : Bool} : Spells word (.pen down) →
      Derives depth [word] (.pen down)
  | size {depth : Nat} {word numeral : Token} {width : Binary64} : Spells word .size →
      OnLine word numeral → Width numeral width → Derives depth [word, numeral] (.setSize width)
  | hexColor {depth : Nat} {word digits : Token} {color : Color} : Spells word .color →
      OnLine word digits → HexColor digits.text.toList color →
      Derives depth [word, digits] (.setColor color)
  | byteColor {depth r g b : Nat} {word red green blue : Token} : Spells word .color →
      OnLine word red → Natural largestChannel red r →
      OnLine word green → Natural largestChannel green g →
      OnLine word blue → Natural largestChannel blue b →
      Derives depth [word, red, green, blue] (.setColor ⟨r, g, b⟩)
  | block {depth n : Nat} {word count bracket close : Token} {inside : List Token}
      {body : List Command} : depth < deepestBlock → Spells word .block →
      OnLine word count → Natural largestNatural count n →
      OnLine word bracket → bracket.text = "[" →
      DerivesAll (depth + 1) inside body → Spells close .blockEnd →
      Derives depth (word :: count :: bracket :: (inside ++ [close])) (.block n body)

/-- The tokens of several commands at one depth, one after another. -/
inductive DerivesAll : Nat → List Token → List Command → Prop
  | nil {depth : Nat} : DerivesAll depth [] []
  | cons {depth : Nat} {first rest : List Token} {command : Command} {more : List Command} :
      Derives depth first command → DerivesAll depth rest more →
      DerivesAll depth (first ++ rest) (command :: more)

end

/-- The tokens of a program: each command begins on another line than the one on which the
command before it ends. -/
inductive DerivesProgram : List Token → List Command → Prop
  | nil : DerivesProgram [] []
  | cons {first rest : List Token} {command : Command} {more : List Command} :
      Derives 0 first command →
      (∀ last ∈ first.getLast?, ∀ next ∈ rest.head?, next.lineNumber ≠ last.lineNumber) →
      DerivesProgram rest more → DerivesProgram (first ++ rest) (command :: more)

theorem spells_of_mem : ∀ entry ∈ Keyword.commandWords, entry.1 ∈ spellings entry.2 := by
  decide

/-- The look-up of a word finds the keyword that the word spells. -/
theorem ofWord?_eq_some_iff {word : String} {keyword : Keyword} :
    Keyword.ofWord? word = some keyword ↔ word ∈ spellings keyword := by
  constructor
  · intro h
    unfold Keyword.ofWord? at h
    split at h
    · rename_i hw
      obtain rfl := Option.some.inj h
      simp [hw, spellings]
    · obtain ⟨before, after, hl, -⟩ := List.lookup_eq_some_iff.mp h
      exact spells_of_mem (word, keyword) (by rw [hl]; simp)
  · intro h
    rcases keyword with _ | ⟨_ | _⟩ | ⟨_ | _⟩ | _ | _ | _ | _ <;>
      simp only [spellings, List.mem_cons, List.not_mem_nil, or_false] at h
    case blockEnd | block => subst h; decide
    all_goals rcases h with rfl | rfl <;> decide

theorem spells_unique {word : Token} {a b : Keyword} (ha : Spells word a) (hb : Spells word b) :
    a = b :=
  Option.some.inj ((ofWord?_eq_some_iff.mpr ha).symm.trans (ofWord?_eq_some_iff.mpr hb))

theorem spells_word {word : Token} {k : Keyword} (h : word.text = k.word) : Spells word k := by
  have hword := ofWord?_eq_some_iff.mp (Keyword.ofWord?_word k)
  rwa [← h] at hword

/-- A command begins with a word for its keyword, and is no end of a block. -/
theorem Derives.spells {depth : Nat} {tokens : List Token} {command : Command}
    (h : Derives depth tokens command) :
    ∃ word rest, tokens = word :: rest ∧ Spells word command.keyword ∧
      command.keyword ≠ .blockEnd := by
  cases h <;> exact ⟨_, _, rfl, by assumption, by simp [Command.keyword]⟩

/-- Every command has a token at least. -/
theorem Derives.ne_nil {depth : Nat} {tokens : List Token} {command : Command}
    (h : Derives depth tokens command) : tokens ≠ [] := by
  obtain ⟨word, rest, rfl, -⟩ := h.spells
  simp

theorem exists_of_isMarked {text : List Char} (h : Color.isMarked text = true) :
    ∃ digits, text = '0' :: 'x' :: digits := by
  unfold Color.isMarked at h
  split at h
  · exact ⟨_, rfl⟩
  · cases h

/-- A colour is read exactly off the marked words that write it. -/
theorem ofHex?_eq_ok_iff {text : List Char} {color : Color} :
    Color.ofHex? text = .ok color ↔ HexColor text color := by
  constructor
  · intro h
    unfold Color.ofHex? Color.hexDigits? at h
    split at h
    · rename_i hm
      obtain ⟨digits, rfl⟩ := exists_of_isMarked hm
      simp only [List.drop_succ_cons, List.drop_zero] at h
      split at h
      · cases h
      · rename_i hlen
        split at h
        · rename_i hall
          -- the length leaves three shapes of digits, and each digit has a value
          have hall := List.all_eq_true.mp hall
          obtain rfl := Except.ok.inj h
          rcases digits with _ | ⟨d, _ | ⟨e, _ | ⟨f, _ | ⟨d', _ | ⟨e', _ | ⟨f', _ | ⟨_, _⟩⟩⟩⟩⟩⟩⟩ <;>
            simp [Option.isSome_iff_exists] at hlen hall
          · obtain ⟨n, hn⟩ := hall
            simpa [Color.sixDigits, Color.ofSixDigits, Color.hexValue, hn] using HexColor.one hn
          · obtain ⟨⟨r, hr⟩, ⟨g, hg⟩, b, hb⟩ := hall
            simpa [Color.sixDigits, Color.ofSixDigits, Color.hexValue, hr, hg, hb] using
              HexColor.three hr hg hb
          · obtain ⟨⟨r, hr⟩, ⟨r', hr'⟩, ⟨g, hg⟩, ⟨g', hg'⟩, ⟨b, hb⟩, b', hb'⟩ := hall
            simpa [Color.sixDigits, Color.ofSixDigits, Color.hexValue, hr, hg, hb, hr', hg', hb']
              using HexColor.six hr hr' hg hg' hb hb'
        · cases h
    · cases h
  · intro h
    cases h <;>
      simp_all [HexDigit, Color.ofHex?, Color.hexDigits?, Color.isMarked, Color.sixDigits,
        Color.ofSixDigits, Color.hexValue, Except.map]

/-- The word of a colour in base sixteen is marked, and no word of digits is. -/
theorem HexColor.marked {text : List Char} {color : Color} (h : HexColor text color) :
    Color.isMarked text = true := by
  cases h <;> rfl

theorem not_marked_of_isDigits {text : List Char} (h : isDigits text = true) :
    Color.isMarked text = false := by
  cases hm : Color.isMarked text with
  | false => rfl
  | true =>
    obtain ⟨digits, rfl⟩ := exists_of_isMarked hm
    exact absurd ((isDigits_iff.mp h).2 'x' (by simp)) (by decide)

end Turtle.Grammar
