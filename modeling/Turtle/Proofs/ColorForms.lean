import Turtle.Proofs.HexColors
import Turtle.Proofs.Rewording
import Turtle.Proofs.RoundTrip

/-! The two forms of a colour in a program. The word of a colour in base sixteen is no keyword, number or
bracket, so in a program it stands only behind the word of a colour command. There three amounts may
stand in its place: the command takes two tokens more, on the same line, and the commands around it
are derived from the tokens that they had. -/

namespace Turtle.Grammar
open Number

theorem HexColor.unique {text : List Char} {a b : Color} (ha : HexColor text a) (hb : HexColor text b) :
    a = b :=
  Except.ok.inj ((ofHex?_eq_ok_iff.mpr ha).symm.trans (ofHex?_eq_ok_iff.mpr hb))

/-- The amounts of a colour in base sixteen are naturals. -/
theorem HexColor.exists_amounts {text : List Char} {color : Color} (h : HexColor text color) :
    ∃ r g b : Nat, color = ⟨r, g, b⟩ := by
  obtain ⟨⟨hr, -⟩, ⟨hg, -⟩, hb, -⟩ := h.isBytes
  obtain ⟨red, green, blue⟩ := color
  obtain ⟨r, rfl⟩ := Int.eq_ofNat_of_zero_le hr
  obtain ⟨g, rfl⟩ := Int.eq_ofNat_of_zero_le hg
  obtain ⟨b, rfl⟩ := Int.eq_ofNat_of_zero_le hb
  exact ⟨r, g, b, rfl⟩

/-! No other word of a command is marked. -/

variable {word : Token}

theorem not_marked_of_spells {k : Keyword} (h : Spells word k) :
    Color.isMarked word.text.toList = false := by
  have hspellings : ∀ w ∈ spellings k, Color.isMarked w.toList = false := by
    rcases k with _ | ⟨_ | _⟩ | ⟨_ | _⟩ | _ | _ | _ | _ <;> decide
  exact hspellings _ h

theorem Natural.not_marked {limit n : Nat} (h : Natural limit word n) :
    Color.isMarked word.text.toList = false :=
  not_marked_of_isDigits h.1

theorem Width.not_marked {width : Binary64} (h : Width word width) :
    Color.isMarked word.text.toList = false := by
  obtain ⟨d, hwrites, -⟩ := h
  cases hm : Color.isMarked word.text.toList with
  | false => rfl
  | true =>
    obtain ⟨digits, htext⟩ := exists_of_isMarked hm
    rw [htext, ← Decimal.read?_eq_some_iff] at hwrites
    have hnone : Decimal.read? ('0' :: 'x' :: digits) = none := rfl
    rw [hnone] at hwrites
    cases hwrites

theorem not_marked_bracket (h : word.text = "[") : Color.isMarked word.text.toList = false := by
  rw [h]
  rfl

end Turtle.Grammar

namespace Turtle.Token
open Grammar

/-- Tokens in which three amounts stand for some colours in base sixteen. A token that is kept may
be on another line of text, with the same number. -/
inductive Expanded : List Token → List Token → Prop
  | nil : Expanded [] []
  | kept {t : Token} {rest rest' : List Token} (line : String) : Expanded rest rest' →
      Expanded (t :: rest) ({ t with line } :: rest')
  | split {t red green blue : Token} {r g b : Nat} {rest rest' : List Token} :
      HexColor t.text.toList ⟨r, g, b⟩ →
      OnLine t red → Natural largestChannel red r →
      OnLine t green → Natural largestChannel green g →
      OnLine t blue → Natural largestChannel blue b →
      Expanded rest rest' → Expanded (t :: rest) (red :: green :: blue :: rest')

variable {first rest tokens tokens' : List Token} {t : Token}

theorem Expanded.of_append (h : Expanded (first ++ rest) tokens') :
    ∃ first' rest', tokens' = first' ++ rest' ∧ Expanded first first' ∧ Expanded rest rest' := by
  induction first generalizing tokens' with
  | nil => exact ⟨[], tokens', rfl, .nil, h⟩
  | cons t first ih =>
    cases h with
    | kept line hmore =>
      obtain ⟨first', rest', rfl, hfirst, hrest⟩ := ih hmore
      exact ⟨_ :: first', rest', rfl, .kept line hfirst, hrest⟩
    | split hcolor hlr hr hlg hg hlb hb hmore =>
      obtain ⟨first', rest', rfl, hfirst, hrest⟩ := ih hmore
      exact ⟨_ :: _ :: _ :: first', rest', rfl, .split hcolor hlr hr hlg hg hlb hb hfirst, hrest⟩

/-- A word that is not marked is kept. -/
theorem Expanded.of_cons (h : Expanded (t :: rest) tokens') (hnot : Color.isMarked t.text.toList = false) :
    ∃ line rest', tokens' = { t with line } :: rest' ∧ Expanded rest rest' := by
  cases h with
  | kept line hmore => exact ⟨line, _, rfl, hmore⟩
  | split hcolor =>
    rw [hcolor.marked] at hnot
    cases hnot

theorem Expanded.head? (h : Expanded tokens tokens') :
    tokens'.head?.map lineNumber = tokens.head?.map lineNumber := by
  cases h with
  | nil => rfl
  | kept => rfl
  | split _ hline => exact congrArg some hline

theorem map_getLast?_cons (t : Token) (rest : List Token) :
    (t :: rest).getLast?.map lineNumber = some ((rest.getLast?.map lineNumber).getD t.lineNumber) := by
  rw [List.getLast?_cons]
  cases rest.getLast? <;> rfl

theorem Expanded.getLast? (h : Expanded tokens tokens') :
    tokens'.getLast?.map lineNumber = tokens.getLast?.map lineNumber := by
  induction h with
  | nil => rfl
  | kept line _ ih => rw [map_getLast?_cons, map_getLast?_cons, ih]
  | split _ _ _ _ _ hline _ _ ih =>
    simp only [map_getLast?_cons, ih, Option.getD_some]
    rw [hline]

end Turtle.Token

namespace Turtle.Grammar
open Token

/-! By recursion on the derivation: every word but that of a colour is kept, so only one rule gives way to
another, and the tokens inside of a block go to its body. -/

mutual

/-- A command is derived with three amounts for its colour in base sixteen. -/
theorem Derives.expanded {depth : Nat} {tokens tokens' : List Token} {command : Command}
    (h : Derives depth tokens command) (hexp : Expanded tokens tokens') :
    Derives depth tokens' command := by
  match h with
  | .forward hs hl hn =>
    obtain ⟨_, _, rfl, harguments⟩ := hexp.of_cons (not_marked_of_spells hs)
    obtain ⟨_, _, rfl, hnone⟩ := harguments.of_cons hn.not_marked
    cases hnone
    exact .forward hs hl hn
  | .turn hs =>
    obtain ⟨_, _, rfl, hnone⟩ := hexp.of_cons (not_marked_of_spells hs)
    cases hnone
    exact .turn hs
  | .pen hs =>
    obtain ⟨_, _, rfl, hnone⟩ := hexp.of_cons (not_marked_of_spells hs)
    cases hnone
    exact .pen hs
  | .size hs hl hw =>
    obtain ⟨_, _, rfl, harguments⟩ := hexp.of_cons (not_marked_of_spells hs)
    obtain ⟨_, _, rfl, hnone⟩ := harguments.of_cons hw.not_marked
    cases hnone
    exact .size hs hl hw
  | .hexColor hs hl hc =>
    obtain ⟨_, _, rfl, harguments⟩ := hexp.of_cons (not_marked_of_spells hs)
    cases harguments with
    | kept line hnone =>
      cases hnone
      exact .hexColor hs hl hc
    | split hc' hlr hr hlg hg hlb hb hnone =>
      cases hnone
      rw [hc.unique hc']
      exact .byteColor hs (hlr.trans hl) hr (hlg.trans hl) hg (hlb.trans hl) hb
  | .byteColor hs hlr hr hlg hg hlb hb =>
    obtain ⟨_, _, rfl, harguments⟩ := hexp.of_cons (not_marked_of_spells hs)
    obtain ⟨_, _, rfl, hgreen⟩ := harguments.of_cons hr.not_marked
    obtain ⟨_, _, rfl, hblue⟩ := hgreen.of_cons hg.not_marked
    obtain ⟨_, _, rfl, hnone⟩ := hblue.of_cons hb.not_marked
    cases hnone
    exact .byteColor hs hlr hr hlg hg hlb hb
  | .block hdeep hs hlc hn hlb hbracket hbody hclose =>
    obtain ⟨_, _, rfl, harguments⟩ := hexp.of_cons (not_marked_of_spells hs)
    obtain ⟨_, _, rfl, hopen⟩ := harguments.of_cons hn.not_marked
    obtain ⟨_, _, rfl, hrest⟩ := hopen.of_cons (not_marked_bracket hbracket)
    obtain ⟨_, _, rfl, hinside, hend⟩ := hrest.of_append
    obtain ⟨_, _, rfl, hnone⟩ := hend.of_cons (not_marked_of_spells hclose)
    cases hnone
    exact .block hdeep hs hlc hn hlb hbracket (hbody.expanded hinside) hclose

theorem DerivesAll.expanded {depth : Nat} {tokens tokens' : List Token} {commands : List Command}
    (h : DerivesAll depth tokens commands) (hexp : Expanded tokens tokens') :
    DerivesAll depth tokens' commands := by
  match h with
  | .nil =>
    cases hexp
    exact .nil
  | .cons hfirst hmore =>
    obtain ⟨first', rest', rfl, hexpFirst, hexpRest⟩ := hexp.of_append
    exact .cons (hfirst.expanded hexpFirst) (hmore.expanded hexpRest)

end

/-- A program is derived with three amounts for any of its colours in base sixteen. -/
theorem DerivesProgram.expanded {tokens tokens' : List Token} {program : List Command}
    (h : DerivesProgram tokens program) (hexp : Expanded tokens tokens') :
    DerivesProgram tokens' program := by
  induction h generalizing tokens' with
  | nil =>
    cases hexp
    exact .nil
  | @cons first rest _ _ hfirst hends _ ih =>
    obtain ⟨first', rest', rfl, hexpFirst, hexpRest⟩ := hexp.of_append
    refine .cons (hfirst.expanded hexpFirst) (fun last hlast next hnext => ?_) (ih hexpRest)
    have hlast' : first.getLast?.map lineNumber = some last.lineNumber := by
      rw [← hexpFirst.getLast?, hlast]
      rfl
    have hnext' : rest.head?.map lineNumber = some next.lineNumber := by
      rw [← hexpRest.head?, hnext]
      rfl
    obtain ⟨last', hlast', hlastLine⟩ := Option.map_eq_some_iff.mp hlast'
    obtain ⟨next', hnext', hnextLine⟩ := Option.map_eq_some_iff.mp hnext'
    rw [← hlastLine, ← hnextLine]
    exact hends last' hlast' next' hnext'

end Turtle.Grammar

namespace Turtle.Color
open Command Grammar Number Text

/-- The three amounts of a colour, as a program writes them. -/
def amounts (color : Color) : List (List Char) :=
  [color.red, color.green, color.blue].map fun amount => (toString amount).toList

theorem isWord_of_mem_amounts {color : Color} : ∀ word ∈ color.amounts, IsWord word := by
  intro word hword
  obtain ⟨amount, -, rfl⟩ := List.mem_map.mp hword
  exact isWord_toString amount

/-- The amounts of a colour begin with a digit, as its word in base sixteen does. -/
theorem standsFor_amounts {word : List Char} {color : Color} (h : HexColor word color) :
    StandsFor ([' '].intercalate color.amounts) word := by
  refine ⟨?_, fun c hc => ?_⟩
  · obtain ⟨digits, rfl⟩ := exists_of_isMarked h.marked
    obtain ⟨⟨hlow, hhigh⟩, -⟩ := h.isBytes
    have hread := natural?_toString.mpr ⟨(Int.toNat_of_nonneg hlow).symm, hhigh⟩
    obtain ⟨hne, hdigits⟩ := isDigits_iff.mp (natural?_eq_some_iff.mp hread).1
    obtain ⟨c, rest, hred⟩ := List.exists_cons_of_ne_nil hne
    have hc := hdigits c (hred ▸ List.mem_cons_self)
    have htext : [' '].intercalate color.amounts =
        c :: (rest ++ ' ' :: [' '].intercalate color.amounts.tail) := by
      rw [amounts, List.map_cons, hred, List.intercalate_cons_of_ne_nil (by simp), List.append_assoc]
      rfl
    refine ⟨c, _, htext, Binary64.not_blank_of_isDigit hc, fun heq => ?_, nofun⟩
    rw [heq] at hc
    cases hc
  · exact not_isBreak_intercalate isWord_of_mem_amounts c hc

/-- What may stand for a word: the word itself, or the amounts of the colour that it writes. -/
def WritesOut (word text : List Char) : Prop :=
  IsWord word ∧ text = word ∨ ∃ color, HexColor word color ∧ text = [' '].intercalate color.amounts

/-- The words of a text, with amounts for the colours in base sixteen that begin at the chosen
offsets. -/
def someWrittenOut (chosen : Nat → Bool) (i : Nat) (word : List Char) : List Char :=
  match ofHex? word with
  | .ok color => if chosen i then [' '].intercalate color.amounts else word
  | .error _ => word

theorem writesOut_someWrittenOut (chosen : Nat → Bool) (i : Nat) (word : List Char) (hword : IsWord word) :
    WritesOut word (someWrittenOut chosen i word) := by
  unfold someWrittenOut
  split
  · rename_i color hcolor
    split
    · exact .inr ⟨color, ofHex?_eq_ok_iff.mp hcolor, rfl⟩
    · exact .inl ⟨hword, rfl⟩
  · exact .inl ⟨hword, rfl⟩

theorem fitting_someWrittenOut (chosen : Nat → Bool) : Fitting (someWrittenOut chosen) := by
  intro i word hword
  rcases writesOut_someWrittenOut chosen i word hword with ⟨-, htext⟩ | ⟨color, hcolor, htext⟩
  · rw [htext]
    exact standsFor_of_isWord hword Iff.rfl
  · rw [htext]
    exact standsFor_amounts hcolor

/-- Tokens of texts that are written out are expanded. -/
theorem expanded_of_reworded {tokens tokens' : List Token} (h : Token.Reworded WritesOut tokens tokens') :
    Token.Expanded tokens tokens' := by
  induction h with
  | nil => exact .nil
  | @cons t text found rest rest' htext hfound _ ih =>
    rcases htext with ⟨hword, rfl⟩ | ⟨color, hcolor, rfl⟩
    · rw [words_of_isWord hword, List.map_singleton, String.ofList_toList] at hfound
      obtain ⟨⟨text, number, line⟩, rfl, hplace⟩ := List.map_eq_singleton_iff.mp hfound
      obtain ⟨rfl, rfl⟩ := Prod.mk.inj hplace
      exact .kept line ih
    · -- the three amounts are three tokens on the line of the word
      have hbytes := hcolor.isBytes
      obtain ⟨r, g, b, rfl⟩ := hcolor.exists_amounts
      obtain ⟨⟨hr, hr'⟩, ⟨hg, hg'⟩, hb, hb'⟩ := hbytes
      rw [words_intercalate isWord_of_mem_amounts] at hfound
      simp only [amounts, List.map_cons, List.map_nil, String.ofList_toList] at hfound
      obtain ⟨red, _, rfl, hred, hfound⟩ := List.map_eq_cons_iff.mp hfound
      obtain ⟨green, _, rfl, hgreen, hfound⟩ := List.map_eq_cons_iff.mp hfound
      obtain ⟨blue, _, rfl, hblue, hfound⟩ := List.map_eq_cons_iff.mp hfound
      obtain rfl := List.map_eq_nil_iff.mp hfound
      obtain ⟨hredText, hredLine⟩ := Prod.mk.inj hred
      obtain ⟨hgreenText, hgreenLine⟩ := Prod.mk.inj hgreen
      obtain ⟨hblueText, hblueLine⟩ := Prod.mk.inj hblue
      exact .split hcolor hredLine (natural_of_text hredText hr hr') hgreenLine
        (natural_of_text hgreenText hg hg') hblueLine (natural_of_text hblueText hb hb') ih

end Turtle.Color

namespace Turtle.Parse
open Color Grammar Text

/-- A text with amounts for the colours in base sixteen that begin at the chosen offsets. What is chosen
in a comment makes no difference. -/
def writtenOutAt (chosen : Nat → Bool) (source : String) : String :=
  String.ofList (reword (someWrittenOut chosen) source.toList)

example : writtenOutAt (fun _ => true) "# 0x0\nREPEAT 2 [ C 0xFa3 L\n]" =
    "# 0 0 0\nREPEAT 2 [ C 255 170 51 L\n]" := by
  decide +kernel

theorem program?_writtenOutAt (chosen : Nat → Bool) {source : String} {program : List Command}
    (h : program? source = .ok program) : program? (writtenOutAt chosen source) = .ok program := by
  have hreworded := Token.reworded_ofText (fitting_someWrittenOut chosen)
    (writesOut_someWrittenOut chosen) 1 source
  exact program?_eq_ok.mpr ((program?_eq_ok.mp h).expanded (expanded_of_reworded hreworded))

/-- The word of a colour is read where it stands, or refused. -/
theorem result_hexColor (word : Token) (tape : Tape) :
    (∃ color, (Reader.hexColor word tape).result = .ok color ∧ ofHex? word.text.toList = .ok color) ∨
      ∃ fault, (Reader.hexColor word tape).result = .error (.badHex word fault) ∧
        ofHex? word.text.toList = .error fault := by
  unfold Reader.hexColor ofHex?
  cases hexDigits? word.text.toList with
  | ok digits => exact .inl ⟨_, rfl, rfl⟩
  | error fault => exact .inr ⟨fault, rfl, rfl⟩

/-- **Colours in base sixteen are amounts.** A word is read as a colour exactly if it is the mark and one,
three or six digits in letters of either case, and any other word is refused as no such colour. The
amounts are bytes, the digits stand for the six that they fill, and up to the case of letters those are
the amounts in base sixteen: digits that write the amounts are read as the same colour. In a program
amounts may stand in the place of any such words. -/
theorem hex_colors_are_amounts :
    (∀ word tape,
      (Color.IsHex word.text.toList → ∃ color, (Reader.hexColor word tape).result = .ok color ∧
        ofHex? word.text.toList = .ok color) ∧
      (¬ Color.IsHex word.text.toList → ∃ fault,
        (Reader.hexColor word tape).result = .error (.badHex word fault))) ∧
    (∀ digits color, ofHex? ('0' :: 'x' :: digits) = .ok color →
      color.IsBytes ∧ ofHex? ('0' :: 'x' :: filled digits) = .ok color ∧
      (filled digits).map Char.toLower = color.hexPairs ∧
      ∀ written, written.map Char.toLower = color.hexPairs →
        ofHex? ('0' :: 'x' :: written) = .ok color) ∧
    ∀ chosen source program, program? source = .ok program →
      program? (writtenOutAt chosen source) = .ok program := by
  refine ⟨fun word tape => ?_, fun digits color hread => ?_, fun chosen _ _ => program?_writtenOutAt chosen⟩
  · rw [← exists_hexColor_iff]
    simp only [← ofHex?_eq_ok_iff]
    rcases result_hexColor word tape with ⟨color, hresult, hread⟩ | ⟨fault, hresult, hread⟩
    · exact ⟨fun _ => ⟨color, hresult, hread⟩, fun hnot => absurd ⟨color, hread⟩ hnot⟩
    · refine ⟨fun hread' => ?_, fun _ => ⟨fault, hresult⟩⟩
      obtain ⟨color, hcolor⟩ := hread'
      rw [hread] at hcolor
      cases hcolor
  · have hcolor := ofHex?_eq_ok_iff.mp hread
    have hbytes := hcolor.isBytes
    exact ⟨hbytes, ofHex?_eq_ok_iff.mpr hcolor.filled, hcolor.hexPairs,
      fun written h => ofHex?_eq_ok_iff.mpr (hexColor_of_hexPairs hbytes h)⟩

/-- Behind a comment and inside of a block three digits are doubled, in letters of either case, and the
amounts are read in their place. A word with a large mark is refused. -/
theorem hex_colors_are_amounts_block :
    ofHex? "0xFFaa33".toList = .ok ⟨255, 170, 51⟩ ∧ ofHex? "0xfFAa33".toList = .ok ⟨255, 170, 51⟩ ∧
    program? (writtenOutAt (fun _ => true) "# 0x0\nREPEAT 2 [ C 0xFa3 L\n]") =
      .ok [.block 2 [.setColor ⟨255, 170, 51⟩, .turn .left]] ∧
    (∃ color, (Reader.hexColor ⟨"0xFa3", 2, "C 0xFa3"⟩ (Tape.ofTokens [])).result = .ok color) ∧
    ∃ fault, (Reader.hexColor ⟨"0Xfff", 1, "C 0Xfff"⟩ (Tape.ofTokens [])).result =
      .error (.badHex ⟨"0Xfff", 1, "C 0Xfff"⟩ fault) := by
  have hread : ofHex? ('0' :: 'x' :: "Fa3".toList) = .ok ⟨255, 170, 51⟩ := by decide +kernel
  have hprogram : program? "# 0x0\nREPEAT 2 [ C 0xFa3 L\n]" =
      .ok [.block 2 [.setColor ⟨255, 170, 51⟩, .turn .left]] := by decide +kernel
  have hmark : Color.IsHex "0xFa3".toList := exists_hexColor_iff.mp ⟨_, ofHex?_eq_ok_iff.mp hread⟩
  have hlarge : ¬ Color.IsHex "0Xfff".toList := by
    rintro ⟨digits, heq, -⟩
    exact absurd (List.cons.inj (List.cons.inj heq).2).1 (by decide)
  obtain ⟨hword, hdigits, hwritten⟩ := hex_colors_are_amounts
  obtain ⟨-, hfilled, -, hany⟩ := hdigits _ _ hread
  obtain ⟨color, hcolor, -⟩ := (hword ⟨"0xFa3", 2, "C 0xFa3"⟩ (Tape.ofTokens [])).1 hmark
  exact ⟨hfilled, hany "fFAa33".toList (by decide +kernel), hwritten _ _ _ hprogram, ⟨color, hcolor⟩,
    (hword ⟨"0Xfff", 1, "C 0Xfff"⟩ (Tape.ofTokens [])).2 hlarge⟩

end Turtle.Parse
