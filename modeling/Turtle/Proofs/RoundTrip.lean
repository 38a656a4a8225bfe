import Turtle.Proofs.Acceptance
import Turtle.Proofs.Brackets
import Turtle.Proofs.Execution

/-! Canonical text is read back as the program that it was written from, or not at all. A
program with an end of a block that belongs to no block is never derived, because its
brackets are not balanced. Without such ends the words of a program leave no choice: the first
word of each command is its keyword, the arguments of a keyword are fixed in number, and every
argument that can be read is read as what was written. -/

namespace Turtle.Grammar
open Turtle.Number Command

/-- The first word of a command tells its keyword. -/
theorem keyword_eq {depth : Nat} {tokens : List Token} {command : Command} {k : Keyword}
    {rest more : List String} (h : Derives depth tokens command)
    (hwords : texts tokens ++ rest = k.word :: more) : command.keyword = k := by
  obtain ⟨word, _, rfl, hspell, -⟩ := h.spells
  rw [texts_cons, List.cons_append] at hwords
  exact spells_unique hspell (spells_word (List.cons.inj hwords).1)

theorem eq_of_natural {limit n : Nat} {word : Token} {i : Int} (h : Natural limit word n)
    (hw : word.text = toString i) : (n : Int) = i := by
  have hread := natural?_eq_some_iff.mpr h
  rw [hw] at hread
  exact (natural?_toString.mp hread).1.symm

/-- The text of a width is read as that width. -/
theorem eq_of_width {word : Token} {width written : Binary64} (h : Width word width)
    (hw : word.text = written.text) : width = written := by
  obtain ⟨d, hwrites, hd, -, -⟩ := h
  rw [hw, Binary64.text, String.toList_ofList] at hwrites
  cases hx : written.isFinite with
  | true =>
    obtain ⟨e, hwrites', he⟩ := Binary64.writes_chars hx
    have hread := Decimal.read?_eq_some_iff.mpr hwrites
    rw [Decimal.read?_eq_some_iff.mpr hwrites'] at hread
    rw [← hd, ← he, Option.some.inj hread]
  | false => exact absurd hwrites (Binary64.not_writes_chars hx)

/-- No amount of a colour is marked as one of base sixteen. -/
theorem not_marked_toString (i : Int) : Color.isMarked (toString i).toList = false := by
  rw [toList_toString_int]
  split
  · rfl
  · exact not_marked_of_isDigits (isDigits_toDigits _)

/-- What is derived from the words of a command without a body is that command. -/
theorem eq_of_words {depth : Nat} {tokens : List Token} {read command : Command}
    {rest more : List String} (h : Derives depth tokens read) (hb : command.isBlock = false)
    (hwords : texts tokens ++ rest = command.words ++ more) :
    read = command ∧ texts tokens = command.words := by
  obtain ⟨arguments, harguments⟩ := command.words_eq_cons
  have hk : read.keyword = command.keyword := by
    rw [harguments] at hwords
    exact keyword_eq h hwords
  cases command with
  | block => cases hb
  | blockEnd =>
    obtain ⟨_, _, _, _, hne⟩ := h.spells
    exact absurd hk hne
  | forward distance =>
    cases h with
    | forward _ _ hn =>
      simp only [words, texts_cons, texts_nil, List.cons_append, List.cons.injEq] at hwords ⊢
      obtain ⟨hword, hdistance, -⟩ := hwords
      rw [eq_of_natural hn hdistance]
      exact ⟨rfl, hword, hdistance, trivial⟩
    | _ => cases hk
  | turn side =>
    cases h with
    | turn =>
      simp only [words, texts_cons, texts_nil, List.cons_append, List.cons.injEq] at hwords ⊢
      obtain rfl := Keyword.turn.inj hk
      exact ⟨rfl, hwords.1, trivial⟩
    | _ => cases hk
  | pen down =>
    cases h with
    | pen =>
      simp only [words, texts_cons, texts_nil, List.cons_append, List.cons.injEq] at hwords ⊢
      obtain rfl := Keyword.pen.inj hk
      exact ⟨rfl, hwords.1, trivial⟩
    | _ => cases hk
  | setSize width =>
    cases h with
    | size _ _ hw =>
      simp only [words, texts_cons, texts_nil, List.cons_append, List.cons.injEq] at hwords ⊢
      obtain ⟨hword, hnumeral, -⟩ := hwords
      rw [eq_of_width hw hnumeral]
      exact ⟨rfl, hword, hnumeral, trivial⟩
    | _ => cases hk
  | setColor color =>
    cases h with
    | hexColor _ _ hx =>
      simp only [words, texts_cons, texts_nil, List.cons_append, List.cons.injEq] at hwords
      obtain ⟨-, hdigits, -⟩ := hwords
      have hmarked := hx.marked
      rw [hdigits, not_marked_toString] at hmarked
      cases hmarked
    | byteColor _ _ hr _ hg _ hbl =>
      simp only [words, texts_cons, texts_nil, List.cons_append, List.cons.injEq] at hwords ⊢
      obtain ⟨hword, hred, hgreen, hblue, -⟩ := hwords
      rw [eq_of_natural hr hred, eq_of_natural hg hgreen, eq_of_natural hbl hblue]
      exact ⟨rfl, hword, hred, hgreen, hblue, trivial⟩
    | _ => cases hk

theorem keyword_word_ne {command : Command} (h : command ≠ .blockEnd) :
    command.keyword.word ≠ "]" := by
  have hk : command.keyword ≠ .blockEnd := by
    cases command with
    | blockEnd => exact absurd rfl h
    | _ => simp [keyword]
  have hweight := weight_of_keyword hk
  intro heq
  rw [heq] at hweight
  cases hweight

/-- What is derived from the words of a body, up to an end of a block, is that body, if none of
its parts is such an end. -/
theorem eq_of_wordsAll (program : List Command) : .blockEnd ∉ partsAll program →
    ∀ depth tokens read rest more, DerivesAll depth tokens read →
      texts tokens ++ "]" :: rest = wordsAll program ++ "]" :: more →
      read = program ∧ texts tokens = wordsAll program := by
  induction program using programInduction with
  | nil =>
    intro _ depth tokens read rest more h hwords
    cases h with
    | nil => exact ⟨rfl, rfl⟩
    | cons hfirst _ =>
      obtain ⟨_, _, _, _, hne⟩ := hfirst.spells
      rw [texts_append, List.append_assoc] at hwords
      exact absurd (keyword_eq (k := .blockEnd) hfirst hwords) hne
  | single command next hb ih =>
    intro hnone depth tokens read rest more h hwords
    rw [partsAll_cons, parts_of_not_block hb, List.mem_append, List.mem_singleton, not_or] at hnone
    cases h with
    | nil =>
      obtain ⟨arguments, harguments⟩ := command.words_eq_cons
      rw [wordsAll, harguments] at hwords
      exact absurd (List.cons.inj hwords).1.symm (keyword_word_ne fun h => hnone.1 h.symm)
    | cons hfirst hmore =>
      rw [texts_append, List.append_assoc, wordsAll, List.append_assoc] at hwords
      obtain ⟨rfl, htexts⟩ := eq_of_words hfirst hb hwords
      rw [htexts] at hwords
      obtain ⟨rfl, hrest⟩ := ih hnone.2 _ _ _ _ _ hmore (List.append_cancel_left hwords)
      rw [texts_append, htexts, hrest, wordsAll]
      exact ⟨rfl, rfl⟩
  | block count body next ihBody ih =>
    intro hnone depth tokens read rest more h hwords
    rw [partsAll_cons, parts_block, List.cons_append, List.mem_cons, List.mem_append, not_or,
      not_or] at hnone
    obtain ⟨-, hbody, hnext⟩ := hnone
    rw [wordsAll, words] at hwords
    cases h with
    | nil => exact absurd (List.cons.inj hwords).1 (by decide)
    | cons hfirst hmore =>
      have hk := keyword_eq (k := .block) hfirst (by
        rw [texts_append, List.append_assoc] at hwords
        exact hwords)
      cases hfirst with
      | block _ _ _ hn _ hbracket hall hclose =>
        have hend : ∀ w ∈ spellings .blockEnd, w = "]" := by decide
        simp only [texts_append, texts_cons, hend _ hclose, hbracket, List.cons_append,
          List.append_assoc, List.nil_append, List.cons.injEq, true_and] at hwords
        obtain ⟨hword, hcount, hwords⟩ := hwords
        -- the body ends at the first end of a block that no block inside of it takes
        obtain ⟨rfl, hinside⟩ := ihBody hbody _ _ _ _ _ hall hwords
        rw [hinside] at hwords
        have hafter := (List.cons.inj (List.append_cancel_left hwords)).2
        obtain ⟨rfl, hrest⟩ := ih hnext _ _ _ _ _ hmore hafter
        rw [eq_of_natural hn hcount]
        refine ⟨rfl, ?_⟩
        simp only [texts_append, texts_cons, texts_nil, hend _ hclose, hbracket, hinside, hrest,
          hword, hcount, wordsAll, words, List.cons_append, List.append_assoc]
      | _ => cases hk

theorem texts_tokens (number : Int) (command : Command) :
    texts (command.tokens number) = command.words := by
  rw [texts, tokens, onLine, List.map_map]
  exact List.map_id _

theorem texts_programTokens (first : Int) (program : List Command) :
    texts (programTokens first program) = wordsAll program := by
  induction program generalizing first with
  | nil => rfl
  | cons command rest ih => rw [programTokens, texts_append, texts_tokens, ih, wordsAll]

/-- What is derived from the canonical tokens of a program is that program. -/
theorem eq_of_programTokens {first : Int} {program read : List Command}
    (h : DerivesProgram (programTokens first program) read) : read = program := by
  have hall := h.derivesAll
  have hbalanced := excess_of_derivesAll _ _ _ hall
  rw [texts_programTokens, excess_of_wordsAll] at hbalanced
  have hnone : .blockEnd ∉ partsAll program :=
    List.count_eq_zero.mp (Int.natCast_eq_zero.mp hbalanced)
  refine (eq_of_wordsAll program hnone _ _ _ [] [] hall ?_).1
  rw [texts_programTokens]

/-- A token with the text of an integer is the natural that the integer is. -/
theorem natural_of_text {limit : Nat} {i : Int} {token : Token} (htext : token.text = toString i)
    (hlow : 0 ≤ i) (hhigh : i ≤ limit) : Natural limit token i.toNat := by
  rw [Natural, htext]
  exact natural?_eq_some_iff.mp (natural?_toString.mpr ⟨(Int.toNat_of_nonneg hlow).symm, hhigh⟩)

theorem natural_toString {limit : Nat} {i : Int} {number : Int} {line : String} (hlow : 0 ≤ i)
    (hhigh : i ≤ limit) : Natural limit ⟨toString i, number, line⟩ i.toNat :=
  natural_of_text rfl hlow hhigh

/-- The words of a command that fits derive it, on whatever line they stand. -/
theorem derives_words {depth : Nat} {number : Int} {line : String} {command : Command}
    (hfits : command.Fits) (hb : command.isBlock = false) :
    Derives depth (onLine number line command.words) command := by
  have hspell : Spells ⟨command.keyword.word, number, line⟩ command.keyword := spells_word rfl
  have hline : ∀ word, OnLine ⟨command.keyword.word, number, line⟩ ⟨word, number, line⟩ :=
    fun _ => rfl
  cases command with
  | block => cases hb
  | blockEnd => exact hfits.elim
  | turn side => exact .turn hspell
  | pen down => exact .pen hspell
  | forward distance =>
    obtain ⟨hlow, hhigh⟩ := hfits
    have hderives : Derives depth _ _ :=
      .forward hspell (hline _) (natural_toString hlow hhigh)
    rwa [Int.toNat_of_nonneg hlow] at hderives
  | setSize width =>
    obtain ⟨hfinite, hsign⟩ := hfits
    obtain ⟨d, hwrites, hd⟩ := Binary64.writes_chars hfinite
    have htext : Decimal.Writes width.text.toList d := by
      rwa [Binary64.text, String.toList_ofList]
    exact .size hspell (hline _) ⟨d, htext, hd, hfinite, hsign⟩
  | setColor color =>
    obtain ⟨⟨hrlow, hr⟩, ⟨hglow, hg⟩, hblow, hbl⟩ := hfits
    have hderives : Derives depth _ _ :=
      .byteColor hspell (hline _) (natural_toString hrlow hr) (hline _)
        (natural_toString hglow hg) (hline _) (natural_toString hblow hbl)
    rwa [Int.toNat_of_nonneg hrlow, Int.toNat_of_nonneg hglow, Int.toNat_of_nonneg hblow]
      at hderives

/-- The words of commands whose parts fit derive them, if their blocks are not too deep. -/
theorem derivesAll_wordsAll (program : List Command) : ∀ depth number line,
    (∀ part ∈ partsAll program, part.Fits) → nestingAll program + depth ≤ deepestBlock →
      DerivesAll depth (onLine number line (wordsAll program)) program := by
  induction program using programInduction with
  | nil =>
    intro depth number line _ _
    rw [wordsAll]
    exact .nil
  | single command rest hb ih =>
    intro depth number line hfits hdeep
    rw [partsAll_cons, parts_of_not_block hb, List.singleton_append] at hfits
    rw [nestingAll_cons] at hdeep
    rw [wordsAll, onLine, List.map_append]
    have hrest := ih depth number line (fun part hp => hfits part (by simp [hp])) (by omega)
    exact .cons (derives_words (hfits command (by simp)) hb) hrest
  | block count body rest ihBody ih =>
    intro depth number line hfits hdeep
    rw [partsAll_cons, parts_block] at hfits
    rw [nestingAll_cons, nesting_block] at hdeep
    obtain ⟨hlow, hhigh⟩ : (Command.block count body).Fits := hfits _ (by simp)
    have hbody := ihBody (depth + 1) number line (fun part hp => hfits part (by simp [hp]))
      (by omega)
    have hrest := ih depth number line (fun part hp => hfits part (by simp [hp])) (by omega)
    have hspell : Spells ⟨Keyword.block.word, number, line⟩ .block := spells_word rfl
    have hline : ∀ word, OnLine ⟨Keyword.block.word, number, line⟩ ⟨word, number, line⟩ :=
      fun _ => rfl
    have hclose : Spells ⟨"]", number, line⟩ .blockEnd := spells_word rfl
    have hblock : Derives depth _ _ :=
      .block (by omega) hspell (hline _) (natural_toString hlow hhigh) (hline "[") rfl hbody hclose
    rw [Int.toNat_of_nonneg hlow] at hblock
    have hall := DerivesAll.cons hblock hrest
    simpa [onLine, wordsAll, words] using hall

theorem derives_tokens {number : Int} {command : Command} (h : WellFormed [command]) :
    Derives 0 (command.tokens number) command := by
  have hall := derivesAll_wordsAll [command] 0 number command.text h.fits h.nested
  rw [wordsAll, wordsAll, List.append_nil] at hall
  generalize htokens : onLine number command.text command.words = tokens at hall
  cases hall with
  | cons hfirst hrest =>
    cases hrest
    rw [List.append_nil] at htokens
    rwa [← htokens] at hfirst

theorem lineNumber_of_mem_tokens {number : Int} {command : Command} {token : Token}
    (h : token ∈ command.tokens number) : token.lineNumber = number := by
  obtain ⟨word, -, rfl⟩ := List.mem_map.mp h
  rfl

theorem le_lineNumber_of_mem_programTokens {program : List Command} {first : Int} {token : Token}
    (h : token ∈ programTokens first program) : first ≤ token.lineNumber := by
  induction program generalizing first with
  | nil => cases h
  | cons command rest ih =>
    rcases List.mem_append.mp h with h | h
    · have hfirst := lineNumber_of_mem_tokens h
      omega
    · have hrest := ih h
      omega

/-- The canonical tokens of a well-formed program derive it: each command is on a line of its
own. -/
theorem derives_programTokens {program : List Command} (h : WellFormed program) (first : Int) :
    DerivesProgram (programTokens first program) program := by
  induction program generalizing first with
  | nil => exact .nil
  | cons command rest ih =>
    refine .cons (derives_tokens h.head) ?_ (ih h.tail (first + 1))
    intro last hlast next hnext
    have hl := lineNumber_of_mem_tokens (List.mem_of_getLast? hlast)
    have hn := le_lineNumber_of_mem_programTokens (List.mem_of_head? hnext)
    omega

end Turtle.Grammar

namespace Turtle
open Grammar Command Parse

/-- A program's canonical text is read as a program only if it is that one and well-formed. -/
theorem program?_programText_iff {program read : List Command} :
    program? (programText program) = .ok read ↔ WellFormed program ∧ read = program := by
  rw [program?_eq_ok, ofText_programText]
  constructor
  · intro h
    obtain rfl := eq_of_programTokens h
    exact ⟨h.wellFormed, rfl⟩
  · intro h
    obtain ⟨hw, rfl⟩ := h
    exact derives_programTokens hw 1

/-- The same of a single command, on a line with any number. -/
theorem line?_text_iff {number : Int} {command read : Command} :
    line? number command.text = .ok read ↔ WellFormed [command] ∧ read = command := by
  have hline : ∀ token ∈ Token.ofText number command.text, token.lineNumber = number := by
    intro token ht
    rw [ofText_text] at ht
    exact lineNumber_of_mem_tokens ht
  rw [line?_eq_ok_of_lineNumber hline, ofText_text]
  constructor
  · intro h
    have hprogram : DerivesProgram (programTokens number [command]) [read] := by
      rw [programTokens, programTokens, List.append_nil]
      exact derivesProgram_singleton.mpr h
    obtain rfl := List.singleton_inj.mp (eq_of_programTokens hprogram)
    exact ⟨hprogram.wellFormed, rfl⟩
  · rintro ⟨hw, rfl⟩
    exact derives_tokens hw

theorem exists_error {α : Type} {result : Except ParseError α} (h : ∀ a, result ≠ .ok a) :
    ∃ e, result = .error e := by
  cases result with
  | error e => exact ⟨e, rfl⟩
  | ok a => exact absurd rfl (h a)

/-- **Round trip.** The canonical text of a well-formed program is read back as that program,
and that of any other program is refused, so no text is read back as a different program. The
same holds of the text of a single command. Nothing is assumed of the integers, the widths,
the nesting or the ends of blocks in a program. -/
theorem canonical_text_read_back (program : List Command) :
    (WellFormed program → program? (programText program) = .ok program) ∧
    (¬ WellFormed program → ∃ e, program? (programText program) = .error e) ∧
    (∀ number command, WellFormed [command] → line? number command.text = .ok command) ∧
    (∀ number command, ¬ WellFormed [command] → ∃ e, line? number command.text = .error e) := by
  refine ⟨fun h => ?_, fun h => ?_, fun number command h => ?_, fun number command h => ?_⟩
  · exact program?_programText_iff.mpr ⟨h, rfl⟩
  · exact exists_error fun read hread => h (program?_programText_iff.mp hread).1
  · exact line?_text_iff.mpr ⟨h, rfl⟩
  · exact exists_error fun read hread => h (line?_text_iff.mp hread).1

/-- A width of minus zero inside a block is read back; an end of a block inside of one closes it
too early. -/
theorem canonical_text_read_back_nested :
    program? (programText [.block 2 [.setSize (Binary64.zero true), .turn .left], .forward 5]) =
        .ok [.block 2 [.setSize (Binary64.zero true), .turn .left], .forward 5] ∧
      (∃ e, program? (programText [.block 2 [.blockEnd, .forward 5]]) = .error e) ∧
      line? 7 (Command.block 3 [.pen false]).text = .ok (.block 3 [.pen false]) ∧
      ∃ e, line? 7 (Command.setColor ⟨0, 256, 0⟩).text = .error e := by
  refine ⟨?_, ?_, ?_, ?_⟩
  · exact (canonical_text_read_back _).1 (by decide +kernel)
  · exact (canonical_text_read_back _).2.1 (by decide)
  · exact (canonical_text_read_back []).2.2.1 7 _ (by decide)
  · exact (canonical_text_read_back []).2.2.2 7 _ (by decide)

end Turtle
