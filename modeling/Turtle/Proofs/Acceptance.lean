import Turtle.Parse.Program
import Turtle.Proofs.Grammar
import Turtle.Proofs.Reading

/-! What is accepted. Each reader takes exactly the tokens that the grammar names: first the
arguments, then a command given its body, a body given its inner commands, and by
induction on the levels that are left every command. The bounds that the readers carry
never decide: a body or a program has no more commands than tokens. -/

namespace Turtle.Reader
open Turtle.Number Turtle.Grammar

variable {tape left : Tape} {opener : Token}

theorem reads_natural {limit n : Nat} {word : Token} {e : ParseError} :
    (match natural? limit word.text.toList with
      | none => fail e
      | some m => return m).Reads tape n left ↔ left = tape ∧ Natural limit word n := by
  constructor
  · intro h
    split at h
    · exact absurd h not_reads_fail
    · rename_i m hm
      obtain ⟨rfl, rfl⟩ := reads_pure.mp h
      exact ⟨rfl, natural?_eq_some_iff.mp hm⟩
  · intro h
    obtain ⟨rfl, hn⟩ := h
    simp only [natural?_eq_some_iff.mpr hn]
    exact reads_pure.mpr ⟨rfl, rfl⟩

theorem reads_distance {n : Nat} :
    (distance opener).Reads tape n left ↔
      ∃ word, tape.Took [word] left ∧ OnLine opener word ∧ Natural largestNatural word n :=
  reads_word (fun _ => not_reads_fail) fun _ _ => reads_natural

theorem reads_channel {word : Token} {n : Nat} :
    (channel word).Reads tape n left ↔ left = tape ∧ Natural largestChannel word n :=
  reads_natural

theorem reads_nextChannel {n : Nat} :
    (nextChannel opener).Reads tape n left ↔
      ∃ word, tape.Took [word] left ∧ OnLine opener word ∧ Natural largestChannel word n :=
  reads_word (fun _ => not_reads_fail) fun _ _ => reads_channel

theorem reads_size {width : Binary64} :
    (size opener).Reads tape width left ↔
      ∃ word, tape.Took [word] left ∧ OnLine opener word ∧ Width word width := by
  refine reads_word (fun _ => not_reads_fail) fun word mid => ?_
  dsimp only
  constructor
  · intro h
    split at h
    · exact absurd h not_reads_fail
    · rename_i d hd
      split at h
      · rename_i hw
        obtain ⟨rfl, rfl⟩ := reads_pure.mp h
        obtain ⟨hfin, hneg⟩ := Bool.and_eq_true_iff.mp hw
        exact ⟨rfl, d, Decimal.read?_eq_some_iff.mp hd, rfl, hfin, by simpa using hneg⟩
      · exact absurd h not_reads_fail
  · intro h
    obtain ⟨rfl, d, hd, rfl, hfin, hneg⟩ := h
    simp only [Decimal.read?_eq_some_iff.mpr hd, hfin, hneg]
    exact reads_pure.mpr ⟨rfl, rfl⟩

theorem reads_hexColor {word : Token} {c : Color} :
    (hexColor word).Reads tape c left ↔ left = tape ∧ HexColor word.text.toList c := by
  rw [← ofHex?_eq_ok_iff, Color.ofHex?]
  unfold hexColor
  cases Color.hexDigits? word.text.toList with
  | error fault =>
    constructor
    · exact fun h => absurd h not_reads_fail
    · intro h
      obtain ⟨-, h⟩ := h
      cases h
  | ok digits =>
    dsimp only
    rw [reads_note_bind, reads_pure]
    constructor
    · intro h
      obtain ⟨rfl, rfl⟩ := h
      exact ⟨rfl, rfl⟩
    · intro h
      obtain ⟨rfl, h⟩ := h
      exact ⟨(Except.ok.inj h).symm, rfl⟩

/-- A colour is one marked word or three amounts; the first word tells which. -/
theorem reads_color {c : Color} :
    (color opener).Reads tape c left ↔
      (∃ digits, tape.Took [digits] left ∧ OnLine opener digits ∧
        HexColor digits.text.toList c) ∨
      (∃ red green blue, ∃ r g b : Nat, tape.Took [red, green, blue] left ∧ c = ⟨r, g, b⟩ ∧
        OnLine opener red ∧ Natural largestChannel red r ∧
        OnLine opener green ∧ Natural largestChannel green g ∧
        OnLine opener blue ∧ Natural largestChannel blue b) := by
  rw [color, reads_argument_bind fun _ => not_reads_fail]
  constructor
  · intro h
    obtain ⟨word, mid, hline, ht, h⟩ := h
    dsimp only at h
    split at h
    · obtain ⟨rfl, hc⟩ := reads_hexColor.mp h
      exact .inl ⟨word, ht, hline, hc⟩
    · split at h
      · obtain ⟨r, m₁, hfirst, h⟩ := reads_bind.mp h
        obtain ⟨g, m₂, hsecond, h⟩ := reads_bind.mp h
        obtain ⟨b, m₃, hthird, h⟩ := reads_bind.mp h
        obtain ⟨rfl, rfl⟩ := reads_pure.mp h
        obtain ⟨rfl, hr⟩ := reads_channel.mp hfirst
        obtain ⟨green, hgt, hgl, hg⟩ := reads_nextChannel.mp hsecond
        obtain ⟨blue, hbt, hbl, hb⟩ := reads_nextChannel.mp hthird
        exact .inr ⟨word, green, blue, r, g, b, (ht.trans hgt).trans hbt, rfl, hline, hr, hgl, hg,
          hbl, hb⟩
      · exact absurd h not_reads_fail
  · intro h
    obtain ⟨word, ht, hline, hc⟩ | ⟨red, green, blue, r, g, b, ht, rfl, hrl, hr, hgl, hg, hbl, hb⟩ := h
    · refine ⟨word, left, hline, ht, ?_⟩
      simp only [hc.marked, if_true]
      exact reads_hexColor.mpr ⟨rfl, hc⟩
    · obtain ⟨m₁, hrt, ht⟩ := Tape.took_cons.mp ht
      obtain ⟨m₂, hgt, hbt⟩ := Tape.took_cons.mp ht
      refine ⟨red, m₁, hrl, hrt, ?_⟩
      simp only [not_marked_of_isDigits hr.1, hr.1, if_true]
      refine reads_bind.mpr ⟨r, m₁, reads_channel.mpr ⟨rfl, hr⟩, ?_⟩
      refine reads_bind.mpr ⟨g, m₂, reads_nextChannel.mpr ⟨green, hgt, hgl, hg⟩, ?_⟩
      refine reads_bind.mpr ⟨b, left, reads_nextChannel.mpr ⟨blue, hbt, hbl, hb⟩, ?_⟩
      exact reads_pure.mpr ⟨rfl, rfl⟩

theorem reads_blockHead {n : Nat} :
    (blockHead opener).Reads tape n left ↔
      ∃ count bracket, tape.Took [count, bracket] left ∧ OnLine opener count ∧
        Natural largestNatural count n ∧ OnLine opener bracket ∧ bracket.text = "[" := by
  rw [blockHead, reads_argument_bind fun _ => not_reads_fail]
  constructor
  · intro h
    obtain ⟨count, mid, hline, ht, h⟩ := h
    dsimp only at h
    split at h
    · exact absurd h not_reads_fail
    · rename_i m hm
      rw [reads_argument_bind fun _ => not_reads_fail] at h
      obtain ⟨bracket, mid', hbl, hbt, h⟩ := h
      dsimp only at h
      split at h
      · rename_i hb
        obtain ⟨rfl, rfl⟩ := reads_pure.mp h
        exact ⟨count, bracket, ht.trans hbt, hline, natural?_eq_some_iff.mp hm, hbl, hb⟩
      · exact absurd h not_reads_fail
  · intro h
    obtain ⟨count, bracket, ht, hline, hn, hbl, hb⟩ := h
    obtain ⟨mid, hct, hbt⟩ := Tape.took_cons.mp ht
    refine ⟨count, mid, hline, hct, ?_⟩
    simp only [natural?_eq_some_iff.mpr hn]
    rw [reads_argument_bind fun _ => not_reads_fail]
    refine ⟨bracket, left, hbl, hbt, ?_⟩
    simp only [hb, if_true]
    exact reads_pure.mpr ⟨rfl, rfl⟩

/-- What one reading of a command takes: a command of the grammar, or the end of a block. -/
def Item (depth : Nat) (taken : List Token) (read : Command) : Prop :=
  Derives depth taken read ∨
    ∃ close, Spells close .blockEnd ∧ taken = [close] ∧ read = .blockEnd

/-- A reader of commands takes exactly what the grammar derives at a depth. -/
def Accepts (inner : Reader Command) (depth : Nat) : Prop :=
  ∀ tape read left, inner.Reads tape read left ↔
    ∃ taken, tape.Took taken left ∧ Item depth taken read

/-- A reader of bodies takes exactly the bodies of blocks at a depth, with their ends. -/
def AcceptsBody (body : Token → Reader (List Command)) (depth : Nat) : Prop :=
  ∀ opener tape commands left, (body opener).Reads tape commands left ↔
    depth < deepestBlock ∧ ∃ inside close, tape.Took (inside ++ [close]) left ∧
      DerivesAll (depth + 1) inside commands ∧ Spells close .blockEnd

/-- No command of the grammar is the end of a block. -/
theorem not_derives_blockEnd {depth : Nat} {taken : List Token} :
    ¬ Derives depth taken .blockEnd := by
  rintro ⟨⟩

/-- What a word and its arguments are read as, the grammar derives from them. -/
theorem item_of_reads {body : Token → Reader (List Command)} {depth : Nat} {keyword : Keyword}
    {read : Command} (hbody : AcceptsBody body depth) (hspell : Spells opener keyword)
    (h : (commandOf body opener keyword).Reads tape read left) :
    ∃ taken, tape.Took taken left ∧ Item depth (opener :: taken) read := by
  cases keyword with
  | forward =>
    obtain ⟨n, mid, hd, h⟩ := reads_bind.mp h
    obtain ⟨rfl, rfl⟩ := reads_pure.mp h
    obtain ⟨word, ht, hline, hn⟩ := reads_distance.mp hd
    exact ⟨_, ht, .inl (.forward hspell hline hn)⟩
  | turn side =>
    obtain ⟨rfl, rfl⟩ := reads_pure.mp h
    exact ⟨[], Tape.took_nil.mpr rfl, .inl (.turn hspell)⟩
  | pen down =>
    obtain ⟨rfl, rfl⟩ := reads_pure.mp h
    exact ⟨[], Tape.took_nil.mpr rfl, .inl (.pen hspell)⟩
  | size =>
    obtain ⟨width, mid, hs, h⟩ := reads_bind.mp h
    obtain ⟨rfl, rfl⟩ := reads_pure.mp h
    obtain ⟨word, ht, hline, hw⟩ := reads_size.mp hs
    exact ⟨_, ht, .inl (.size hspell hline hw)⟩
  | color =>
    obtain ⟨c, mid, hc, h⟩ := reads_bind.mp h
    obtain ⟨rfl, rfl⟩ := reads_pure.mp h
    rcases reads_color.mp hc with
      ⟨word, ht, hline, hx⟩ | ⟨red, green, blue, r, g, b, ht, rfl, hrl, hr, hgl, hg, hbl, hb⟩
    · exact ⟨_, ht, .inl (.hexColor hspell hline hx)⟩
    · exact ⟨_, ht, .inl (.byteColor hspell hrl hr hgl hg hbl hb)⟩
  | block =>
    obtain ⟨n, mid, hhead, h⟩ := reads_bind.mp h
    obtain ⟨commands, mid', hb, h⟩ := reads_bind.mp h
    obtain ⟨rfl, rfl⟩ := reads_pure.mp h
    obtain ⟨count, bracket, hht, hcl, hn, hbl, hbt⟩ := reads_blockHead.mp hhead
    obtain ⟨hdepth, inside, close, hit, hall, hclose⟩ := (hbody ..).mp hb
    exact ⟨_, hht.trans hit, .inl (.block hdepth hspell hcl hn hbl hbt hall hclose)⟩
  | blockEnd =>
    obtain ⟨rfl, rfl⟩ := reads_pure.mp h
    exact ⟨[], Tape.took_nil.mpr rfl, .inr ⟨opener, hspell, rfl, rfl⟩⟩

/-- What the grammar derives from a word and more tokens is read off them. -/
theorem reads_of_item {body : Token → Reader (List Command)} {depth : Nat} {keyword : Keyword}
    {taken : List Token} {read : Command} (hbody : AcceptsBody body depth)
    (hspell : Spells opener keyword) (ht : tape.Took taken left)
    (h : Item depth (opener :: taken) read) :
    (commandOf body opener keyword).Reads tape read left := by
  rcases h with h | ⟨close, hclose, htaken, rfl⟩
  · cases h with
    | forward hs hline hn =>
      obtain rfl := spells_unique hs hspell
      exact reads_bind.mpr ⟨_, left, reads_distance.mpr ⟨_, ht, hline, hn⟩,
        reads_pure.mpr ⟨rfl, rfl⟩⟩
    | turn hs | pen hs =>
      obtain rfl := spells_unique hs hspell
      exact reads_pure.mpr ⟨rfl, Tape.took_nil.mp ht⟩
    | size hs hline hw =>
      obtain rfl := spells_unique hs hspell
      exact reads_bind.mpr ⟨_, left, reads_size.mpr ⟨_, ht, hline, hw⟩,
        reads_pure.mpr ⟨rfl, rfl⟩⟩
    | hexColor hs hline hx =>
      obtain rfl := spells_unique hs hspell
      exact reads_bind.mpr ⟨_, left, reads_color.mpr (.inl ⟨_, ht, hline, hx⟩),
        reads_pure.mpr ⟨rfl, rfl⟩⟩
    | byteColor hs hrl hr hgl hg hbl hb =>
      obtain rfl := spells_unique hs hspell
      have hcolor := reads_color.mpr (.inr ⟨_, _, _, _, _, _, ht, rfl, hrl, hr, hgl, hg, hbl, hb⟩)
      exact reads_bind.mpr ⟨_, left, hcolor, reads_pure.mpr ⟨rfl, rfl⟩⟩
    | @block _ _ _ count bracket _ inside _ hdepth hs hcl hn hbl hbt hall hclose =>
      obtain rfl := spells_unique hs hspell
      have htook : tape.Took ([count, bracket] ++ (inside ++ [_])) left := ht
      obtain ⟨mid, hht, hit⟩ := Tape.took_append.mp htook
      have hhead := reads_blockHead.mpr ⟨_, _, hht, hcl, hn, hbl, hbt⟩
      have hread := (hbody opener ..).mpr ⟨hdepth, inside, _, hit, hall, hclose⟩
      exact reads_bind.mpr ⟨_, mid, hhead, reads_bind.mpr ⟨_, left, hread,
        reads_pure.mpr ⟨rfl, rfl⟩⟩⟩
  · obtain ⟨rfl, rfl⟩ := List.cons.inj htaken
    obtain rfl := spells_unique hclose hspell
    exact reads_pure.mpr ⟨rfl, Tape.took_nil.mp ht⟩

/-- An item begins with a word that spells a keyword. -/
theorem Item.spells {depth : Nat} {taken : List Token} {read : Command}
    (h : Item depth taken read) :
    ∃ word rest keyword, taken = word :: rest ∧ Spells word keyword := by
  rcases h with h | ⟨close, hclose, rfl, -⟩
  · obtain ⟨word, rest, rfl, hspell, -⟩ := h.spells
    exact ⟨word, rest, read.keyword, rfl, hspell⟩
  · exact ⟨close, [], .blockEnd, rfl, hclose⟩

theorem accepts_command {body : Token → Reader (List Command)} {depth : Nat}
    (hbody : AcceptsBody body depth) : Accepts (command body) depth := by
  intro tape read left
  rw [command, reads_next_bind fun _ h => by
    obtain ⟨_, _, _, h⟩ := reads_bind.mp h
    exact not_reads_fail h]
  constructor
  · intro h
    obtain ⟨word, mid, hw, h⟩ := h
    dsimp only at h
    split at h
    · exact absurd h not_reads_fail
    · rename_i keyword hk
      obtain ⟨result, mid', hc, h⟩ := reads_bind.mp h
      rw [reads_note_bind] at h
      obtain ⟨rfl, rfl⟩ := reads_pure.mp h
      obtain ⟨taken, ht, hitem⟩ := item_of_reads hbody (ofWord?_eq_some_iff.mp hk) hc
      exact ⟨word :: taken, hw.trans ht, hitem⟩
  · intro h
    obtain ⟨taken, ht, hitem⟩ := h
    obtain ⟨word, rest, keyword, rfl, hspell⟩ := hitem.spells
    obtain ⟨mid, hw, ht⟩ := Tape.took_cons.mp ht
    refine ⟨word, mid, hw, ?_⟩
    simp only [ofWord?_eq_some_iff.mpr hspell]
    refine reads_bind.mpr ⟨read, left, reads_of_item hbody hspell ht hitem, ?_⟩
    rw [reads_note_bind]
    exact reads_pure.mpr ⟨rfl, rfl⟩

/-- A derived item is a command of the grammar unless it is the end of a block. -/
theorem Item.derives {depth : Nat} {taken : List Token} {read : Command}
    (h : Item depth taken read) (hne : read ≠ .blockEnd) : Derives depth taken read := by
  rcases h with h | ⟨_, _, _, rfl⟩
  · exact h
  · exact absurd rfl hne

theorem Item.ne_nil {depth : Nat} {taken : List Token} {read : Command}
    (h : Item depth taken read) : taken ≠ [] := by
  obtain ⟨word, rest, _, rfl, -⟩ := h.spells
  simp

theorem item_blockEnd {depth : Nat} {taken : List Token} :
    Item depth taken .blockEnd ↔ ∃ close, taken = [close] ∧ Spells close .blockEnd := by
  constructor
  · intro h
    obtain h | ⟨close, hclose, rfl, -⟩ := h
    · exact absurd h not_derives_blockEnd
    · exact ⟨close, rfl, hclose⟩
  · intro h
    obtain ⟨close, rfl, hclose⟩ := h
    exact .inr ⟨close, hclose, rfl, rfl⟩

/-- A body within a bound is the commands of the grammar up to the end of the block, fewer
of them than the bound. -/
theorem reads_bodyWithin {inner : Reader Command} {depth : Nat} (hinner : Accepts inner depth)
    {most : Nat} {commands : List Command} :
    (bodyWithin inner opener most).Reads tape commands left ↔
      commands.length < most ∧ ∃ inside close, tape.Took (inside ++ [close]) left ∧
        DerivesAll depth inside commands ∧ Spells close .blockEnd := by
  induction most generalizing tape commands with
  | zero =>
    constructor
    · exact fun h => absurd h not_reads_fail
    · intro h
      obtain ⟨h, -⟩ := h
      omega
  | succ most ih =>
    rw [bodyWithin, reads_position_bind]
    constructor
    · intro h
      split at h
      · exact absurd h not_reads_fail
      · obtain ⟨read, mid, hr, h⟩ := reads_bind.mp h
        obtain ⟨taken, ht, hitem⟩ := (hinner ..).mp hr
        split at h
        · obtain ⟨rfl, rfl⟩ := reads_pure.mp h
          obtain ⟨close, rfl, hclose⟩ := item_blockEnd.mp hitem
          exact ⟨by simp, [], close, ht, .nil, hclose⟩
        · rename_i hne
          obtain ⟨more, mid', hm, h⟩ := reads_bind.mp h
          obtain ⟨rfl, rfl⟩ := reads_pure.mp h
          obtain ⟨hlen, inside, close, hit, hall, hclose⟩ := ih.mp hm
          refine ⟨by simpa using hlen, taken ++ inside, close, ?_,
            .cons (hitem.derives hne) hall, hclose⟩
          rw [List.append_assoc]
          exact ht.trans hit
    · intro h
      obtain ⟨hlen, inside, close, ht, hall, hclose⟩ := h
      have hnot : ¬ tape.atEnd = true := by
        simp [Tape.atEnd, ht.rest]
      rw [if_neg hnot]
      cases hall with
      | nil =>
        refine reads_bind.mpr ⟨.blockEnd, left, (hinner ..).mpr ⟨_, ht, ?_⟩, ?_⟩
        · exact item_blockEnd.mpr ⟨close, rfl, hclose⟩
        · exact reads_pure.mpr ⟨rfl, rfl⟩
      | @cons _ first rest read more hfirst hrest =>
        rw [List.append_assoc] at ht
        obtain ⟨mid, hft, hrt⟩ := Tape.took_append.mp ht
        refine reads_bind.mpr ⟨read, mid, (hinner ..).mpr ⟨_, hft, .inl hfirst⟩, ?_⟩
        have hmore := ih.mpr ⟨by simpa using hlen, rest, close, hrt, hrest, hclose⟩
        split
        · exact absurd hfirst not_derives_blockEnd
        · exact reads_bind.mpr ⟨more, left, hmore, reads_pure.mpr ⟨rfl, rfl⟩⟩

theorem length_le_of_derivesAll {depth : Nat} {tokens : List Token} {commands : List Command}
    (h : DerivesAll depth tokens commands) : commands.length ≤ tokens.length := by
  induction commands generalizing tokens with
  | nil => simp
  | cons command more ih =>
    cases h with
    | cons hfirst hrest =>
      have hpos := List.length_pos_iff.mpr hfirst.ne_nil
      have hle := ih hrest
      simp only [List.length_cons, List.length_append]
      omega

theorem acceptsBody_blockBody {inner : Reader Command} {depth : Nat}
    (hinner : Accepts inner (depth + 1)) (hdepth : depth < deepestBlock) :
    AcceptsBody (blockBody inner) depth := by
  intro opener tape commands left
  change (bodyWithin inner opener tape.rest.length).Reads tape commands left ↔ _
  rw [reads_bodyWithin hinner]
  constructor
  · intro h
    obtain ⟨-, h⟩ := h
    exact ⟨hdepth, h⟩
  · intro h
    obtain ⟨-, inside, close, ht, hall, hclose⟩ := h
    refine ⟨?_, inside, close, ht, hall, hclose⟩
    have hlen := ht.length_le
    rw [List.length_append, List.length_singleton] at hlen
    have := length_le_of_derivesAll hall
    omega

/-- Every level of the reader of commands accepts one depth of the grammar. -/
theorem accepts_commandWithin (levels depth : Nat) (h : levels = deepestBlock - depth) :
    Accepts (commandWithin levels) depth := by
  induction levels generalizing depth with
  | zero =>
    refine accepts_command fun opener tape commands left => ?_
    constructor
    · exact fun h => absurd h not_reads_fail
    · intro h
      obtain ⟨hd, -⟩ := h
      omega
  | succ levels ih =>
    exact accepts_command (acceptsBody_blockBody (ih (depth + 1) (by omega)) (by omega))

/-- From a given token on, the grammar derives at most one command, from one list of
tokens. -/
theorem derives_unique {depth : Nat} {first second rest rest' : List Token} {a b : Command}
    (ha : Derives depth first a) (hb : Derives depth second b)
    (h : first ++ rest = second ++ rest') : first = second ∧ a = b := by
  have haccepts := accepts_commandWithin _ depth rfl
  have hfirst := (haccepts ⟨[], first ++ rest⟩ a ⟨first.reverse, rest⟩).mpr
    ⟨first, ⟨rfl, by simp⟩, .inl ha⟩
  have hsecond := (haccepts ⟨[], first ++ rest⟩ b ⟨second.reverse, rest'⟩).mpr
    ⟨second, ⟨h, by simp⟩, .inl hb⟩
  obtain ⟨hab, htape⟩ := hfirst.unique hsecond
  exact ⟨List.reverse_inj.mp (Tape.mk.inj htape).1, hab⟩

theorem reads_endOfLine {read : Command} {u : Unit} :
    (endOfLine read).Reads tape u left ↔ left = tape ∧
      ∀ last ∈ tape.last, ∀ extra ∈ tape.peek, extra.lineNumber ≠ last.lineNumber := by
  rw [endOfLine, reads_position_bind]
  split
  · rename_i last extra hl he
    rw [hl, he]
    constructor
    · intro h
      split at h
      · exact absurd h not_reads_fail
      · rename_i hne
        refine ⟨(reads_pure.mp h).2, ?_⟩
        rintro _ ⟨⟩ _ ⟨⟩
        exact hne
    · intro h
      obtain ⟨rfl, h⟩ := h
      rw [if_neg (h last rfl extra rfl)]
      exact reads_pure.mpr ⟨rfl, rfl⟩
  · rename_i hnone
    constructor
    · exact fun h => ⟨(reads_pure.mp h).2, fun last hl extra he => absurd he (hnone last extra hl)⟩
    · exact fun h => reads_pure.mpr ⟨rfl, h.1⟩

/-- A statement is a command outside of blocks with nothing more on its last line. -/
theorem reads_statement {read : Command} :
    statement.Reads tape read left ↔ ∃ taken, tape.Took taken left ∧ Derives 0 taken read ∧
      ∀ last ∈ taken.getLast?, ∀ next ∈ left.rest.head?, next.lineNumber ≠ last.lineNumber := by
  have haccepts : Accepts (commandAt 0) 0 := accepts_commandWithin deepestBlock 0 rfl
  have hlast : ∀ taken, tape.Took taken left → taken ≠ [] → left.last = taken.getLast? := by
    intro taken ht hne
    rw [Tape.last, ht.past, List.head?_append, List.head?_reverse]
    cases hl : taken.getLast? with
    | none => exact absurd (List.getLast?_eq_none_iff.mp hl) hne
    | some last => rfl
  rw [statement, reads_bind]
  constructor
  · intro h
    obtain ⟨found, mid, hr, h⟩ := h
    obtain ⟨taken, ht, hitem⟩ := (haccepts ..).mp hr
    split at h
    · rw [reads_position_bind] at h
      exact absurd h not_reads_fail
    · rename_i hne
      obtain ⟨_, mid', he, h⟩ := reads_bind.mp h
      obtain ⟨rfl, rfl⟩ := reads_pure.mp h
      obtain ⟨rfl, hline⟩ := reads_endOfLine.mp he
      rw [hlast taken ht hitem.ne_nil] at hline
      exact ⟨taken, ht, hitem.derives hne, hline⟩
  · intro h
    obtain ⟨taken, ht, hd, hline⟩ := h
    refine ⟨read, left, (haccepts ..).mpr ⟨taken, ht, .inl hd⟩, ?_⟩
    split
    · exact absurd hd not_derives_blockEnd
    · rw [← hlast taken ht hd.ne_nil] at hline
      exact reads_bind.mpr ⟨(), left, reads_endOfLine.mpr ⟨rfl, hline⟩, reads_pure.mpr ⟨rfl, rfl⟩⟩

theorem derivesProgram_nil {program : List Command} : DerivesProgram [] program ↔ program = [] := by
  constructor
  · intro h
    generalize hts : ([] : List Token) = tokens at h
    cases h with
    | nil => rfl
    | cons hfirst _ _ => exact absurd (List.append_eq_nil_iff.mp hts.symm).1 hfirst.ne_nil
  · rintro rfl
    exact .nil

theorem reads_done {program : List Command} (h : tape.rest = []) :
    (pure [] : Reader (List Command)).Reads tape program left ↔
      tape.Took tape.rest left ∧ DerivesProgram tape.rest program := by
  rw [h, reads_pure, Tape.took_nil, derivesProgram_nil, And.comm]

/-- With a bound of all tokens that are left, the statements are those of a program. -/
theorem reads_statementsWithin {most : Nat} {program : List Command}
    (hmost : tape.rest.length ≤ most) :
    (statementsWithin most).Reads tape program left ↔
      tape.Took tape.rest left ∧ DerivesProgram tape.rest program := by
  induction most generalizing tape program with
  | zero => exact reads_done (List.length_eq_zero_iff.mp (by omega))
  | succ most ih =>
    rw [statementsWithin, reads_position_bind]
    split
    · rename_i hend
      exact reads_done (List.isEmpty_iff.mp hend)
    · rename_i hmore
      -- a statement takes a token at least, so the bound suffices for what it leaves
      have hshorter : ∀ {taken mid}, tape.Took taken mid → taken ≠ [] → mid.rest.length ≤ most := by
        intro taken mid ht hne
        have hlen := congrArg List.length ht.rest
        have hpos := List.length_pos_iff.mpr hne
        rw [List.length_append] at hlen
        omega
      constructor
      · intro h
        obtain ⟨read, mid, hr, h⟩ := reads_bind.mp h
        obtain ⟨rest, mid', hm, h⟩ := reads_bind.mp h
        obtain ⟨rfl, rfl⟩ := reads_pure.mp h
        obtain ⟨taken, ht, hd, hline⟩ := reads_statement.mp hr
        obtain ⟨hrest, hprogram⟩ := (ih (hshorter ht hd.ne_nil)).mp hm
        rw [ht.rest]
        exact ⟨ht.trans hrest, .cons hd hline hprogram⟩
      · intro h
        obtain ⟨ht, hprogram⟩ := h
        generalize htokens : tape.rest = tokens at ht hprogram
        cases hprogram with
        | nil => exact absurd (List.isEmpty_iff.mpr htokens) hmore
        | @cons first rest read more hd hline hrest =>
          obtain ⟨mid, hft, hrt⟩ := Tape.took_append.mp ht
          obtain rfl : mid.rest = rest :=
            List.append_cancel_left (hft.rest.symm.trans htokens)
          have hread := reads_statement.mpr ⟨first, hft, hd, hline⟩
          have hreads := (ih (hshorter hft hd.ne_nil)).mpr ⟨hrt, hrest⟩
          exact reads_bind.mpr ⟨read, mid, hread, reads_bind.mpr ⟨more, left, hreads,
            reads_pure.mpr ⟨rfl, rfl⟩⟩⟩

end Turtle.Reader

namespace Turtle.Parse
open Turtle.Grammar Turtle.Reader

/-- A text is accepted exactly if the grammar derives a program from its tokens. -/
theorem program?_eq_ok {text : String} {program : List Command} :
    program? text = .ok program ↔ DerivesProgram (Token.ofText 1 text) program := by
  let tape := Tape.ofTokens (Token.ofText 1 text)
  have hreads : ∀ left, statements.Reads tape program left ↔
      tape.Took tape.rest left ∧ DerivesProgram tape.rest program :=
    fun _ => reads_statementsWithin (Nat.le_refl _)
  constructor
  · intro h
    exact ((hreads _).mp ⟨h, rfl⟩).2
  · intro h
    have htook : tape.Took tape.rest ⟨tape.rest.reverse, []⟩ := ⟨by simp, by simp [tape, Tape.ofTokens]⟩
    exact ((hreads _).mpr ⟨htook, h⟩).1

/-- Whether a text is read as a program can be found out by reading it. -/
instance (text : String) (program : List Command) : Decidable (program? text = .ok program) :=
  match h : program? text with
  | .ok read => decidable_of_iff (read = program) (by simp)
  | .error e => isFalse (by simp)

/-- Whether a text is refused for a reason can be found out by reading it. -/
instance (text : String) (e : ParseError) : Decidable (program? text = .error e) :=
  match h : program? text with
  | .ok read => isFalse (by simp)
  | .error found => decidable_of_iff (found = e) (by simp)

instance (text : String) (program : List Command) :
    Decidable (DerivesProgram (Token.ofText 1 text) program) :=
  decidable_of_iff _ program?_eq_ok

/-- One line of text is accepted exactly if all of its tokens up to some point make a command
and the next token, if there is one, is on another line. -/
theorem line?_eq_ok {number : Int} {text : String} {read : Command} :
    line? number text = .ok read ↔ ∃ taken rest, Token.ofText number text = taken ++ rest ∧
      Derives 0 taken read ∧
      ∀ last ∈ taken.getLast?, ∀ next ∈ rest.head?, next.lineNumber ≠ last.lineNumber := by
  constructor
  · intro h
    obtain ⟨taken, ht, hd, hline⟩ := reads_statement.mp ⟨h, rfl⟩
    exact ⟨taken, _, ht.rest, hd, hline⟩
  · intro h
    obtain ⟨taken, rest, htokens, hd, hline⟩ := h
    have htook : (Tape.ofTokens (Token.ofText number text)).Took taken ⟨taken.reverse, rest⟩ :=
      ⟨htokens, by simp [Tape.ofTokens]⟩
    exact (reads_statement.mpr ⟨taken, htook, hd, hline⟩).1

theorem derivesProgram_singleton {tokens : List Token} {read : Command} :
    DerivesProgram tokens [read] ↔ Derives 0 tokens read := by
  constructor
  · intro h
    cases h with
    | cons hfirst _ hrest =>
      cases hrest
      rwa [List.append_nil]
  · intro h
    have hprogram : DerivesProgram (tokens ++ []) [read] :=
      .cons h (fun _ _ _ hnext => by cases hnext) .nil
    rwa [List.append_nil] at hprogram

/-- Where all tokens are on one line, none is left behind a command. -/
theorem line?_eq_ok_of_lineNumber {number : Int} {text : String} {read : Command}
    (h : ∀ t ∈ Token.ofText number text, t.lineNumber = number) :
    line? number text = .ok read ↔ Derives 0 (Token.ofText number text) read := by
  rw [line?_eq_ok]
  constructor
  · rintro ⟨taken, rest, htokens, hd, hline⟩
    rw [htokens] at h ⊢
    cases rest with
    | nil => rwa [List.append_nil]
    | cons next more =>
      have hlast := List.getLast?_eq_some_getLast hd.ne_nil
      have hne := hline _ hlast next rfl
      rw [h _ (List.mem_append_left _ (List.getLast_mem hd.ne_nil)), h next (by simp)] at hne
      exact absurd rfl hne
  · intro hd
    exact ⟨_, [], (List.append_nil _).symm, hd, fun _ _ _ hnext => by cases hnext⟩

/-- **The grammar is what is accepted.** A text is read as a program exactly if the grammar
derives that program from the tokens of the text. The derivation is unique: the tokens
derive no other program, and at no depth do two derivations that begin on the same token
take different tokens or give different commands. -/
theorem program?_iff_derivesProgram (text : String) (program : List Command) :
    (program? text = .ok program ↔ DerivesProgram (Token.ofText 1 text) program) ∧
    (∀ other, DerivesProgram (Token.ofText 1 text) program →
      DerivesProgram (Token.ofText 1 text) other → other = program) ∧
    (∀ depth first second rest rest' a b, Derives depth first a → Derives depth second b →
      first ++ rest = second ++ rest' → first = second ∧ a = b) := by
  refine ⟨program?_eq_ok, fun other h ho => ?_, fun _ _ _ _ _ _ _ ha hb h => derives_unique ha hb h⟩
  exact Except.ok.inj ((program?_eq_ok.mpr ho).symm.trans (program?_eq_ok.mpr h))

/-- A block over several lines, with two commands on one of them. -/
theorem program?_iff_derivesProgram_block :
    program? "REPEAT 2 [\n F 5 L\n]\nC 0xf80" =
        .ok [.block 2 [.forward 5, .turn .left], .setColor ⟨255, 136, 0⟩] ∧
      DerivesProgram (Token.ofText 1 "REPEAT 2 [\n F 5 L\n]\nC 0xf80")
        [.block 2 [.forward 5, .turn .left], .setColor ⟨255, 136, 0⟩] := by
  have h : program? "REPEAT 2 [\n F 5 L\n]\nC 0xf80" =
      .ok [.block 2 [.forward 5, .turn .left], .setColor ⟨255, 136, 0⟩] := by decide +kernel
  exact ⟨h, (program?_iff_derivesProgram _ _).1.mp h⟩

end Turtle.Parse
