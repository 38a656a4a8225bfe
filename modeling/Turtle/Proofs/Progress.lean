import Turtle.Proofs.Reading
import Turtle.Parse.Program

/-! Progress. Whatever comes of it, a reader leaves the tape where it was or further on: it takes tokens
off the tape and puts none back, also where it fails. A reader of commands takes the word of the
command at least. Both are shown once for each way of putting readers together, and the readers
follow; so a tape that is used by any sequence of readers still holds the tokens that it has begun
with, and its place among them never falls. -/

namespace Turtle

namespace Tape

variable {tape mid left : Tape} {taken : List Token}

/-- How many tokens have been read. -/
def place (tape : Tape) : Nat := tape.past.length

theorem place_le (tape : Tape) : tape.place ≤ tape.tokens.length := by
  simp [place, tokens]

/-- The token read last is the one before the place. -/
theorem last_eq (tape : Tape) : tape.last = (tape.tokens.take tape.place).getLast? := by
  simp [place, tokens, last]

/-- The token that would be read next is the one at the place. -/
theorem peek_eq (tape : Tape) : tape.peek = tape.tokens[tape.place]? := by
  simp [place, tokens, peek, List.head?_eq_getElem?, List.getElem?_append_right]

/-- `left` is what `tape` becomes by reading on, however far. -/
def LeadsTo (tape left : Tape) : Prop := ∃ taken, tape.Took taken left

/-- `left` is what `tape` becomes by reading on past a token at least. -/
def Passes (tape left : Tape) : Prop := ∃ taken, taken ≠ [] ∧ tape.Took taken left

theorem leadsTo_refl (tape : Tape) : tape.LeadsTo tape := ⟨[], took_nil.mpr rfl⟩

theorem LeadsTo.trans (hf : tape.LeadsTo mid) (hs : mid.LeadsTo left) : tape.LeadsTo left := by
  obtain ⟨first, hf⟩ := hf
  obtain ⟨second, hs⟩ := hs
  exact ⟨first ++ second, hf.trans hs⟩

theorem Passes.leadsTo (h : tape.Passes left) : tape.LeadsTo left := by
  obtain ⟨taken, -, h⟩ := h
  exact ⟨taken, h⟩

theorem Passes.trans_leadsTo (hf : tape.Passes mid) (hs : mid.LeadsTo left) : tape.Passes left := by
  obtain ⟨first, hne, hf⟩ := hf
  obtain ⟨second, hs⟩ := hs
  exact ⟨first ++ second, by simp [hne], hf.trans hs⟩

theorem LeadsTo.place_le (h : tape.LeadsTo left) : tape.place ≤ left.place := by
  obtain ⟨taken, h⟩ := h
  simp [place, h.past]

theorem Passes.place_lt (h : tape.Passes left) : tape.place < left.place := by
  obtain ⟨taken, hne, h⟩ := h
  have hpos := List.length_pos_iff.mpr hne
  simp only [place, h.past, List.length_append, List.length_reverse]
  omega

theorem Passes.shorter (h : tape.Passes left) : left.rest.length < tape.rest.length := by
  obtain ⟨taken, hne, h⟩ := h
  exact h.length_lt hne

/-- Reading on changes nothing about the tokens of the tape. -/
theorem LeadsTo.tokens_eq (h : tape.LeadsTo left) : left.tokens = tape.tokens := by
  obtain ⟨taken, h⟩ := h
  simp [tokens, h.past, h.rest]

theorem leadsTo_next (tape : Tape) : tape.LeadsTo tape.next.2 := by
  obtain ⟨past, rest⟩ := tape
  cases rest with
  | nil => exact leadsTo_refl _
  | cons token rest => exact ⟨[token], next_eq_some.mp rfl⟩

theorem leadsTo_nextOnLine (n : Int) (tape : Tape) : tape.LeadsTo (tape.nextOnLine n).2 := by
  rw [nextOnLine]
  split
  · exact leadsTo_refl _
  · split
    · exact leadsTo_next tape
    · exact leadsTo_refl _

end Tape

namespace Reader
open Turtle.Number

variable {α β : Type} {tape left : Tape} {opener : Token}

/-- Wherever it starts, and whether it succeeds or fails, the reader leaves the tape there or further on. -/
def ReadsOn (reader : Reader α) : Prop := ∀ tape : Tape, tape.LeadsTo (reader tape).tape

/-- Wherever a token is left, and whether it succeeds or fails, the reader takes one at least. -/
def Consumes (reader : Reader α) : Prop := ∀ tape : Tape, tape.rest ≠ [] → tape.Passes (reader tape).tape

theorem Consumes.shorter {reader : Reader α} (h : reader.Consumes) (hmore : tape.rest ≠ [])
    {result : Except ParseError α} {notes : List ParseNote} (hread : reader tape = ⟨result, left, notes⟩) :
    left.rest.length < tape.rest.length := by
  have hpasses := h tape hmore
  rw [hread] at hpasses
  exact hpasses.shorter

theorem readsOn_pure (a : α) : (pure a : Reader α).ReadsOn := Tape.leadsTo_refl

theorem readsOn_fail (e : ParseError) : (fail e : Reader α).ReadsOn := Tape.leadsTo_refl

theorem readsOn_note (n : ParseNote) : (note n).ReadsOn := Tape.leadsTo_refl

theorem readsOn_position : position.ReadsOn := Tape.leadsTo_refl

theorem readsOn_next : next.ReadsOn := Tape.leadsTo_next

theorem consumes_next : next.Consumes := by
  rintro ⟨past, rest⟩ hmore
  cases rest with
  | nil => exact absurd rfl hmore
  | cons token rest => exact ⟨[token], List.cons_ne_nil _ _, Tape.next_eq_some.mp rfl⟩

theorem readsOn_argument : (argument opener).ReadsOn := Tape.leadsTo_nextOnLine _

/-- What two readers leave, one after the other. -/
theorem leadsTo_bind {first : Reader α} {second : α → Reader β} (hsecond : ∀ a, (second a).ReadsOn)
    (tape : Tape) : (first tape).tape.LeadsTo ((first >>= second) tape).tape := by
  cases hfirst : first tape with
  | mk result mid notes =>
    cases result with
    | error e =>
      rw [bind_error second hfirst]
      exact Tape.leadsTo_refl _
    | ok a =>
      rw [bind_ok second hfirst]
      exact hsecond a mid

theorem ReadsOn.bind {first : Reader α} {second : α → Reader β} (hfirst : first.ReadsOn)
    (hsecond : ∀ a, (second a).ReadsOn) : (first >>= second).ReadsOn :=
  fun tape => (hfirst tape).trans (leadsTo_bind hsecond tape)

theorem Consumes.bind {first : Reader α} {second : α → Reader β} (hfirst : first.Consumes)
    (hsecond : ∀ a, (second a).ReadsOn) : (first >>= second).Consumes :=
  fun tape hmore => (hfirst tape hmore).trans_leadsTo (leadsTo_bind hsecond tape)

/-- An argument may be missing; if it is not, a reader goes on behind it. -/
theorem readsOn_argument_bind {use : Option Token → Reader β} (hnone : (use none).ReadsOn)
    (hsome : ∀ word, (use (some word)).ReadsOn) : (argument opener >>= use).ReadsOn := by
  refine readsOn_argument.bind fun found => ?_
  cases found with
  | none => exact hnone
  | some word => exact hsome word

theorem readsOn_natural (limit : Nat) (word : Token) (e : ParseError) :
    (match natural? limit word.text.toList with
      | none => fail e
      | some n => return n : Reader Nat).ReadsOn := by
  cases natural? limit word.text.toList with
  | none => exact readsOn_fail _
  | some n => exact readsOn_pure n

theorem readsOn_distance : (distance opener).ReadsOn :=
  readsOn_argument_bind (readsOn_fail _) fun _ => readsOn_natural _ _ _

theorem readsOn_size : (size opener).ReadsOn := by
  refine readsOn_argument_bind (readsOn_fail _) fun word => ?_
  dsimp only
  split
  · exact readsOn_fail _
  · split
    · exact readsOn_pure _
    · exact readsOn_fail _

theorem readsOn_channel (word : Token) : (channel word).ReadsOn := readsOn_natural _ _ _

theorem readsOn_nextChannel : (nextChannel opener).ReadsOn :=
  readsOn_argument_bind (readsOn_fail _) readsOn_channel

theorem readsOn_hexColor (word : Token) : (hexColor word).ReadsOn := by
  unfold hexColor
  split
  · exact readsOn_fail _
  · exact (readsOn_note _).bind fun _ => readsOn_pure _

theorem readsOn_color : (color opener).ReadsOn := by
  refine readsOn_argument_bind (readsOn_fail _) fun word => ?_
  dsimp only
  split
  · exact readsOn_hexColor word
  · split
    · exact (readsOn_channel word).bind fun _ => readsOn_nextChannel.bind fun _ =>
        readsOn_nextChannel.bind fun _ => readsOn_pure _
    · exact readsOn_fail _

theorem readsOn_blockHead : (blockHead opener).ReadsOn := by
  refine readsOn_argument_bind (readsOn_fail _) fun word => ?_
  dsimp only
  split
  · exact readsOn_fail _
  · refine readsOn_argument_bind (readsOn_fail _) fun bracket => ?_
    dsimp only
    split
    · exact readsOn_pure _
    · exact readsOn_fail _

section
variable {body : Token → Reader (List Command)} {inner : Reader Command}

theorem readsOn_commandOf (hbody : (body opener).ReadsOn) (keyword : Keyword) :
    (commandOf body opener keyword).ReadsOn := by
  cases keyword with
  | forward => exact readsOn_distance.bind fun _ => readsOn_pure _
  | turn | pen | blockEnd => exact readsOn_pure _
  | size => exact readsOn_size.bind fun _ => readsOn_pure _
  | color => exact readsOn_color.bind fun _ => readsOn_pure _
  | block => exact readsOn_blockHead.bind fun _ => hbody.bind fun _ => readsOn_pure _

/-- A command has a word, which is taken whatever follows it. -/
theorem consumes_command (hbody : ∀ opener, (body opener).ReadsOn) : (command body).Consumes := by
  refine consumes_next.bind fun found => ?_
  cases found with
  | none => exact readsOn_position.bind fun _ => readsOn_fail _
  | some opener =>
    dsimp only
    split
    · exact readsOn_fail _
    · exact (readsOn_commandOf (hbody opener) _).bind fun _ => (readsOn_note _).bind fun _ =>
        readsOn_pure _

theorem readsOn_command (hbody : ∀ opener, (body opener).ReadsOn) : (command body).ReadsOn := by
  rintro ⟨past, rest⟩
  cases rest with
  | nil => exact Tape.leadsTo_refl _
  | cons token rest => exact (consumes_command hbody _ (List.cons_ne_nil _ _)).leadsTo

theorem readsOn_bodyWithin (hinner : inner.ReadsOn) (most : Nat) :
    (bodyWithin inner opener most).ReadsOn := by
  induction most with
  | zero => exact readsOn_fail _
  | succ most ih =>
    refine readsOn_position.bind fun tape => ?_
    split
    · exact readsOn_fail _
    · refine hinner.bind fun read => ?_
      split
      · exact readsOn_pure _
      · exact ih.bind fun _ => readsOn_pure _

theorem readsOn_blockBody (hinner : inner.ReadsOn) : (blockBody inner opener).ReadsOn :=
  fun tape => readsOn_bodyWithin hinner _ tape

theorem readsOn_commandWithin (levels : Nat) : (commandWithin levels).ReadsOn := by
  induction levels with
  | zero => exact readsOn_command fun _ => readsOn_fail _
  | succ levels ih => exact readsOn_command fun _ => readsOn_blockBody ih

theorem consumes_commandWithin (levels : Nat) : (commandWithin levels).Consumes := by
  cases levels with
  | zero => exact consumes_command fun _ => readsOn_fail _
  | succ levels => exact consumes_command fun _ => readsOn_blockBody (readsOn_commandWithin levels)

theorem readsOn_commandAt (depth : Int) : (commandAt depth).ReadsOn := readsOn_commandWithin _

theorem consumes_commandAt (depth : Int) : (commandAt depth).Consumes := consumes_commandWithin _

theorem readsOn_endOfLine (read : Command) : (endOfLine read).ReadsOn := by
  refine readsOn_position.bind fun tape => ?_
  split
  · split
    · exact readsOn_fail _
    · exact readsOn_pure _
  · exact readsOn_pure _

theorem consumes_statement : statement.Consumes := by
  refine (consumes_commandAt 0).bind fun read => ?_
  split
  · exact readsOn_position.bind fun _ => readsOn_fail _
  · exact (readsOn_endOfLine _).bind fun _ => readsOn_pure _

end

end Reader

end Turtle
