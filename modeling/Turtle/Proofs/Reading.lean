import Turtle.Parse.Reader

/-! Successful readings. `Reads` says that a reader ends with a value on a tape, whatever it
has noted, and `Took` that one tape is another with some tokens read off it. The readers
that follow one another are taken apart by `reads_bind`; a reader's own statement then
names the tokens that it takes and never mentions the tape's representation. -/

namespace Turtle

namespace Tape

/-- `left` is what `tape` becomes when the tokens `taken` are read. -/
structure Took (tape : Tape) (taken : List Token) (left : Tape) : Prop where
  rest : tape.rest = taken ++ left.rest
  past : left.past = taken.reverse ++ tape.past

variable {tape mid left : Tape} {first second taken : List Token} {token : Token}

theorem took_nil : tape.Took [] left ↔ left = tape := by
  constructor
  · intro h
    obtain ⟨hr, hp⟩ := h
    cases tape
    cases left
    simp_all
  · rintro rfl
    exact ⟨rfl, rfl⟩

theorem Took.trans (hf : tape.Took first mid) (hs : mid.Took second left) :
    tape.Took (first ++ second) left :=
  ⟨by rw [hf.rest, hs.rest, List.append_assoc],
    by rw [hs.past, hf.past, List.reverse_append, List.append_assoc]⟩

/-- What is taken in two parts is taken one after the other. -/
theorem took_append :
    tape.Took (first ++ second) left ↔ ∃ mid, tape.Took first mid ∧ mid.Took second left := by
  constructor
  · intro h
    obtain ⟨hr, hp⟩ := h
    refine ⟨⟨first.reverse ++ tape.past, second ++ left.rest⟩, ⟨?_, rfl⟩, ⟨rfl, ?_⟩⟩
    · rw [hr, List.append_assoc]
    · rw [hp, List.reverse_append, List.append_assoc]
  · intro h
    obtain ⟨mid, hf, hs⟩ := h
    exact hf.trans hs

theorem took_cons :
    tape.Took (token :: taken) left ↔ ∃ mid, tape.Took [token] mid ∧ mid.Took taken left := by
  rw [← List.singleton_append, took_append]

theorem Took.length_le (h : tape.Took taken left) : taken.length ≤ tape.rest.length := by
  rw [h.rest, List.length_append]
  omega

theorem Took.length_lt (h : tape.Took taken left) (hne : taken ≠ []) :
    left.rest.length < tape.rest.length := by
  have hpos := List.length_pos_iff.mpr hne
  rw [h.rest, List.length_append]
  omega

theorem next_eq_some : tape.next = (some token, left) ↔ tape.Took [token] left := by
  obtain ⟨past, rest⟩ := tape
  cases rest with
  | nil =>
    constructor
    · intro h
      cases h
    · intro h
      have := h.rest
      simp at this
  | cons found rest =>
    simp only [next, Prod.mk.injEq, Option.some.injEq]
    constructor
    · intro h
      obtain ⟨rfl, rfl⟩ := h
      exact ⟨rfl, rfl⟩
    · intro h
      obtain ⟨hr, hp⟩ := h
      obtain ⟨past', rest'⟩ := left
      simp_all

theorem nextOnLine_eq_some {n : Int} :
    tape.nextOnLine n = (some token, left) ↔ token.lineNumber = n ∧ tape.Took [token] left := by
  rw [nextOnLine, ← next_eq_some]
  obtain ⟨past, rest⟩ := tape
  cases rest with
  | nil =>
    constructor
    · intro h
      cases h
    · intro h
      obtain ⟨-, h⟩ := h
      cases h
  | cons found rest =>
    simp only [peek, List.head?_cons, next]
    split
    · rename_i hn
      constructor
      · intro h
        obtain ⟨hf, -⟩ := Prod.mk.inj h
        exact ⟨Option.some.inj hf ▸ hn, h⟩
      · exact fun h => h.2
    · rename_i hn
      constructor
      · intro h
        cases h
      · intro h
        obtain ⟨ht, h⟩ := h
        obtain ⟨hf, -⟩ := Prod.mk.inj h
        exact absurd ht (Option.some.inj hf ▸ hn)

end Tape

namespace Reader

variable {α β : Type} {tape left : Tape}

/-- The reader succeeds with a value and leaves a tape. -/
def Reads (reader : Reader α) (tape : Tape) (a : α) (left : Tape) : Prop :=
  (reader tape).result = .ok a ∧ (reader tape).tape = left

/-- A reader has one outcome. -/
theorem Reads.unique {reader : Reader α} {a b : α} {other : Tape} (h : reader.Reads tape a left)
    (ho : reader.Reads tape b other) : a = b ∧ left = other :=
  ⟨Except.ok.inj (h.1.symm.trans ho.1), h.2.symm.trans ho.2⟩

theorem reads_pure {a b : α} : (pure a : Reader α).Reads tape b left ↔ b = a ∧ left = tape := by
  simp only [Reads, pure_apply, Except.ok.injEq]
  constructor <;> rintro ⟨rfl, rfl⟩ <;> exact ⟨rfl, rfl⟩

theorem reads_bind {first : Reader α} {second : α → Reader β} {b : β} :
    (first >>= second).Reads tape b left ↔
      ∃ a mid, first.Reads tape a mid ∧ (second a).Reads mid b left := by
  unfold Reads
  cases hf : first tape with
  | mk result mid notes =>
    cases result with
    | error e =>
      rw [bind_error second hf]
      constructor
      · intro h
        obtain ⟨h, -⟩ := h
        cases h
      · intro h
        obtain ⟨a, mid, ⟨h, -⟩, -⟩ := h
        cases h
    | ok a =>
      rw [bind_ok second hf]
      constructor
      · intro h
        obtain ⟨hr, ht⟩ := h
        exact ⟨a, mid, ⟨rfl, rfl⟩, hr, ht⟩
      · intro h
        obtain ⟨b, mid, ⟨⟨⟩, rfl⟩, hr, ht⟩ := h
        exact ⟨hr, ht⟩

/-- After a success the result is that of the second reader. -/
theorem Reads.result_bind {first : Reader α} {a : α} (h : first.Reads tape a left)
    (second : α → Reader β) : ((first >>= second) tape).result = (second a left).result := by
  obtain ⟨hresult, hleft⟩ := h
  cases hf : first tape with
  | mk result mid notes =>
    rw [hf] at hresult hleft
    subst hresult hleft
    rw [bind_ok second hf]

theorem result_bind_error {first : Reader α} {e : ParseError}
    (h : (first tape).result = .error e) (second : α → Reader β) :
    ((first >>= second) tape).result = .error e := by
  cases hf : first tape with
  | mk result mid notes =>
    rw [hf] at h
    subst h
    rw [bind_error second hf]

/-- A value that is made of a result changes that result alone. -/
theorem bind_pure_apply (first : Reader α) (make : α → β) :
    (first >>= fun a => pure (make a)) tape =
      ⟨(first tape).result.map make, (first tape).tape, (first tape).notes⟩ := by
  cases h : first tape with
  | mk result left notes =>
    cases result with
    | error e => exact bind_error _ h
    | ok a =>
      rw [bind_ok _ h]
      simp [Except.map]

theorem result_bind_pure (first : Reader α) (make : α → β) :
    ((first >>= fun a => pure (make a)) tape).result = (first tape).result.map make := by
  rw [bind_pure_apply]

theorem not_reads_fail {e : ParseError} {a : α} : ¬ (fail e : Reader α).Reads tape a left := by
  intro h
  cases h.1

theorem reads_note {n : ParseNote} {u : Unit} : (note n).Reads tape u left ↔ left = tape :=
  ⟨fun h => h.2.symm, fun h => ⟨rfl, h.symm⟩⟩

/-- A note that is taken on the way changes nothing. -/
theorem reads_note_bind {n : ParseNote} {second : Unit → Reader β} {b : β} :
    (note n >>= second).Reads tape b left ↔ (second ()).Reads tape b left := by
  rw [reads_bind]
  constructor
  · intro h
    obtain ⟨_, mid, hn, hs⟩ := h
    rwa [reads_note.mp hn] at hs
  · exact fun h => ⟨(), tape, reads_note.mpr rfl, h⟩

/-- To look at the tape takes nothing off it. -/
theorem position_bind (second : Tape → Reader β) :
    (position >>= second) tape = second tape tape := by
  have hposition : position tape = ⟨.ok tape, tape, []⟩ := rfl
  rw [bind_ok second hposition]
  rfl

theorem reads_position_bind {second : Tape → Reader β} {b : β} :
    (position >>= second).Reads tape b left ↔ (second tape).Reads tape b left := by
  simp only [Reads, position_bind]

/-- A reader that needs a next token takes one first. -/
theorem reads_next_bind {use : Option Token → Reader β} {b : β}
    (hnone : ∀ tape, ¬ (use none).Reads tape b left) :
    (next >>= use).Reads tape b left ↔
      ∃ word mid, tape.Took [word] mid ∧ (use (some word)).Reads mid b left := by
  rw [reads_bind]
  constructor
  · intro h
    obtain ⟨found, mid, ⟨hr, ht⟩, hs⟩ := h
    have hnext : tape.next = (found, mid) := Prod.ext (Except.ok.inj hr) ht
    cases found with
    | none => exact absurd hs (hnone mid)
    | some word => exact ⟨word, mid, Tape.next_eq_some.mp hnext, hs⟩
  · intro h
    obtain ⟨word, mid, ht, hs⟩ := h
    have hnext := Tape.next_eq_some.mpr ht
    exact ⟨some word, mid, ⟨by simp [next, hnext], by simp [next, hnext]⟩, hs⟩

/-- A reader that needs an argument takes a word from the line of its command first. -/
theorem reads_argument_bind {opener : Token} {use : Option Token → Reader β} {b : β}
    (hnone : ∀ tape, ¬ (use none).Reads tape b left) :
    (argument opener >>= use).Reads tape b left ↔
      ∃ word mid, word.lineNumber = opener.lineNumber ∧ tape.Took [word] mid ∧
        (use (some word)).Reads mid b left := by
  rw [reads_bind]
  constructor
  · intro h
    obtain ⟨found, mid, ⟨hr, ht⟩, hs⟩ := h
    have hnext : tape.nextOnLine opener.lineNumber = (found, mid) :=
      Prod.ext (Except.ok.inj hr) ht
    cases found with
    | none => exact absurd hs (hnone mid)
    | some word =>
      obtain ⟨hline, htook⟩ := Tape.nextOnLine_eq_some.mp hnext
      exact ⟨word, mid, hline, htook, hs⟩
  · intro h
    obtain ⟨word, mid, hline, ht, hs⟩ := h
    have hnext := Tape.nextOnLine_eq_some.mpr ⟨hline, ht⟩
    exact ⟨some word, mid, ⟨by simp [argument, hnext], by simp [argument, hnext]⟩, hs⟩

/-- A reader that makes its value of one word takes that word. -/
theorem reads_word {opener : Token} {use : Option Token → Reader β} {b : β} {means : Token → Prop}
    (hnone : ∀ tape, ¬ (use none).Reads tape b left)
    (hsome : ∀ word tape, (use (some word)).Reads tape b left ↔ left = tape ∧ means word) :
    (argument opener >>= use).Reads tape b left ↔
      ∃ word, tape.Took [word] left ∧ word.lineNumber = opener.lineNumber ∧ means word := by
  rw [reads_argument_bind hnone]
  constructor
  · intro h
    obtain ⟨word, mid, hline, ht, h⟩ := h
    obtain ⟨rfl, hmeans⟩ := (hsome word mid).mp h
    exact ⟨word, ht, hline, hmeans⟩
  · intro h
    obtain ⟨word, ht, hline, hmeans⟩ := h
    exact ⟨word, left, hline, ht, (hsome word left).mpr ⟨rfl, hmeans⟩⟩

end Reader

end Turtle
