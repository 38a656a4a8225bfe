import Turtle.Proofs.Acceptance
import Turtle.Proofs.Blame
import Turtle.Proofs.OpenBlocks

/-! Blocks that are never closed. Of all readers only the body of a block fails because the tape
has ended, and it blames the block. So a reading that fails in this way has read commands and
heads of blocks to the end of the tape: all tokens are pending, and the block that is blamed is
the one whose head came last. -/

namespace Turtle.Reader
open Turtle.Number Turtle.Grammar

variable {α β : Type} {tape left : Tape} {opener last : Token} {e : ParseError}

/-- The reader fails with an error. -/
def Fails (reader : Reader α) (tape : Tape) (e : ParseError) : Prop :=
  (reader tape).result = .error e

theorem not_fails_pure {a : α} : ¬ (pure a : Reader α).Fails tape e := nofun

theorem eq_of_fails_fail {e' : ParseError} (h : (fail e' : Reader α).Fails tape e) : e = e' :=
  (Except.error.inj h).symm

/-- Of two readers the first one fails, or the second where the first has stopped. -/
theorem Fails.of_bind {first : Reader α} {second : α → Reader β}
    (h : (first >>= second).Fails tape e) :
    first.Fails tape e ∨ ∃ a mid, first.Reads tape a mid ∧ (second a).Fails mid e := by
  cases hfirst : (first tape).result with
  | error found =>
    rw [Fails, result_bind_error hfirst] at h
    exact .inl (hfirst.trans (congrArg Except.error (Except.error.inj h)))
  | ok a =>
    have hreads : first.Reads tape a (first tape).tape := ⟨hfirst, rfl⟩
    rw [Fails, hreads.result_bind] at h
    exact .inr ⟨a, _, hreads, h⟩

theorem Fails.of_position_bind {use : Tape → Reader β} (h : (position >>= use).Fails tape e) :
    (use tape).Fails tape e := by
  rwa [Fails, position_bind] at h

/-- The reader does not fail because a block is not closed. -/
def Settles (reader : Reader α) : Prop :=
  ∀ {tape opener}, ¬ reader.Fails tape (.unterminated opener)

theorem settles_pure {a : α} : (pure a : Reader α).Settles := not_fails_pure

theorem settles_fail (h : e.kind ≠ .unterminated) : (fail e : Reader α).Settles := by
  intro tape opener hfails
  rw [← eq_of_fails_fail hfails] at h
  exact h rfl

theorem Settles.bind {first : Reader α} {second : α → Reader β} (hfirst : first.Settles)
    (hsecond : ∀ a, (second a).Settles) : (first >>= second).Settles := by
  intro tape opener h
  rcases h.of_bind with h | ⟨a, mid, -, h⟩
  · exact hfirst h
  · exact hsecond a h

/-- An argument may be missing, but to look for it does not fail. -/
theorem settles_argument_bind {use : Option Token → Reader β} (hnone : (use none).Settles)
    (hsome : ∀ word, (use (some word)).Settles) : (argument opener >>= use).Settles := by
  refine Settles.bind (by nofun) fun found => ?_
  cases found with
  | none => exact hnone
  | some word => exact hsome word

theorem settles_natural {limit : Nat} {word : Token} (h : e.kind ≠ .unterminated) :
    (match natural? limit word.text.toList with
      | none => fail e
      | some n => return n : Reader Nat).Settles := by
  cases natural? limit word.text.toList with
  | none => exact settles_fail h
  | some n => exact settles_pure

theorem settles_distance : (distance opener).Settles :=
  settles_argument_bind (settles_fail (by nofun)) fun _ => settles_natural (by nofun)

theorem settles_size : (size opener).Settles := by
  refine settles_argument_bind (settles_fail (by nofun)) fun word => ?_
  dsimp only
  split
  · exact settles_fail (by nofun)
  · split
    · exact settles_pure
    · exact settles_fail (by nofun)

theorem settles_channel {word : Token} : (channel word).Settles := settles_natural (by nofun)

theorem settles_nextChannel : (nextChannel opener).Settles :=
  settles_argument_bind (settles_fail (by nofun)) fun _ => settles_channel

theorem settles_hexColor {word : Token} : (hexColor word).Settles := by
  unfold hexColor
  split
  · exact settles_fail (by nofun)
  · exact Settles.bind (by nofun) fun _ => settles_pure

theorem settles_color : (color opener).Settles := by
  refine settles_argument_bind (settles_fail (by nofun)) fun word => ?_
  dsimp only
  split
  · exact settles_hexColor
  · split
    · exact settles_channel.bind fun _ => settles_nextChannel.bind fun _ =>
        settles_nextChannel.bind fun _ => settles_pure
    · exact settles_fail (by nofun)

theorem settles_blockHead : (blockHead opener).Settles := by
  refine settles_argument_bind (settles_fail (by nofun)) fun word => ?_
  dsimp only
  split
  · exact settles_fail (by nofun)
  · refine settles_argument_bind (settles_fail (by nofun)) fun bracket => ?_
    dsimp only
    split
    · exact settles_pure
    · exact settles_fail (by nofun)

theorem settles_endOfLine {read : Command} : (endOfLine read).Settles := by
  intro tape opener h
  have h := h.of_position_bind
  split at h
  · split at h
    · exact settles_fail (by nofun) h
    · exact not_fails_pure h
  · exact not_fails_pure h

/-- Of all keywords only that of a block begins what can be cut off: its body. -/
theorem exists_of_commandOf {body : Token → Reader (List Command)} {keyword : Keyword}
    (h : (commandOf body opener keyword).Fails tape (.unterminated last)) :
    keyword = .block ∧ ∃ n left, (blockHead opener).Reads tape n left ∧
      (body opener).Fails left (.unterminated last) := by
  cases keyword with
  | forward => exact absurd h (settles_distance.bind fun _ => settles_pure)
  | turn | pen | blockEnd => exact absurd h settles_pure
  | size => exact absurd h (settles_size.bind fun _ => settles_pure)
  | color => exact absurd h (settles_color.bind fun _ => settles_pure)
  | block =>
    rcases h.of_bind with h | ⟨n, left, hhead, h⟩
    · exact absurd h settles_blockHead
    · rcases h.of_bind with h | ⟨_, _, -, h⟩
      · exact ⟨rfl, n, left, hhead, h⟩
      · exact absurd h settles_pure

/-- A command that is cut off is a block whose body is cut off. -/
theorem exists_of_command {body : Token → Reader (List Command)}
    (h : (command body).Fails tape (.unterminated last)) :
    ∃ word count bracket left, tape.Took [word, count, bracket] left ∧
      (∀ depth < deepestBlock, Opens depth word count bracket) ∧
      (body word).Fails left (.unterminated last) := by
  rcases h.of_bind with h | ⟨found, mid, ⟨hresult, hmid⟩, h⟩
  · cases h
  · cases found with
    | none => exact absurd h (Settles.bind (by nofun) fun _ => settles_fail (by nofun))
    | some word =>
      have hword : tape.Took [word] mid :=
        Tape.next_eq_some.mp (Prod.ext (Except.ok.inj hresult) hmid)
      dsimp only at h
      split at h
      · exact absurd h (settles_fail (by nofun))
      · rename_i keyword hk
        rcases h.of_bind with h | ⟨read, _, -, h⟩
        · obtain ⟨rfl, n, left, hhead, hbody⟩ := exists_of_commandOf h
          obtain ⟨count, bracket, ht, hcl, hn, hbl, hbt⟩ := reads_blockHead.mp hhead
          have hopens : ∀ depth < deepestBlock, Opens depth word count bracket := fun _ hdepth =>
            ⟨hdepth, ofWord?_eq_some_iff.mp hk, ⟨hcl, n, hn⟩, hbl, hbt⟩
          exact ⟨word, count, bracket, left, hword.trans ht, hopens, hbody⟩
        · exact absurd h (Settles.bind (by nofun) fun _ => settles_pure)

/-- A reader of commands that is cut off leaves all tokens pending, and blames the last of the
blocks that they open. -/
def LeavesPending (inner : Reader Command) (depth : Nat) : Prop :=
  ∀ {tape last}, inner.Fails tape (.unterminated last) →
    ∃ word count bracket inside openers, tape.rest = word :: count :: bracket :: inside ∧
      Opens depth word count bracket ∧ Pending (depth + 1) inside openers ∧
      (word :: openers).getLast? = some last

/-- Where the tape has ended nothing is pending inside of the block that is blamed. -/
theorem pending_at_end {depth : Nat} (hend : tape.rest = [])
    (h : (fail (.unterminated opener) : Reader α).Fails tape (.unterminated last)) :
    ∃ openers, Pending depth tape.rest openers ∧ (opener :: openers).getLast? = some last := by
  rw [hend, ParseError.unterminated.inj (eq_of_fails_fail h)]
  exact ⟨[], .nil, rfl⟩

/-- A body that is cut off leaves all tokens pending; the block is blamed itself unless one
is open inside of it. -/
theorem pending_of_bodyWithin {inner : Reader Command} {depth : Nat}
    (haccepts : Accepts inner depth) (hinner : LeavesPending inner depth) {most : Nat}
    (hmost : tape.rest.length ≤ most)
    (h : (bodyWithin inner opener most).Fails tape (.unterminated last)) :
    ∃ openers, Pending depth tape.rest openers ∧ (opener :: openers).getLast? = some last := by
  induction most generalizing tape with
  | zero => exact pending_at_end (List.length_eq_zero_iff.mp (by omega)) h
  | succ most ih =>
    have h := h.of_position_bind
    split at h
    · rename_i hend
      exact pending_at_end (List.isEmpty_iff.mp hend) h
    -- either the next command is cut off itself, or it is read and the rest of the body is cut off
    · rcases h.of_bind with h | ⟨read, mid, hread, h⟩
      · obtain ⟨word, count, bracket, inside, openers, hrest, hopens, hinside, hlast⟩ := hinner h
        rw [hrest]
        exact ⟨word :: openers, .block hopens hinside, by simpa using hlast⟩
      · obtain ⟨taken, ht, hitem⟩ := (haccepts ..).mp hread
        split at h
        · exact absurd h not_fails_pure
        · rename_i hne
          rcases h.of_bind with h | ⟨_, _, -, h⟩
          · have hshort := ht.length_lt hitem.ne_nil
            obtain ⟨openers, hpending, hlast⟩ := ih (by omega) h
            rw [ht.rest]
            exact ⟨openers, .cons (hitem.derives hne) hpending, hlast⟩
          · exact absurd h not_fails_pure

theorem leavesPending_commandWithin (levels depth : Nat) (h : levels = deepestBlock - depth) :
    LeavesPending (commandWithin levels) depth := by
  induction levels generalizing depth with
  | zero =>
    -- no level is left: a block is refused for its depth before its body is begun
    intro tape last hfails
    obtain ⟨_, _, _, _, -, -, hbody⟩ := exists_of_command hfails
    exact absurd hbody (settles_fail (by nofun))
  | succ levels ih =>
    intro tape last hfails
    obtain ⟨word, count, bracket, left, ht, hopens, hbody⟩ := exists_of_command hfails
    obtain ⟨openers, hinside, hlast⟩ := pending_of_bodyWithin
      (accepts_commandWithin levels (depth + 1) (by omega)) (ih (depth + 1) (by omega))
      (Nat.le_refl _) hbody
    exact ⟨word, count, bracket, left.rest, openers, ht.rest, hopens depth (by omega), hinside,
      hlast⟩

/-- A statement that is cut off is a block whose body is cut off. -/
theorem pending_of_statement (h : statement.Fails tape (.unterminated last)) :
    ∃ openers, PendingProgram tape.rest openers ∧ openers.getLast? = some last := by
  rcases h.of_bind with h | ⟨read, mid, -, h⟩
  · obtain ⟨word, count, bracket, inside, openers, hrest, hopens, hinside, hlast⟩ :=
      leavesPending_commandWithin deepestBlock 0 rfl h
    rw [hrest]
    exact ⟨word :: openers, .block hopens hinside, hlast⟩
  · split at h
    · exact absurd h.of_position_bind (settles_fail (by nofun))
    · exact absurd h (settles_endOfLine.bind fun _ => settles_pure)

/-- Statements that are cut off are a program that ends inside of a block, and the innermost
open block is blamed. -/
theorem pending_of_statementsWithin {most : Nat} (hmost : tape.rest.length ≤ most)
    (h : (statementsWithin most).Fails tape (.unterminated last)) :
    ∃ openers, PendingProgram tape.rest openers ∧ openers.getLast? = some last := by
  induction most generalizing tape with
  | zero => exact absurd h not_fails_pure
  | succ most ih =>
    have h := h.of_position_bind
    split at h
    · exact absurd h not_fails_pure
    · rcases h.of_bind with h | ⟨read, mid, hread, h⟩
      · exact pending_of_statement h
      · obtain ⟨taken, ht, hd, hline⟩ := reads_statement.mp hread
        rcases h.of_bind with h | ⟨_, _, -, h⟩
        · have hshort := ht.length_lt hd.ne_nil
          obtain ⟨openers, hpending, hlast⟩ := ih (by omega) h
          rw [ht.rest]
          exact ⟨openers, .cons hd hline hpending, hlast⟩
        · exact absurd h not_fails_pure

end Turtle.Reader

namespace Turtle.Parse
open Turtle.Grammar Turtle.Reader

/-- A text that is refused because a block is not closed ends inside of that block: it is the
innermost one that is open. -/
theorem pending_of_program? {text : String} {last : Token}
    (h : program? text = .error (.unterminated last)) :
    ∃ openers, PendingProgram (Token.ofText 1 text) openers ∧ openers.getLast? = some last :=
  pending_of_statementsWithin (Nat.le_refl _) h

end Turtle.Parse
