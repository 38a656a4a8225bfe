import Turtle.Proofs.Correspondence
import Turtle.Proofs.Progress

/-! Nested calls. The loops that read bodies and programs are taken here without the bounds that the
readers carry: a `Loop` goes on for as long as its tape does. It always comes to an end, because
each pass takes a token at least, and the readers do what it does. The tapes on which its passes
start are those of the nested calls of the reader of commands. A call depends on these alone, each
is one block deeper and starts further on, and below the deepest block there are none. -/

namespace Turtle

/-- Whether this is the end of a block, which a body reads as a command and does not keep. -/
def Command.isBlockEnd : Command → Bool
  | .blockEnd => true
  | _ => false

/-- The outcome with one more command in front, and the notes that were taken for it. -/
def Outcome.prepend (read : Command) (notes : List ParseNote) (later : Outcome (List Command)) :
    Outcome (List Command) :=
  ⟨later.result.map (read :: ·), later.tape, notes ++ later.notes⟩

namespace Reader
open Turtle.Grammar Turtle.Number

/-- One use of a tape. -/
inductive TapeUse where
  | next
  | peek
  | argument (opener : Token)
  | color (opener : Token)
  | command (depth : Int)

namespace TapeUse

/-- The tape behind a use, whether it has succeeded or failed. -/
def after (tape : Tape) : TapeUse → Tape
  | next => (Reader.next tape).tape
  | peek => (Reader.position tape).tape
  | argument opener => (Reader.argument opener tape).tape
  | color opener => (Reader.color opener tape).tape
  | command depth => (commandAt depth tape).tape

/-- The tape behind several uses, one after the other. -/
def afterAll (uses : List TapeUse) (tape : Tape) : Tape := uses.foldl after tape

theorem leadsTo_after (tape : Tape) (use : TapeUse) : tape.LeadsTo (use.after tape) := by
  cases use with
  | next => exact readsOn_next tape
  | peek => exact readsOn_position tape
  | argument opener => exact readsOn_argument tape
  | color opener => exact readsOn_color tape
  | command depth => exact readsOn_commandAt depth tape

theorem leadsTo_afterAll (uses : List TapeUse) (tape : Tape) : tape.LeadsTo (afterAll uses tape) := by
  induction uses generalizing tape with
  | nil => exact Tape.leadsTo_refl tape
  | cons use rest ih => exact (leadsTo_after tape use).trans (ih (use.after tape))

end TapeUse

variable {α β : Type} {tape left : Tape} {opener : Token}

/-- Readers that follow one another do the same as others that do the same one by one. -/
theorem bind_eq_bind {first first' : Reader α} {second second' : α → Reader β}
    (hfirst : first tape = first' tape)
    (hsecond : ∀ a left, first'.Reads tape a left → second a left = second' a left) :
    (first >>= second) tape = (first' >>= second') tape := by
  cases h : first' tape with
  | mk result left notes =>
    have hnew := hfirst.trans h
    cases result with
    | error e => rw [bind_error second hnew, bind_error second' h]
    | ok a =>
      have hreads : first'.Reads tape a left := by simp [Reads, h]
      rw [bind_ok second hnew, bind_ok second' h, hsecond a left hreads]

/-! Loops without a bound. -/

/-- Reads one command in each pass, up to one that closes the loop or to the end of the tape, where
the outcome is that of `exhausted`. The tapes are those on which the passes start. -/
inductive Loop (exhausted : Reader (List Command)) (closes : Command → Bool) (inner : Reader Command) :
    Tape → List Tape → Outcome (List Command) → Prop
  | exhausted {tape : Tape} : tape.rest = [] → Loop exhausted closes inner tape [] (exhausted tape)
  | refused {tape left : Tape} {e : ParseError} {notes : List ParseNote} : tape.rest ≠ [] →
      inner tape = ⟨.error e, left, notes⟩ →
      Loop exhausted closes inner tape [tape] ⟨.error e, left, notes⟩
  | closed {tape left : Tape} {read : Command} {notes : List ParseNote} : tape.rest ≠ [] →
      inner tape = ⟨.ok read, left, notes⟩ → closes read = true →
      Loop exhausted closes inner tape [tape] ⟨.ok [], left, notes⟩
  | next {tape left : Tape} {read : Command} {notes : List ParseNote} {starts : List Tape}
      {later : Outcome (List Command)} : tape.rest ≠ [] →
      inner tape = ⟨.ok read, left, notes⟩ → closes read = false →
      Loop exhausted closes inner left starts later →
      Loop exhausted closes inner tape (tape :: starts) (later.prepend read notes)

section
variable {exhausted : Reader (List Command)} {closes : Command → Bool} {inner : Reader Command}
  {starts : List Tape} {outcome : Outcome (List Command)}

/-- Every pass starts where the loop has started or further on. -/
theorem Loop.leadsTo (h : Loop exhausted closes inner tape starts outcome) (hinner : inner.ReadsOn)
    {start : Tape} (hstart : start ∈ starts) : tape.LeadsTo start := by
  induction h with
  | exhausted => cases hstart
  | refused | closed =>
    obtain rfl := List.mem_singleton.mp hstart
    exact Tape.leadsTo_refl _
  | @next tape left read notes starts later _ hread _ _ ih =>
    rcases List.mem_cons.mp hstart with rfl | hstart
    · exact Tape.leadsTo_refl _
    · have hleft := hinner tape
      rw [hread] at hleft
      exact hleft.trans (ih hstart)

/-- A loop makes no more passes than there are tokens. -/
theorem Loop.length_le (h : Loop exhausted closes inner tape starts outcome)
    (hinner : inner.Consumes) : starts.length ≤ tape.rest.length := by
  induction h with
  | exhausted => exact Nat.zero_le _
  | refused hmore | closed hmore => exact List.length_pos_iff.mpr hmore
  | @next tape left read notes starts later hmore hread _ _ ih =>
    have hshorter := hinner.shorter hmore hread
    rw [List.length_cons]
    omega

/-- A loop with tokens ahead makes a pass at once. -/
theorem Loop.start_mem (h : Loop exhausted closes inner tape starts outcome) (hmore : tape.rest ≠ []) :
    tape ∈ starts := by
  cases h with
  | exhausted hend => exact absurd hend hmore
  | refused | closed | next => exact List.mem_cons_self

/-- Behind a command that does not close it the loop goes on. -/
theorem Loop.later (h : Loop exhausted closes inner tape starts outcome) (hmore : tape.rest ≠ [])
    {read : Command} (hread : inner.Reads tape read left) (hcloses : closes read = false) :
    ∃ more later, starts = tape :: more ∧ Loop exhausted closes inner left more later := by
  obtain ⟨hresult, hleft⟩ := hread
  cases h with
  | exhausted hend => exact absurd hend hmore
  | refused _ hrefused =>
    rw [hrefused] at hresult
    cases hresult
  | closed _ hfound hfoundCloses =>
    rw [hfound] at hresult
    obtain rfl := Except.ok.inj hresult
    rw [hcloses] at hfoundCloses
    cases hfoundCloses
  | next _ hfound _ hlater =>
    rw [hfound] at hleft
    obtain rfl := hleft
    exact ⟨_, _, rfl, hlater⟩

/-- A reader with a bound that suffices does what the loop does. -/
theorem exists_loop {run : Nat → Reader (List Command)} (hinner : inner.Consumes)
    (hend : ∀ most tape, tape.rest = [] → run most tape = exhausted tape)
    (hmore : ∀ most tape, tape.rest ≠ [] → run (most + 1) tape =
      (inner >>= fun read =>
        if closes read then pure [] else run most >>= fun more => pure (read :: more)) tape)
    {most : Nat} (hmost : tape.rest.length ≤ most) :
    ∃ starts, Loop exhausted closes inner tape starts (run most tape) := by
  induction most generalizing tape with
  | zero =>
    have hrest := List.length_eq_zero_iff.mp (Nat.le_zero.mp hmost)
    rw [hend 0 tape hrest]
    exact ⟨[], .exhausted hrest⟩
  | succ most ih =>
    by_cases hrest : tape.rest = []
    · rw [hend _ tape hrest]
      exact ⟨[], .exhausted hrest⟩
    · rw [hmore most tape hrest]
      cases hread : inner tape with
      | mk result left notes =>
        have hshorter := hinner.shorter hrest hread
        cases result with
        | error e =>
          rw [bind_error _ hread]
          exact ⟨[tape], .refused hrest hread⟩
        | ok read =>
          rw [bind_ok _ hread]
          cases hcloses : closes read with
          | true => exact ⟨[tape], by simpa using .closed hrest hread hcloses⟩
          | false =>
            have hleft : left.rest.length ≤ most := by omega
            obtain ⟨starts, hloop⟩ := ih hleft
            refine ⟨tape :: starts, ?_⟩
            simpa [bind_pure_apply, Outcome.prepend] using hloop.next hrest hread hcloses

/-- The body of a block, read by a loop that goes on up to the end of the block. -/
def BodyLoop (inner : Reader Command) (opener : Token) :
    Tape → List Tape → Outcome (List Command) → Prop :=
  Loop (fail (.unterminated opener)) Command.isBlockEnd inner

/-- Before the end of the tape comes a command, and unless it closes the block the others. -/
theorem bodyWithin_of_rest (most : Nat) (hmore : tape.rest ≠ []) :
    bodyWithin inner opener (most + 1) tape = (inner >>= fun read =>
      if read.isBlockEnd then pure []
      else bodyWithin inner opener most >>= fun more => pure (read :: more)) tape := by
  have hend : ¬ tape.atEnd = true := by simpa [Tape.atEnd] using hmore
  rw [bodyWithin, position_bind, if_neg hend]
  refine bind_eq_bind rfl fun read left _ => ?_
  cases read <;> rfl

/-- The loop that reads a body comes to an end, and it is what reads the body. -/
theorem exists_bodyLoop (hinner : inner.Consumes) (opener : Token) (tape : Tape) :
    ∃ starts, BodyLoop inner opener tape starts (blockBody inner opener tape) :=
  exists_loop hinner (fun most _ => Correspondence.bodyWithin_at_end most)
    (fun most _ => bodyWithin_of_rest most) (Nat.le_refl _)

/-- Readers of commands that agree where the passes of a loop start read the same body. -/
theorem BodyLoop.bodyWithin_eq {other : Reader Command} (h : BodyLoop inner opener tape starts outcome)
    (hother : ∀ start ∈ starts, other start = inner start) (most : Nat) :
    bodyWithin other opener most tape = bodyWithin inner opener most tape := by
  induction most generalizing tape starts outcome with
  | zero => rfl
  | succ most ih =>
    by_cases hmore : tape.rest = []
    · rw [Correspondence.bodyWithin_at_end _ hmore, Correspondence.bodyWithin_at_end _ hmore]
    · rw [bodyWithin_of_rest most hmore, bodyWithin_of_rest most hmore]
      refine bind_eq_bind (hother tape (h.start_mem hmore)) fun read left hread => ?_
      split
      · rfl
      · rename_i hopen
        obtain ⟨more, later, rfl, hlater⟩ := h.later hmore hread (by simpa using hopen)
        have hrest := ih hlater fun start hstart => hother start (List.mem_cons_of_mem _ hstart)
        exact bind_eq_bind hrest fun _ _ _ => rfl

/-- All statements of a tape, read by a loop that goes on up to the end of the tape. -/
def ProgramLoop : Tape → List Tape → Outcome (List Command) → Prop :=
  Loop (pure []) (fun _ => false) statement

/-- The loop that reads a program comes to an end, and it is what reads the program. -/
theorem exists_programLoop (tape : Tape) :
    ∃ starts, ProgramLoop tape starts (statements tape) :=
  exists_loop consumes_statement (fun most _ => Correspondence.statementsWithin_at_end most)
    (fun _ _ => Correspondence.statementsWithin_of_rest) (Nat.le_refl _)

end

/-! Calls of the reader of commands. -/

/-- The body of a block at a depth. Below the deepest block it is refused before anything is read. -/
def bodyAt (depth : Int) (inner : Reader Command) (opener : Token) : Reader (List Command) :=
  if depth < deepestBlock then blockBody inner opener else fail (.nestingTooDeep opener)

/-- A command at a depth calls for the commands of a body at the next one. -/
theorem commandAt_eq (depth : Int) :
    commandAt depth = command (bodyAt depth (commandAt (depth + 1))) := by
  by_cases hdepth : depth < deepestBlock
  · have hlevels : ((deepestBlock : Int) - depth).toNat =
        ((deepestBlock : Int) - (depth + 1)).toNat + 1 := by omega
    have hbody : bodyAt depth (commandAt (depth + 1)) = blockBody (commandAt (depth + 1)) :=
      funext fun _ => if_pos hdepth
    rw [hbody, commandAt, hlevels]
    rfl
  · have hlevels : ((deepestBlock : Int) - depth).toNat = 0 := by omega
    have hbody : bodyAt depth (commandAt (depth + 1)) = fun opener => fail (.nestingTooDeep opener) :=
      funext fun _ => if_neg hdepth
    rw [hbody, commandAt, hlevels]
    rfl

theorem reads_next : next.Reads tape (some opener) left ↔ tape.Took [opener] left := by
  rw [← Tape.next_eq_some, Prod.ext_iff, Reads]
  simp [next]

/-- The word of a block, its count and its bracket are read off the tape. -/
def TakesHead (tape : Tape) (opener : Token) (left : Tape) : Prop :=
  ∃ mid count, tape.Took [opener] mid ∧ Spells opener .block ∧ (blockHead opener).Reads mid count left

theorem TakesHead.passes (h : TakesHead tape opener left) : tape.Passes left := by
  obtain ⟨mid, count, htook, -, hcount⟩ := h
  have hleft : mid.LeadsTo (blockHead opener mid).tape := readsOn_blockHead mid
  rw [hcount.2] at hleft
  exact Tape.Passes.trans_leadsTo ⟨[opener], List.cons_ne_nil _ _, htook⟩ hleft

/-- What a command is depends on the reader of bodies only where the head of a block has been read. -/
theorem command_eq_command {body other : Token → Reader (List Command)}
    (h : ∀ opener left, TakesHead tape opener left → body opener left = other opener left) :
    command body tape = command other tape := by
  refine bind_eq_bind rfl fun found mid hnext => ?_
  cases found with
  | none => rfl
  | some opener =>
    dsimp only
    cases hkeyword : Keyword.ofWord? opener.text with
    | none => rfl
    | some keyword =>
      refine bind_eq_bind ?_ fun _ _ _ => rfl
      cases keyword with
      | block =>
        refine bind_eq_bind rfl fun count left hcount => ?_
        have hhead : TakesHead tape opener left :=
          ⟨mid, count, reads_next.mp hnext, ofWord?_eq_some_iff.mp hkeyword, hcount⟩
        exact bind_eq_bind (h opener left hhead) fun _ _ _ => rfl
      | forward | turn | pen | size | color | blockEnd => rfl

/-- A call of the reader of commands: how many blocks are open around it, and its tape. -/
structure Call where
  depth : Int
  tape : Tape

namespace Call

/-- One call makes another where it has opened a block that is not too deep, and starts a pass of the
loop over its body. -/
def Makes (call nested : Call) : Prop :=
  call.depth < deepestBlock ∧ nested.depth = call.depth + 1 ∧
    ∃ opener left starts outcome, TakesHead call.tape opener left ∧
      BodyLoop (commandAt nested.depth) opener left starts outcome ∧ nested.tape ∈ starts

/-- The calls that come of a call outside of blocks, each with how many calls it is inside of. -/
inductive Inside (tape : Tape) : Nat → Call → Prop
  | outer : Inside tape 0 ⟨0, tape⟩
  | made {levels : Nat} {call nested : Call} : Inside tape levels call → call.Makes nested →
      Inside tape (levels + 1) nested

variable {call nested : Call}

/-- A call starts further on than the one that makes it. -/
theorem Makes.place_lt (h : call.Makes nested) : call.tape.place < nested.tape.place := by
  obtain ⟨-, -, opener, left, starts, outcome, hhead, hloop, hstart⟩ := h
  have hlater := hloop.leadsTo (readsOn_commandAt _) hstart
  exact (hhead.passes.trans_leadsTo hlater).place_lt

/-- The depth of a call is how many calls it is inside of, and never passes the deepest block. -/
theorem Inside.depth_le {levels : Nat} (h : Inside tape levels call) :
    call.depth = levels ∧ levels ≤ deepestBlock := by
  induction h with
  | outer => exact ⟨rfl, Nat.zero_le _⟩
  | @made levels call nested _ hmakes ih =>
    obtain ⟨hdepth, hnested, -⟩ := hmakes
    omega

/-- What a call does depends on the calls that it makes, and on no others. -/
theorem command_eq_commandAt {other : Reader Command}
    (h : ∀ nested, call.Makes nested → other nested.tape = commandAt nested.depth nested.tape) :
    command (bodyAt call.depth other) call.tape = commandAt call.depth call.tape := by
  rw [commandAt_eq]
  refine command_eq_command fun opener left hhead => ?_
  unfold bodyAt
  split
  · rename_i hdepth
    obtain ⟨starts, hloop⟩ := exists_bodyLoop (consumes_commandAt (call.depth + 1)) opener left
    refine hloop.bodyWithin_eq (fun start hstart => ?_) _
    exact h ⟨call.depth + 1, start⟩ ⟨hdepth, rfl, opener, left, starts, _, hhead, hloop, hstart⟩
  · rfl

end Call

/-- A program that is read leaves no token. -/
theorem place_of_program?_ok {text : String} {program : List Command}
    (h : Parse.program? text = .ok program) :
    (Parse.program text).tape.place = (Token.ofText 1 text).length := by
  let tape := Tape.ofTokens (Token.ofText 1 text)
  have hreads : (statementsWithin tape.rest.length).Reads tape program (Parse.program text).tape :=
    ⟨h, rfl⟩
  obtain ⟨htook, -⟩ := (reads_statementsWithin (Nat.le_refl _)).mp hreads
  simp [Tape.place, htook.past, tape, Tape.ofTokens]

/-- **Reading moves on.** However a tape has been used, and whether or not the uses have failed, it
holds the tokens that it was given, its place is one among them and later uses do not bring it back;
the last token is the one before the place, the next is the one at it, and looking at it changes nothing.

Where a token is left every call of the reader of commands takes one. The calls that come of a call
outside of blocks are at depths up to 64, each starts further on than the one that makes it, and
a call depends on no others. The loops over bodies and programs come to an end, in no more passes
than there are tokens, and a program that is read leaves none of them. -/
theorem calls_move_on :
    (∀ (tokens : List Token) (first later : List TapeUse),
      let tape := TapeUse.afterAll first (Tape.ofTokens tokens)
      tape.tokens = tokens ∧ tape.place ≤ tokens.length ∧
        tape.place ≤ (TapeUse.afterAll later tape).place ∧
        tape.last = (tokens.take tape.place).getLast? ∧ tape.peek = tokens[tape.place]? ∧
        TapeUse.after tape .peek = tape) ∧
    (∀ depth tape, tape.rest ≠ [] → tape.place < (commandAt depth tape).tape.place) ∧
    (∀ tape levels call, Call.Inside tape levels call → call.depth = levels ∧ levels ≤ 64 ∧
      ∀ nested, Call.Makes call nested → nested.depth ≤ 64 ∧ call.tape.place < nested.tape.place) ∧
    (∀ call other, (∀ nested, Call.Makes call nested →
        other nested.tape = commandAt nested.depth nested.tape) →
      command (bodyAt call.depth other) call.tape = commandAt call.depth call.tape) ∧
    (∀ depth opener tape, ∃ starts, starts.length ≤ tape.rest.length ∧
      BodyLoop (commandAt depth) opener tape starts (blockBody (commandAt depth) opener tape)) ∧
    (∀ text, ∃ starts, starts.length ≤ (Token.ofText 1 text).length ∧
      ProgramLoop (Tape.ofTokens (Token.ofText 1 text)) starts (Parse.program text) ∧
      ∀ program, Parse.program? text = .ok program →
        (Parse.program text).tape.place = (Token.ofText 1 text).length) := by
  refine ⟨fun tokens first later => ?_, fun depth tape hmore => ?_, fun tape levels call hinside => ?_,
    fun call other => Call.command_eq_commandAt, fun depth opener tape => ?_, fun text => ?_⟩
  · have hfirst := TapeUse.leadsTo_afterAll first (Tape.ofTokens tokens)
    have htokens := hfirst.tokens_eq.trans (Tape.tokens_ofTokens tokens)
    generalize TapeUse.afterAll first (Tape.ofTokens tokens) = tape at htokens
    subst htokens
    exact ⟨rfl, tape.place_le, (TapeUse.leadsTo_afterAll later tape).place_le, tape.last_eq,
      tape.peek_eq, rfl⟩
  · exact (consumes_commandAt depth tape hmore).place_lt
  · obtain ⟨hdepth, hlevels⟩ := hinside.depth_le
    refine ⟨hdepth, hlevels, fun nested hmakes => ⟨?_, hmakes.place_lt⟩⟩
    obtain ⟨hnested, hlevels⟩ := (hinside.made hmakes).depth_le
    rw [hnested]
    exact Int.ofNat_le.mpr hlevels
  · obtain ⟨starts, hloop⟩ := exists_bodyLoop (consumes_commandAt depth) opener tape
    exact ⟨starts, hloop.length_le (consumes_commandAt depth), hloop⟩
  · obtain ⟨starts, hloop⟩ := exists_programLoop (Tape.ofTokens (Token.ofText 1 text))
    exact ⟨starts, hloop.length_le consumes_statement, hloop, fun _ => place_of_program?_ok⟩

/-- A block with one command in it, which is a nested call. -/
theorem calls_move_on_block :
    let tape := Tape.ofTokens (Token.ofText 1 "REPEAT 2 [ L\n]")
    tape.rest ≠ [] ∧ tape.place < (commandAt 0 tape).tape.place ∧
      (∃ nested, Call.Makes ⟨0, tape⟩ nested ∧ nested.depth ≤ 64 ∧ tape.place < nested.tape.place) ∧
      command (bodyAt 0 (commandAt 1)) tape = commandAt 0 tape ∧
      Parse.program? "REPEAT 2 [ L\n]" = .ok [.block 2 [.turn .left]] ∧
      (Parse.program "REPEAT 2 [ L\n]").tape.place = 5 := by
  intro tape
  obtain ⟨-, hcommand, hinside, hother, hbody, hprogram⟩ := calls_move_on
  let word (text : String) : Token := ⟨text, 1, "REPEAT 2 [ L"⟩
  let mid : Tape := ⟨[word "REPEAT"], [word "2", word "[", word "L", ⟨"]", 2, "]"⟩]⟩
  let left : Tape := ⟨[word "[", word "2", word "REPEAT"], [word "L", ⟨"]", 2, "]"⟩]⟩
  have htape : tape = ⟨[], [word "REPEAT", word "2", word "[", word "L", ⟨"]", 2, "]"⟩]⟩ := by
    decide +kernel
  have hmore : tape.rest ≠ [] := by decide +kernel
  have hhead : TakesHead tape (word "REPEAT") left := by
    have hcount : Natural largestNatural (word "2") 2 := natural?_eq_some_iff.mp (by decide +kernel)
    rw [htape]
    exact ⟨mid, 2, ⟨rfl, rfl⟩, ofWord?_eq_some_iff.mp (by decide +kernel),
      reads_blockHead.mpr ⟨word "2", word "[", ⟨rfl, rfl⟩, rfl, hcount, rfl, rfl⟩⟩
  obtain ⟨starts, -, hloop⟩ := hbody 1 (word "REPEAT") left
  have hmakes : Call.Makes ⟨0, tape⟩ ⟨1, left⟩ :=
    ⟨by decide, rfl, word "REPEAT", left, starts, _, hhead, hloop,
      hloop.start_mem (List.cons_ne_nil _ _)⟩
  obtain ⟨-, -, hnested⟩ := hinside tape 0 ⟨0, tape⟩ .outer
  have hread : Parse.program? "REPEAT 2 [ L\n]" = .ok [.block 2 [.turn .left]] := by decide +kernel
  obtain ⟨-, -, -, hall⟩ := hprogram "REPEAT 2 [ L\n]"
  have hlength : (Token.ofText 1 "REPEAT 2 [ L\n]").length = 5 := by decide +kernel
  refine ⟨hmore, hcommand 0 tape hmore, ⟨_, hmakes, hnested _ hmakes⟩, ?_, hread, ?_⟩
  · refine hother ⟨0, tape⟩ (commandAt 1) fun nested hmakes => ?_
    rw [hmakes.2.1]
    rfl
  · exact (hall _ hread).trans hlength

end Reader
end Turtle
