import Turtle.Proofs.Acceptance
import Turtle.Proofs.Blame
import Turtle.Proofs.Lines

/-! Readers on two tapes. A correspondence says which tokens of one tape answer to which of
another, where the second may go on behind the end of the first. Readers use a token only
through the meaning of its word and through the question whether two tokens are on one line, so
when these agree a reader does the same on both tapes: it reads the same and leaves corresponding
tapes, or it fails in the same way and blames corresponding tokens. There is one exception: a
block that the end of the first tape cuts off may go on in the second.

The walk through the readers is made once, here. What is said of a text that is renumbered,
prolonged, interrupted by comments or simply read once more then follows from a choice of the
correspondence. -/

namespace Turtle
open Number Reader

theorem Tape.nextOnLine_of_ne {tape : Tape} {n : Int} (h : ∀ t ∈ tape.peek, t.lineNumber ≠ n) :
    tape.nextOnLine n = (none, tape) := by
  unfold nextOnLine
  split
  · rfl
  · rename_i t ht
    rw [if_neg (h t ht)]

theorem Tape.nextOnLine_of_eq {past rest : List Token} {t : Token} {n : Int}
    (h : t.lineNumber = n) :
    nextOnLine n ⟨past, t :: rest⟩ = (some t, ⟨t :: past, rest⟩) := if_pos h

/-- Two words that no reader tells apart. -/
structure Interchangeable (word other : String) : Prop where
  keyword : Keyword.ofWord? other = Keyword.ofWord? word
  natural : ∀ limit, natural? limit other.toList = natural? limit word.toList
  numeral : Decimal.read? other.toList = Decimal.read? word.toList
  digits : isDigits other.toList = isDigits word.toList
  marked : Color.isMarked other.toList = Color.isMarked word.toList
  hexDigits : Color.hexDigits? other.toList = Color.hexDigits? word.toList
  bracket : other = "[" ↔ word = "["

theorem Interchangeable.of_eq {word other : String} (h : other = word) :
    Interchangeable word other := by
  subst h
  exact ⟨rfl, fun _ => rfl, rfl, rfl, rfl, rfl, Iff.rfl⟩

/-- Which tokens answer to which, and what stands behind the last of them. Nothing behind is on
a line of a token that answers to one. -/
structure Correspondence where
  same : Token → Token → Prop
  behind : List Token
  word : ∀ {t t'}, same t t' → Interchangeable t.text t'.text
  line : ∀ {t t' u u'}, same t t' → same u u' →
    (t'.lineNumber = u'.lineNumber ↔ t.lineNumber = u.lineNumber)
  apart : ∀ {t t'}, same t t' → ∀ extra ∈ behind, extra.lineNumber ≠ t'.lineNumber

namespace Correspondence

variable (c : Correspondence) {α β : Type} {tape other : Tape} {t t' opener opener' : Token}

/-- Tokens that answer to tokens, up to what stands behind. -/
inductive Ahead : List Token → List Token → Prop
  | done : Ahead [] c.behind
  | token {t t' : Token} {rest rest' : List Token} : c.same t t' → Ahead rest rest' →
      Ahead (t :: rest) (t' :: rest')

/-- Corresponding positions: the tokens ahead answer to one another, and so do those that were
read last. -/
structure Tapes (tape other : Tape) : Prop where
  rest : c.Ahead tape.rest other.rest
  last : ∀ t, tape.last = some t → ∃ t', other.last = some t' ∧ c.same t t'

/-- Corresponding errors: the same, but for the tokens that they blame. -/
def Errors (e e' : ParseError) : Prop :=
  ∃ t t', e.token = some t ∧ e.kind ≠ .emptyCommand ∧ c.same t t' ∧ e' = e.blaming t'

/-- What the second outcome must be, given the first. -/
inductive Answers : Outcome α → Outcome α → Prop
  | ok {a : α} {tape other : Tape} {notes notes' : List ParseNote} : c.Tapes tape other →
      Answers ⟨.ok a, tape, notes⟩ ⟨.ok a, other, notes'⟩
  | error {e e' : ParseError} {tape other : Tape} {notes notes' : List ParseNote} :
      c.Errors e e' → Answers ⟨.error e, tape, notes⟩ ⟨.error e', other, notes'⟩
  | cut {opener : Token} {tape : Tape} {notes : List ParseNote} {outcome : Outcome α} :
      c.behind ≠ [] → Answers ⟨.error (.unterminated opener), tape, notes⟩ outcome

/-- What the second reading of a program must be, given the first. -/
inductive Results : Except ParseError (List Command) → Except ParseError (List Command) → Prop
  | ok {program : List Command} {past : List Token} {enough : Nat} :
      c.behind.length ≤ enough → Results (.ok program)
        ((statementsWithin enough ⟨past, c.behind⟩).result.map (program ++ ·))
  | error {e e' : ParseError} : c.Errors e e' → Results (.error e) (.error e')
  | cut {opener : Token} {result : Except ParseError (List Command)} : c.behind ≠ [] →
      Results (.error (.unterminated opener)) result

variable {c}

theorem ahead_map (f : Token → Token) (tokens : List Token) (h : ∀ t ∈ tokens, c.same t (f t)) :
    c.Ahead tokens (tokens.map f ++ c.behind) := by
  induction tokens with
  | nil => exact .done
  | cons t rest ih =>
    exact .token (h t (by simp)) (ih fun u hu => h u (by simp [hu]))

/-- On tapes that nothing was read from, the tokens ahead are all that matters. -/
theorem tapes_of_ahead {rest rest' : List Token} (h : c.Ahead rest rest') (past : List Token) :
    c.Tapes ⟨[], rest⟩ ⟨past, rest'⟩ :=
  ⟨h, fun _ hlast => by cases hlast⟩

theorem Tapes.rest_ne_nil (h : c.Tapes tape other) (hmore : tape.rest ≠ []) :
    other.rest ≠ [] := by
  obtain ⟨past, rest⟩ := tape
  obtain ⟨past', rest'⟩ := other
  cases h.rest with
  | done => exact absurd rfl hmore
  | token => simp

/-- At the end of the first tape the second has come to what stands behind. -/
theorem Tapes.rest_of_nil (h : c.Tapes tape other) (hend : tape.rest = []) :
    other.rest = c.behind := by
  obtain ⟨past, rest⟩ := tape
  obtain ⟨past', rest'⟩ := other
  cases h.rest with
  | done => rfl
  | token => cases hend

theorem Answers.notes {first second : Outcome α} (h : c.Answers first second)
    (notes notes' : List ParseNote) :
    c.Answers { first with notes := notes } { second with notes := notes' } := by
  cases h with
  | ok ht => exact .ok ht
  | error he => exact .error he
  | cut hbehind => exact .cut hbehind

/-! One rule for each way in which readers are put together. -/

theorem answers_pure {a : α} (h : c.Tapes tape other) :
    c.Answers ((pure a : Reader α) tape) ((pure a : Reader α) other) := .ok h

theorem answers_fail {e : ParseError} (htoken : e.token = some t) (hkind : e.kind ≠ .emptyCommand)
    (h : c.same t t') : c.Answers ((fail e : Reader α) tape) ((fail (e.blaming t')) other) :=
  .error ⟨t, t', htoken, hkind, h, rfl⟩

theorem Answers.bind {first first' : Reader α} {second second' : α → Reader β}
    (hfirst : c.Answers (first tape) (first' other))
    (hsecond : ∀ a left left', first.Reads tape a left → first'.Reads other a left' →
      c.Tapes left left' → c.Answers (second a left) (second' a left')) :
    c.Answers ((first >>= second) tape) ((first' >>= second') other) := by
  generalize hf : first tape = outcome at hfirst
  generalize hf' : first' other = outcome' at hfirst
  cases hfirst with
  | @ok a left left' notes notes' ht =>
    rw [bind_ok second hf, bind_ok second' hf']
    have hreads : first.Reads tape a left := ⟨by rw [hf], by rw [hf]⟩
    have hreads' : first'.Reads other a left' := ⟨by rw [hf'], by rw [hf']⟩
    exact (hsecond a left left' hreads hreads' ht).notes _ _
  | error he =>
    rw [bind_error second hf, bind_error second' hf']
    exact .error he
  | cut hbehind =>
    rw [bind_error second hf]
    exact .cut hbehind

theorem answers_note {note' note'' : ParseNote} {use use' : Unit → Reader β}
    (h : c.Answers (use () tape) (use' () other)) :
    c.Answers ((note note' >>= use) tape) ((note note'' >>= use') other) := by
  rw [bind_ok use rfl, bind_ok use' rfl]
  exact h.notes _ _

theorem answers_position {use use' : Tape → Reader β}
    (h : c.Answers (use tape tape) (use' other other)) :
    c.Answers ((position >>= use) tape) ((position >>= use') other) := by
  rw [bind_ok use rfl, bind_ok use' rfl]
  exact h.notes _ _

/-- Where a token is left, both tapes give their next ones. -/
theorem answers_next {use use' : Option Token → Reader β} (h : c.Tapes tape other)
    (hmore : tape.rest ≠ [])
    (hsome : ∀ word word' left left', c.same word word' → c.Tapes left left' →
      c.Answers (use (some word) left) (use' (some word') left')) :
    c.Answers ((next >>= use) tape) ((next >>= use') other) := by
  obtain ⟨past, rest⟩ := tape
  obtain ⟨past', rest'⟩ := other
  cases h.rest with
  | done => exact absurd rfl hmore
  | @token word word' rest rest' hword hrest =>
    rw [bind_ok use rfl, bind_ok use' rfl]
    refine (hsome word word' _ _ hword ⟨hrest, ?_⟩).notes _ _
    rintro _ ⟨⟩
    exact ⟨word', rfl, hword⟩

/-- An argument stands on the line of its command on both tapes or on neither: the tokens that
answer to one another agree on it, and those behind are on no such line. -/
theorem answers_argument {use use' : Option Token → Reader β} (ho : c.same opener opener')
    (h : c.Tapes tape other) (hnone : c.Answers (use none tape) (use' none other))
    (hsome : ∀ word word' left left', c.same word word' → c.Tapes left left' →
      c.Answers (use (some word) left) (use' (some word') left')) :
    c.Answers ((argument opener >>= use) tape) ((argument opener' >>= use') other) := by
  have hnowhere : (∀ t ∈ tape.peek, t.lineNumber ≠ opener.lineNumber) →
      (∀ t ∈ other.peek, t.lineNumber ≠ opener'.lineNumber) →
      c.Answers ((argument opener >>= use) tape) ((argument opener' >>= use') other) := by
    intro hne hne'
    have hfirst : argument opener tape = ⟨.ok none, tape, []⟩ := by
      simp only [argument, Tape.nextOnLine_of_ne hne]
    have hother : argument opener' other = ⟨.ok none, other, []⟩ := by
      simp only [argument, Tape.nextOnLine_of_ne hne']
    rw [bind_ok use hfirst, bind_ok use' hother]
    exact hnone.notes _ _
  obtain ⟨past, rest⟩ := tape
  obtain ⟨past', rest'⟩ := other
  cases h.rest with
  | done =>
    exact hnowhere (fun _ ht => by cases ht) fun t ht => c.apart ho t (List.mem_of_head? ht)
  | @token word word' rest rest' hword hrest =>
    by_cases hline : word.lineNumber = opener.lineNumber
    · have hfirst : argument opener ⟨past, word :: rest⟩ =
          ⟨.ok (some word), ⟨word :: past, rest⟩, []⟩ := by
        simp only [argument, Tape.nextOnLine_of_eq hline]
      have hother : argument opener' ⟨past', word' :: rest'⟩ =
          ⟨.ok (some word'), ⟨word' :: past', rest'⟩, []⟩ := by
        simp only [argument, Tape.nextOnLine_of_eq ((c.line hword ho).mpr hline)]
      rw [bind_ok use hfirst, bind_ok use' hother]
      refine (hsome word word' _ _ hword ⟨hrest, ?_⟩).notes _ _
      rintro _ ⟨⟩
      exact ⟨word', rfl, hword⟩
    · refine hnowhere ?_ ?_
      · rintro _ ⟨⟩
        exact hline
      · rintro _ ⟨⟩
        exact mt (c.line hword ho).mp hline

/-! The arguments. -/

theorem answers_natural {limit : Nat} {word word' : Token} {e : ParseError}
    (hword : c.same word word')
    (htoken : e.token = some word) (hkind : e.kind ≠ .emptyCommand) (h : c.Tapes tape other) :
    c.Answers
      ((match natural? limit word.text.toList with
        | none => fail e
        | some n => return n : Reader Nat) tape)
      ((match natural? limit word'.text.toList with
        | none => fail (e.blaming word')
        | some n => return n : Reader Nat) other) := by
  rw [(c.word hword).natural]
  cases natural? limit word.text.toList with
  | none => exact answers_fail htoken hkind hword
  | some n => exact answers_pure h

theorem answers_distance (ho : c.same opener opener') (h : c.Tapes tape other) :
    c.Answers (distance opener tape) (distance opener' other) :=
  answers_argument ho h (answers_fail (e := .missingParameter opener .distance) rfl nofun ho)
    fun word _ _ _ hword hleft =>
      answers_natural (e := .badNumber word .distance) hword rfl nofun hleft

theorem answers_size (ho : c.same opener opener') (h : c.Tapes tape other) :
    c.Answers (size opener tape) (size opener' other) := by
  refine answers_argument ho h
    (answers_fail (e := .missingParameter opener .size) rfl nofun ho)
    fun word word' left left' hword hleft => ?_
  dsimp only
  rw [(c.word hword).numeral]
  cases Decimal.read? word.text.toList with
  | none => exact answers_fail (e := .badNumber word .size) rfl nofun hword
  | some numeral =>
    dsimp only
    split
    · exact answers_pure hleft
    · exact answers_fail (e := .badNumber word .usableSize) rfl nofun hword

theorem answers_channel {word word' : Token} (hword : c.same word word') (h : c.Tapes tape other) :
    c.Answers (channel word tape) (channel word' other) :=
  answers_natural (e := .badChannel word) hword rfl nofun h

theorem answers_nextChannel (ho : c.same opener opener') (h : c.Tapes tape other) :
    c.Answers (nextChannel opener tape) (nextChannel opener' other) :=
  answers_argument ho h (answers_fail (e := .missingParameter opener .channels) rfl nofun ho)
    fun _ _ _ _ hword hleft => answers_channel hword hleft

theorem answers_hexColor {word word' : Token} (hword : c.same word word') (h : c.Tapes tape other) :
    c.Answers (hexColor word tape) (hexColor word' other) := by
  unfold hexColor
  rw [(c.word hword).hexDigits]
  cases Color.hexDigits? word.text.toList with
  | error fault => exact answers_fail (e := .badHex word fault) rfl nofun hword
  | ok digits => exact answers_note (answers_pure h)

theorem answers_color (ho : c.same opener opener') (h : c.Tapes tape other) :
    c.Answers (color opener tape) (color opener' other) := by
  refine answers_argument ho h
    (answers_fail (e := .missingParameter opener .color) rfl nofun ho)
    fun word word' left left' hword hleft => ?_
  dsimp only
  rw [(c.word hword).marked, (c.word hword).digits]
  split
  · exact answers_hexColor hword hleft
  · split
    · refine (answers_channel hword hleft).bind fun red left left' _ _ hleft => ?_
      refine (answers_nextChannel ho hleft).bind fun green left left' _ _ hleft => ?_
      refine (answers_nextChannel ho hleft).bind fun blue left left' _ _ hleft => ?_
      exact answers_pure hleft
    · exact answers_fail (e := .badHex word .unmarkedWord) rfl nofun hword

theorem answers_blockHead (ho : c.same opener opener') (h : c.Tapes tape other) :
    c.Answers (blockHead opener tape) (blockHead opener' other) := by
  refine answers_argument ho h (answers_fail (e := .missingCount opener) rfl nofun ho)
    fun word word' left left' hword hleft => ?_
  dsimp only
  rw [(c.word hword).natural]
  cases natural? largestNatural word.text.toList with
  | none => exact answers_fail (e := .badCount word) rfl nofun hword
  | some count =>
    refine answers_argument ho hleft (answers_fail (e := .missingBracket word) rfl nofun hword)
      fun bracket bracket' left left' hbracket hleft => ?_
    dsimp only
    simp only [(c.word hbracket).bracket]
    split
    · exact answers_pure hleft
    · exact answers_fail (e := .badBracket bracket) rfl nofun hbracket

/-! Commands, bodies and programs. -/

theorem answers_command {body : Token → Reader (List Command)}
    (hbody : ∀ {opener opener' tape other}, c.same opener opener' → c.Tapes tape other →
      c.Answers (body opener tape) (body opener' other))
    (h : c.Tapes tape other) (hmore : tape.rest ≠ []) :
    c.Answers (command body tape) (command body other) := by
  refine answers_next h hmore fun word word' left left' hword hleft => ?_
  dsimp only
  rw [(c.word hword).keyword]
  cases Keyword.ofWord? word.text with
  | none => exact answers_fail (e := .unknownCommand word) rfl nofun hword
  | some keyword =>
    refine Answers.bind ?_ fun read left left' _ _ hleft => answers_note (answers_pure hleft)
    cases keyword with
    | forward => exact (answers_distance hword hleft).bind fun _ _ _ _ _ h => answers_pure h
    | turn | pen | blockEnd => exact answers_pure hleft
    | size => exact (answers_size hword hleft).bind fun _ _ _ _ _ h => answers_pure h
    | color => exact (answers_color hword hleft).bind fun _ _ _ _ _ h => answers_pure h
    | block =>
      refine (answers_blockHead hword hleft).bind fun count _ _ _ _ hleft => ?_
      exact (hbody hword hleft).bind fun _ _ _ _ _ h => answers_pure h

/-- A reader that takes something off the tape whenever it succeeds. -/
def Advances (reader : Reader α) : Prop :=
  ∀ {tape a left}, reader.Reads tape a left → ∃ taken, taken ≠ [] ∧ tape.Took taken left

theorem Advances.shorter {reader : Reader α} (h : Advances reader) {a : α} {left : Tape}
    (hread : reader.Reads tape a left) : left.rest.length < tape.rest.length := by
  obtain ⟨taken, hne, ht⟩ := h hread
  exact ht.length_lt hne

theorem advances_commandWithin {levels : Nat} (h : levels ≤ deepestBlock) :
    Advances (commandWithin levels) := by
  intro tape read left hread
  have haccepts := accepts_commandWithin levels (deepestBlock - levels) (by omega)
  obtain ⟨taken, ht, hitem⟩ := (haccepts tape read left).mp hread
  exact ⟨taken, hitem.ne_nil, ht⟩

/-- At the end of the tape a body is cut off, whatever its bound. -/
theorem bodyWithin_at_end {inner : Reader Command} (most : Nat) (h : tape.rest = []) :
    bodyWithin inner opener most tape = ⟨.error (.unterminated opener), tape, []⟩ := by
  cases most with
  | zero => rfl
  | succ most =>
    have hend : tape.atEnd = true := by simp [Tape.atEnd, h]
    rw [bodyWithin, position_bind, if_pos hend]
    rfl

theorem answers_body_at_end {inner : Reader Command} (ho : c.same opener opener')
    (h : c.Tapes tape other) (hend : tape.rest = []) (most most' : Nat) :
    c.Answers (bodyWithin inner opener most tape) (bodyWithin inner opener' most' other) := by
  rw [bodyWithin_at_end most hend]
  by_cases hbehind : c.behind = []
  · rw [bodyWithin_at_end most' ((h.rest_of_nil hend).trans hbehind)]
    exact .error ⟨opener, opener', rfl, nofun, ho, rfl⟩
  · exact .cut hbehind

/-- The bounds on the two bodies need not be the same, as long as both suffice. -/
theorem answers_bodyWithin {inner : Reader Command} (hadvances : Advances inner)
    (hinner : ∀ {tape other}, c.Tapes tape other → tape.rest ≠ [] →
      c.Answers (inner tape) (inner other))
    (ho : c.same opener opener') {most most' : Nat} (h : c.Tapes tape other)
    (hmost : tape.rest.length ≤ most) (hmost' : other.rest.length ≤ most') :
    c.Answers (bodyWithin inner opener most tape) (bodyWithin inner opener' most' other) := by
  induction most generalizing tape other most' with
  | zero => exact answers_body_at_end ho h (List.length_eq_zero_iff.mp (by omega)) _ _
  | succ most ih =>
    by_cases hend : tape.rest = []
    · exact answers_body_at_end ho h hend _ _
    · have hmore := h.rest_ne_nil hend
      cases most' with
      | zero => exact absurd (List.length_eq_zero_iff.mp (by omega)) hmore
      | succ most' =>
        refine answers_position ?_
        rw [if_neg (by simpa [Tape.atEnd] using hend), if_neg (by simpa [Tape.atEnd] using hmore)]
        refine (hinner h hend).bind fun read left left' hread hread' hleft => ?_
        have hshort := hadvances.shorter hread
        have hshort' := hadvances.shorter hread'
        split
        · exact answers_pure hleft
        · refine (ih hleft (by omega) (by omega)).bind fun more _ _ _ _ hleft => ?_
          exact answers_pure hleft

theorem answers_commandWithin {levels : Nat} (hlevels : levels ≤ deepestBlock)
    (h : c.Tapes tape other) (hmore : tape.rest ≠ []) :
    c.Answers (commandWithin levels tape) (commandWithin levels other) := by
  induction levels generalizing tape other with
  | zero =>
    refine answers_command (fun {opener _ _ _} ho h => ?_) h hmore
    exact answers_fail (e := .nestingTooDeep opener) rfl nofun ho
  | succ levels ih =>
    refine answers_command (fun ho h => ?_) h hmore
    exact answers_bodyWithin (advances_commandWithin (by omega)) (ih (by omega)) ho h
      (Nat.le_refl _) (Nat.le_refl _)

theorem advances_commandAt : Advances (commandAt 0) := advances_commandWithin (Nat.le_refl _)

/-- Nothing that stands behind is on the line on which a command ended. -/
theorem answers_endOfLine {read : Command} (h : c.Tapes tape other) (hlast : tape.last ≠ none) :
    c.Answers (endOfLine read tape) (endOfLine read other) := by
  obtain ⟨last, hlast⟩ := Option.ne_none_iff_exists'.mp hlast
  obtain ⟨last', hlast', hsame⟩ := h.last last hlast
  refine answers_position ?_
  rw [hlast, hlast']
  obtain ⟨past, rest⟩ := tape
  obtain ⟨past', rest'⟩ := other
  cases h.rest with
  | done =>
    cases hpeek : Tape.peek ⟨past', c.behind⟩ with
    | none => exact answers_pure h
    | some extra =>
      dsimp only
      rw [if_neg (c.apart hsame extra (List.mem_of_head? hpeek))]
      exact answers_pure h
  | @token extra extra' rest rest' hextra hrest =>
    simp only [Tape.peek, List.head?_cons, c.line hextra hsame]
    split
    · exact answers_fail (e := .trailing extra read) rfl (fun hkind => by cases hkind) hextra
    · exact answers_pure h

theorem answers_statement (h : c.Tapes tape other) (hmore : tape.rest ≠ []) :
    c.Answers (statement tape) (statement other) := by
  have hlevels : ((deepestBlock : Int) - 0).toNat ≤ deepestBlock := by omega
  refine (answers_commandWithin hlevels h hmore).bind fun read left left' hread _ hleft => ?_
  have hlast : left.last ≠ none := by
    obtain ⟨taken, hne, ht⟩ := advances_commandAt hread
    rw [Tape.last, ht.past]
    simp [hne]
  split
  · obtain ⟨last, hlast⟩ := Option.ne_none_iff_exists'.mp hlast
    obtain ⟨last', hlast', hsame⟩ := hleft.last last hlast
    refine answers_position ?_
    rw [hlast, hlast']
    exact answers_fail (e := .unmatchedEnd (some last)) rfl (fun hkind => by cases hkind) hsame
  · exact (answers_endOfLine hleft hlast).bind fun _ _ _ _ _ h => answers_pure h

theorem advances_statement : Advances statement := by
  intro tape read left hread
  obtain ⟨taken, ht, hd, -⟩ := reads_statement.mp hread
  exact ⟨taken, hd.ne_nil, ht⟩

theorem statementsWithin_at_end (most : Nat) (h : tape.rest = []) :
    statementsWithin most tape = ⟨.ok [], tape, []⟩ := by
  cases most with
  | zero => rfl
  | succ most =>
    have hend : tape.atEnd = true := by simp [Tape.atEnd, h]
    rw [statementsWithin, position_bind, if_pos hend]
    rfl

/-- Where the first tape ends, the second goes on with what stands behind. -/
theorem results_at_end {most most' : Nat} (h : c.Tapes tape other) (hend : tape.rest = [])
    (hmost' : other.rest.length ≤ most') :
    c.Results (statementsWithin most tape).result (statementsWithin most' other).result := by
  have hbehind := h.rest_of_nil hend
  rw [statementsWithin_at_end most hend]
  obtain ⟨past', rest'⟩ := other
  obtain rfl : rest' = c.behind := hbehind
  have hok : c.Results (.ok [])
      ((statementsWithin most' ⟨past', c.behind⟩).result.map ([] ++ ·)) := .ok hmost'
  rwa [show Except.map ([] ++ ·) _ = _ from congrFun Except.map_id _] at hok

theorem Results.cons {result result' : Except ParseError (List Command)}
    (h : c.Results result result') (read : Command) :
    c.Results (result.map (read :: ·)) (result'.map (read :: ·)) := by
  cases h with
  | @ok program past enough henough =>
    have hmap : ∀ result : Except ParseError (List Command),
        (result.map (program ++ ·)).map (read :: ·) = result.map (read :: program ++ ·) := by
      intro result
      cases result <;> rfl
    rw [hmap]
    exact .ok henough
  | error he => exact .error he
  | cut hbehind => exact .cut hbehind

/-- Before the end of the tape comes a statement, and then the others. -/
theorem statementsWithin_of_rest {most : Nat} (h : tape.rest ≠ []) :
    statementsWithin (most + 1) tape =
      (statement >>= fun read => statementsWithin most >>= fun more => pure (read :: more)) tape := by
  have hend : ¬ tape.atEnd = true := by simpa [Tape.atEnd] using h
  rw [statementsWithin, position_bind, if_neg hend]

/-- **Runs correspond.** If the first tape holds a program then the second begins with that
program, and what stands behind decides the rest. If the first tape is refused then so is the
second, in the same way, unless the end of the first tape cut a block off. -/
theorem results_statementsWithin {most most' : Nat} (h : c.Tapes tape other)
    (hmost : tape.rest.length ≤ most) (hmost' : other.rest.length ≤ most') :
    c.Results (statementsWithin most tape).result (statementsWithin most' other).result := by
  induction most generalizing tape other most' with
  | zero => exact results_at_end h (List.length_eq_zero_iff.mp (by omega)) hmost'
  | succ most ih =>
    by_cases hend : tape.rest = []
    · exact results_at_end h hend hmost'
    · have hmore := h.rest_ne_nil hend
      cases most' with
      | zero => exact absurd (List.length_eq_zero_iff.mp (by omega)) hmore
      | succ most' =>
        rw [statementsWithin_of_rest hend, statementsWithin_of_rest hmore]
        have hstatement := answers_statement h hend
        generalize hs : statement tape = outcome at hstatement
        generalize hs' : statement other = outcome' at hstatement
        cases hstatement with
        | error he =>
          rw [result_bind_error (congrArg Outcome.result hs),
            result_bind_error (congrArg Outcome.result hs')]
          exact .error he
        | cut hbehind =>
          rw [result_bind_error (congrArg Outcome.result hs)]
          exact .cut hbehind
        | @ok read left left' notes notes' hleft =>
          have hread : statement.Reads tape read left := by simp [Reads, hs]
          have hread' : statement.Reads other read left' := by simp [Reads, hs']
          have hshort := advances_statement.shorter hread
          have hshort' := advances_statement.shorter hread'
          rw [hread.result_bind, hread'.result_bind, result_bind_pure, result_bind_pure]
          exact (ih hleft (by omega) (by omega)).cons read

theorem Results.of_ok {program : List Command} {result : Except ParseError (List Command)}
    (h : c.Results (.ok program) result) (hbehind : c.behind = []) : result = .ok program := by
  cases h with
  | ok =>
    rw [hbehind, statementsWithin_at_end _ rfl]
    exact congrArg Except.ok (List.append_nil program)

theorem Results.of_error {e : ParseError} {result : Except ParseError (List Command)}
    (h : c.Results (.error e) result) (hbehind : c.behind = [] ∨ e.kind ≠ .unterminated) :
    ∃ e', c.Errors e e' ∧ result = .error e' := by
  cases h with
  | error he => exact ⟨_, he, rfl⟩
  | cut hne =>
    rcases hbehind with hnil | hkind
    · exact absurd hnil hne
    · exact absurd rfl hkind

/-- Each of some tokens answers to itself; what stands behind is on other lines. -/
def within (tokens behind : List Token)
    (apart : ∀ t ∈ tokens, ∀ extra ∈ behind, extra.lineNumber ≠ t.lineNumber) :
    Correspondence where
  same t t' := t ∈ tokens ∧ t' = t
  behind := behind
  word h := .of_eq (congrArg Token.text h.2)
  line h h' := by rw [h.2, h'.2]
  apart := by
    rintro t _ ⟨ht, rfl⟩
    exact apart _ ht

theorem ahead_within {tokens behind : List Token}
    (apart : ∀ t ∈ tokens, ∀ extra ∈ behind, extra.lineNumber ≠ t.lineNumber) :
    (within tokens behind apart).Ahead tokens (tokens ++ behind) := by
  have h := ahead_map (c := within tokens behind apart) id tokens fun t ht => ⟨ht, rfl⟩
  rwa [List.map_id] at h

/-- An error that corresponds to itself blames one of the tokens. -/
theorem errors_within {tokens behind : List Token}
    {apart : ∀ t ∈ tokens, ∀ extra ∈ behind, extra.lineNumber ≠ t.lineNumber} {e e' : ParseError}
    (h : (within tokens behind apart).Errors e e') :
    e' = e ∧ e.kind ≠ .emptyCommand ∧ ∃ t ∈ tokens, e.token = some t := by
  obtain ⟨t, _, htoken, hkind, ⟨hmem, rfl⟩, rfl⟩ := h
  exact ⟨ParseError.blaming_token htoken, hkind, _, hmem, htoken⟩

/-- An error blames one of the tokens that were ahead. -/
theorem token_of_statementsWithin_error {past rest : List Token} {most : Nat} {e : ParseError}
    (hmost : rest.length ≤ most) (h : (statementsWithin most ⟨past, rest⟩).result = .error e) :
    e.kind ≠ .emptyCommand ∧ ∃ t ∈ rest, e.token = some t := by
  have hapart : ∀ t ∈ rest, ∀ extra ∈ ([] : List Token), extra.lineNumber ≠ t.lineNumber :=
    fun _ _ _ hextra => by cases hextra
  have hahead := ahead_within hapart
  rw [List.append_nil] at hahead
  have hresults := results_statementsWithin (tapes_of_ahead hahead past) hmost hmost
  rw [h] at hresults
  cases hfirst : (statementsWithin most ⟨[], rest⟩).result with
  | ok program =>
    rw [hfirst] at hresults
    cases hresults.of_ok rfl
  | error e' =>
    rw [hfirst] at hresults
    obtain ⟨found, herrors, hfound⟩ := hresults.of_error (.inl rfl)
    obtain ⟨rfl, hkind, hmem⟩ := errors_within herrors
    obtain rfl := Except.error.inj hfound
    exact ⟨hkind, hmem⟩

/-- Every token answers to the same token on a line with another number, where different lines
get different numbers. -/
def renumbering (f : Int → Int) (hf : Function.Injective f) : Correspondence where
  same t t' := t' = t.renumber f
  behind := []
  word h := .of_eq (by rw [h]; rfl)
  line := by
    rintro t _ u _ rfl rfl
    exact ⟨fun h => hf h, congrArg f⟩
  apart _ extra h := by cases h

theorem ahead_renumbering {f : Int → Int} (hf : Function.Injective f) (tokens : List Token) :
    (renumbering f hf).Ahead tokens (tokens.map (Token.renumber f)) := by
  have h := ahead_map (c := renumbering f hf) (Token.renumber f) tokens fun _ _ => rfl
  rwa [show (renumbering f hf).behind = [] from rfl, List.append_nil] at h

theorem moved_of_errors {f : Int → Int} {hf : Function.Injective f} {e e' : ParseError}
    (h : (renumbering f hf).Errors e e') : ParseError.Moved f e e' := by
  obtain ⟨t, _, htoken, -, rfl, rfl⟩ := h
  exact ParseError.moved_blaming htoken rfl rfl rfl

end Correspondence

/-- Texts whose tokens answer to one another are read in corresponding ways. -/
theorem Parse.results_program? {c : Correspondence} {text other : String}
    (h : c.Ahead (Token.ofText 1 text) (Token.ofText 1 other)) :
    c.Results (program? text) (program? other) :=
  Correspondence.results_statementsWithin (Correspondence.tapes_of_ahead h []) (Nat.le_refl _)
    (Nat.le_refl _)

end Turtle
