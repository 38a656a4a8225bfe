import Turtle.Parse.Error

/-! What an error blames. An error is of a kind, and apart from the token at fault it says the
same wherever that token stands; only the report of a block that is never closed quotes a line.
So an error can be moved to another token, and a report is the same up to the lines that it
names when the two tokens have the same text. -/

namespace Turtle.ParseError

/-- The kinds of errors. A count that is missing and one that cannot be read are of one kind,
and so are a bracket that is missing and a word in its place. -/
inductive Kind where
  | emptyCommand
  | unknownCommand
  | missingParameter
  | badNumber
  | badChannel
  | badHex
  | badCount
  | badBracket
  | nestingTooDeep
  | unterminated
  | unmatchedEnd
  | trailing
  deriving DecidableEq, Repr

def kind : ParseError → Kind
  | emptyCommand _ => .emptyCommand
  | unknownCommand _ => .unknownCommand
  | missingParameter _ _ => .missingParameter
  | badNumber _ _ => .badNumber
  | badChannel _ => .badChannel
  | badHex _ _ => .badHex
  | missingCount _ | badCount _ => .badCount
  | missingBracket _ | badBracket _ => .badBracket
  | nestingTooDeep _ => .nestingTooDeep
  | unterminated _ => .unterminated
  | unmatchedEnd _ => .unmatchedEnd
  | trailing _ _ => .trailing

/-- The same error with another token at fault. -/
def blaming (t : Token) : ParseError → ParseError
  | emptyCommand _ => .emptyCommand (some t)
  | unknownCommand _ => .unknownCommand t
  | missingParameter _ expected => .missingParameter t expected
  | badNumber _ expected => .badNumber t expected
  | badChannel _ => .badChannel t
  | badHex _ fault => .badHex t fault
  | missingCount _ => .missingCount t
  | badCount _ => .badCount t
  | missingBracket _ => .missingBracket t
  | badBracket _ => .badBracket t
  | nestingTooDeep _ => .nestingTooDeep t
  | unterminated _ => .unterminated t
  | unmatchedEnd _ => .unmatchedEnd (some t)
  | trailing _ command => .trailing t command

variable {e e' : ParseError} {t t' : Token}

@[simp] theorem token_blaming (t : Token) (e : ParseError) : (e.blaming t).token = some t := by
  cases e <;> rfl

@[simp] theorem kind_blaming (t : Token) (e : ParseError) : (e.blaming t).kind = e.kind := by
  cases e <;> rfl

@[simp] theorem blaming_blaming (t u : Token) (e : ParseError) :
    (e.blaming t).blaming u = e.blaming u := by
  cases e <;> rfl

theorem blaming_token (h : e.token = some t) : e.blaming t = e := by
  cases e <;> cases h <;> rfl

/-- The reason depends on the text of the token at fault alone, unless it quotes a line. -/
theorem reason_blaming (h : e.token = some t) (htext : t'.text = t.text)
    (hkind : e.kind ≠ .unterminated) : (e.blaming t').reason = e.reason := by
  cases e with
  | unterminated opener => exact absurd rfl hkind
  | emptyCommand | missingCount | missingBracket | nestingTooDeep | unmatchedEnd => rfl
  | badNumber | badChannel =>
    rw [← Option.some.inj h] at htext
    unfold reason unreadable
    simp only [blaming, htext]
  | unknownCommand | missingParameter | badHex | badCount | badBracket | trailing =>
    rw [← Option.some.inj h] at htext
    unfold reason
    simp only [blaming, htext]

theorem exists_of_kind_unterminated (h : e.kind = .unterminated) :
    ∃ opener, e = .unterminated opener := by
  cases e with
  | unterminated opener => exact ⟨opener, rfl⟩
  | _ => cases h

/-- The second error reports what the first does on a line with another number: the kind is
the same, the token at fault has the same text and the same line of text, and the reason is the
same apart from the number of the line on which a block that is never closed begins. -/
structure Moved (f : Int → Int) (e e' : ParseError) : Prop where
  kind : e'.kind = e.kind
  token : ∃ t t', e.token = some t ∧ e'.token = some t' ∧ t'.text = t.text ∧ t'.line = t.line ∧
    t'.lineNumber = f t.lineNumber
  reason : e.kind ≠ .unterminated → e'.reason = e.reason
  opened : e.kind = .unterminated → ∃ n : Int,
    e.reason = s!"REPEAT block opened on line {n} is never closed with ']'" ∧
      e'.reason = s!"REPEAT block opened on line {f n} is never closed with ']'"

theorem moved_blaming {f : Int → Int} (h : e.token = some t) (htext : t'.text = t.text)
    (hline : t'.line = t.line) (hnumber : t'.lineNumber = f t.lineNumber) :
    Moved f e (e.blaming t') := by
  refine ⟨kind_blaming t' e, ⟨t, t', h, token_blaming t' e, htext, hline, hnumber⟩,
    reason_blaming h htext, fun hkind => ?_⟩
  obtain ⟨opener, rfl⟩ := exists_of_kind_unterminated hkind
  obtain rfl : opener = t := Option.some.inj h
  refine ⟨opener.lineNumber, rfl, ?_⟩
  rw [← hnumber]
  rfl

end Turtle.ParseError
