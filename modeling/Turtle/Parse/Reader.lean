import Turtle.Parse.Error
import Turtle.Tape

/-! Readers of a tape. A reader leaves the tape where it stopped, also when it fails, and
notes what it has understood on the way. Readers follow one another: the second starts
on the tape that the first left, and its notes come after. -/

namespace Turtle

/-- What a reader may note. -/
inductive ParseNote where
  /-- A hexadecimal colour was written out in six digits. -/
  | normalized (word digits : String)
  /-- A command that began on a line was read to its end. -/
  | parsed (lineNumber : Int) (command : Command)

/-- A result, the tape that is left, and the notes taken. -/
structure Outcome (α : Type) where
  result : Except ParseError α
  tape : Tape
  notes : List ParseNote

def Reader (α : Type) : Type := Tape → Outcome α

namespace Reader

/-- Notes one after another; nothing is copied where nothing is added. -/
def joinNotes (first second : List ParseNote) : List ParseNote :=
  if second.isEmpty then first else first ++ second

@[simp] theorem joinNotes_eq (first second : List ParseNote) :
    joinNotes first second = first ++ second := by
  cases second <;> simp [joinNotes]

instance : Monad Reader where
  pure a := fun tape => ⟨.ok a, tape, []⟩
  bind first second := fun tape =>
    match first tape with
    | ⟨.error e, left, notes⟩ => ⟨.error e, left, notes⟩
    | ⟨.ok a, left, notes⟩ =>
      let outcome := second a left
      { outcome with notes := joinNotes notes outcome.notes }

@[simp] theorem pure_apply {α : Type} (a : α) (tape : Tape) :
    (pure a : Reader α) tape = ⟨.ok a, tape, []⟩ := rfl

/-- After a success the second reader goes on where the first stopped. -/
theorem bind_ok {α β : Type} {first : Reader α} (second : α → Reader β) {tape left : Tape}
    {a : α} {notes : List ParseNote} (h : first tape = ⟨.ok a, left, notes⟩) :
    (first >>= second) tape =
      { second a left with notes := notes ++ (second a left).notes } := by
  change (match first tape with
    | ⟨.error e, left, notes⟩ => (⟨.error e, left, notes⟩ : Outcome β)
    | ⟨.ok a, left, notes⟩ =>
      { second a left with notes := joinNotes notes (second a left).notes }) = _
  rw [h]
  simp

/-- After a failure the second reader does not run. -/
theorem bind_error {α β : Type} {first : Reader α} (second : α → Reader β)
    {tape left : Tape} {e : ParseError} {notes : List ParseNote}
    (h : first tape = ⟨.error e, left, notes⟩) :
    (first >>= second) tape = ⟨.error e, left, notes⟩ := by
  change (match first tape with
    | ⟨.error e, left, notes⟩ => (⟨.error e, left, notes⟩ : Outcome β)
    | ⟨.ok a, left, notes⟩ =>
      { second a left with notes := joinNotes notes (second a left).notes }) = _
  rw [h]

def fail {α : Type} (e : ParseError) : Reader α := fun tape => ⟨.error e, tape, []⟩

def note (n : ParseNote) : Reader Unit := fun tape => ⟨.ok (), tape, [n]⟩

/-- The next token, if there is one. -/
def next : Reader (Option Token) := fun tape => ⟨.ok tape.next.1, tape.next.2, []⟩

/-- The next token, if it stands on the line of the command that `opener` began. -/
def argument (opener : Token) : Reader (Option Token) := fun tape =>
  let (token, left) := tape.nextOnLine opener.lineNumber
  ⟨.ok token, left, []⟩

/-- The tape itself. -/
def position : Reader Tape := fun tape => ⟨.ok tape, tape, []⟩

end Reader

end Turtle
