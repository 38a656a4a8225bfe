import Turtle.Command.Basic

/-! Programs as trees. Blocks nest, so a program has parts at every depth: its commands, the
commands of their bodies, and so on. What a program must satisfy in order to be written and
run is asked of each of its parts, and of the number of blocks that enclose one another. -/

namespace Turtle

/-- All three amounts are bytes. -/
def Color.IsBytes (c : Color) : Prop :=
  (0 ≤ c.red ∧ c.red ≤ largestChannel) ∧ (0 ≤ c.green ∧ c.green ≤ largestChannel) ∧
    (0 ≤ c.blue ∧ c.blue ≤ largestChannel)

instance (c : Color) : Decidable c.IsBytes := inferInstanceAs (Decidable (_ ∧ _))

namespace Command

/-- The keyword that begins a command. -/
def keyword : Command → Keyword
  | .forward _ => .forward
  | .turn side => .turn side
  | .pen down => .pen down
  | .setSize _ => .size
  | .setColor _ => .color
  | .block _ _ => .block
  | .blockEnd => .blockEnd

def isBlock : Command → Bool
  | .block _ _ => true
  | _ => false

mutual

/-- A command and all that is inside of it, the outer ones first. -/
def parts : Command → List Command
  | .block count body => .block count body :: partsAll body
  | command => [command]

/-- The parts of several commands, at every depth. -/
def partsAll : List Command → List Command
  | [] => []
  | command :: rest => parts command ++ partsAll rest

end

mutual

/-- How many blocks enclose one another in a command. -/
def nesting : Command → Nat
  | .block _ body => nestingAll body + 1
  | _ => 0

def nestingAll : List Command → Nat
  | [] => 0
  | command :: rest => max (nesting command) (nestingAll rest)

end

/-- What a command can say in a program, its body apart: naturals and bytes within their
limits, a width that is finite and not below zero, and no end of a block. -/
def Fits : Command → Prop
  | .forward distance => 0 ≤ distance ∧ distance ≤ largestNatural
  | .turn _ | .pen _ => True
  | .setSize width => width.isFinite = true ∧ width.isNegative = false
  | .setColor color => color.IsBytes
  | .block count _ => 0 ≤ count ∧ count ≤ largestNatural
  | .blockEnd => False

instance : DecidablePred Fits
  | .forward _ => inferInstanceAs (Decidable (_ ∧ _))
  | .turn _ | .pen _ => inferInstanceAs (Decidable True)
  | .setSize _ => inferInstanceAs (Decidable (_ ∧ _))
  | .setColor color => inferInstanceAs (Decidable color.IsBytes)
  | .block _ _ => inferInstanceAs (Decidable (_ ∧ _))
  | .blockEnd => inferInstanceAs (Decidable False)

end Command

/-- A program that can be written: every part fits, and no block is too deep. -/
structure WellFormed (program : List Command) : Prop where
  fits : ∀ command ∈ Command.partsAll program, command.Fits
  nested : Command.nestingAll program ≤ deepestBlock

instance (program : List Command) : Decidable (WellFormed program) :=
  decidable_of_iff ((∀ command ∈ Command.partsAll program, command.Fits) ∧
    Command.nestingAll program ≤ deepestBlock) ⟨fun h => ⟨h.1, h.2⟩, fun h => ⟨h.1, h.2⟩⟩

namespace Command

/-- Induction over a program: its first command is either a block, whose body is a program
too, or has no body. -/
@[elab_as_elim]
theorem programInduction {motive : List Command → Prop} (nil : motive [])
    (single : ∀ command rest, command.isBlock = false → motive rest → motive (command :: rest))
    (block : ∀ count body rest, motive body → motive rest → motive (.block count body :: rest)) :
    ∀ program, motive program
  | [] => nil
  | .block count body :: rest =>
    block count body rest (programInduction nil single block body)
      (programInduction nil single block rest)
  | .forward _ :: rest | .turn _ :: rest | .pen _ :: rest | .setSize _ :: rest
  | .setColor _ :: rest | .blockEnd :: rest =>
    single _ rest rfl (programInduction nil single block rest)

theorem parts_of_not_block {command : Command} (h : command.isBlock = false) :
    parts command = [command] := by
  cases command <;> simp_all [parts, isBlock]

theorem nesting_of_not_block {command : Command} (h : command.isBlock = false) :
    nesting command = 0 := by
  cases command <;> simp_all [nesting, isBlock]

@[simp] theorem partsAll_nil : partsAll [] = [] := by simp [partsAll]

@[simp] theorem partsAll_cons (command : Command) (rest : List Command) :
    partsAll (command :: rest) = parts command ++ partsAll rest := by simp [partsAll]

@[simp] theorem parts_block (count : Int) (body : List Command) :
    parts (.block count body) = .block count body :: partsAll body := by simp [parts]

@[simp] theorem nestingAll_nil : nestingAll [] = 0 := by simp [nestingAll]

@[simp] theorem nestingAll_cons (command : Command) (rest : List Command) :
    nestingAll (command :: rest) = max (nesting command) (nestingAll rest) := by
  simp [nestingAll]

@[simp] theorem nesting_block (count : Int) (body : List Command) :
    nesting (.block count body) = nestingAll body + 1 := by simp [nesting]

end Command

open Command

theorem WellFormed.head {command : Command} {rest : List Command}
    (h : WellFormed (command :: rest)) : WellFormed [command] := by
  have hfits := h.fits
  have hnested := h.nested
  rw [partsAll_cons] at hfits
  rw [nestingAll_cons] at hnested
  constructor
  · intro part hp
    rw [partsAll_cons, partsAll_nil, List.append_nil] at hp
    exact hfits part (List.mem_append_left _ hp)
  · rw [nestingAll_cons, nestingAll_nil]
    omega

theorem WellFormed.tail {command : Command} {rest : List Command}
    (h : WellFormed (command :: rest)) : WellFormed rest := by
  have hfits := h.fits
  have hnested := h.nested
  rw [partsAll_cons] at hfits
  rw [nestingAll_cons] at hnested
  exact ⟨fun part hp => hfits part (List.mem_append_right _ hp), by omega⟩

end Turtle
