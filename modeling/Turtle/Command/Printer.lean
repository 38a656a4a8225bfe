import Turtle.Command.Basic
import Turtle.Binary64.Text

/-! The canonical text of a program: long words, one command on a line, one blank between
two words. -/

namespace Turtle

mutual

/-- The words of a command in canonical form. -/
def Command.words : Command → List String
  | .forward distance => [Keyword.forward.word, toString distance]
  | .turn side => [(Keyword.turn side).word]
  | .pen down => [(Keyword.pen down).word]
  | .setSize width => [Keyword.size.word, width.text]
  | .setColor color =>
    [Keyword.color.word, toString color.red, toString color.green, toString color.blue]
  | .block count body =>
    Keyword.block.word :: toString count :: "[" :: (Command.wordsAll body ++ ["]"])
  | .blockEnd => [Keyword.blockEnd.word]

/-- The words of several commands, one after another. -/
def Command.wordsAll : List Command → List String
  | [] => []
  | command :: rest => command.words ++ Command.wordsAll rest

end

/-- The canonical text of a command. -/
def Command.text (command : Command) : String := " ".intercalate command.words

/-- The canonical text of a program. -/
def programText (program : List Command) : String :=
  String.join (program.map fun command => command.text ++ "\n")

end Turtle
