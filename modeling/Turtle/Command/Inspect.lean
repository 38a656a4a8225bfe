import Turtle.Binary64.Text
import Turtle.Command.Basic

/-! The constructor form of a command, in which a log shows how it was understood: the
kind of command and its fields by name. -/

namespace Turtle

/-- Members between parentheses; a single one is followed by a comma. -/
def tupleText : List String → String
  | [] => "()"
  | [member] => "(" ++ member ++ ",)"
  | members => "(" ++ ", ".intercalate members ++ ")"

mutual

def Command.inspect : Command → String
  | .forward distance => s!"Forward(distance={distance})"
  | .turn .left => "Left()"
  | .turn .right => "Right()"
  | .pen false => "PenUp()"
  | .pen true => "PenDown()"
  | .setSize width => s!"SetSize(width={width.text})"
  | .setColor color => s!"SetColor(r={color.red}, g={color.green}, b={color.blue})"
  | .block count body =>
    s!"Repeat(count={count}, body=" ++ tupleText (Command.inspectAll body) ++ ")"
  | .blockEnd => "EndRepeat()"

def Command.inspectAll : List Command → List String
  | [] => []
  | command :: rest => command.inspect :: Command.inspectAll rest

end

end Turtle
