import Turtle.CommandLine.Invocation

/-! The texts that explain the command line and the language of programs. They are laid
out for eighty columns. -/

namespace Turtle.CommandLine

/-- Lines of text, every one ended. -/
def unlines (lines : List String) : String := String.join (lines.map (· ++ "\n"))

def programName : String := "logo_interpreter.py"

/-- The name of the program, or of one of its tasks. -/
def fullName : Option Task → String
  | none => programName
  | some task => programName ++ " " ++ task.name

/-- What may stand on a command line. -/
def usage : Option Task → List String
  | none => [
    "usage: logo_interpreter.py [-h] [-v] \x7brender,validate,format\x7d ..."]
  | some .render => [
    "usage: logo_interpreter.py render [-h] [-o OUTPUT] [--config CONFIG]",
    "                                  [--width WIDTH] [--height HEIGHT]",
    "                                  input"]
  | some .validate => [
    "usage: logo_interpreter.py validate [-h] [--config CONFIG] [--width WIDTH]",
    "                                    [--height HEIGHT]",
    "                                    input"]
  | some .format => [
    "usage: logo_interpreter.py format [-h] input"]

/-- What the parts of a command line mean. -/
def explanation : Option Task → List String
  | none => [
    "Logo-style turtle interpreter that outputs SVG.",
    "",
    "positional arguments:",
    "  \x7brender,validate,format\x7d",
    "    render              Render a program to SVG.",
    "    validate            Parse and run a program and print a brief summary.",
    "    format              Print a program in canonical long-command form.",
    "",
    "options:",
    "  -h, --help            show this help message and exit",
    "  -v, --verbose         Increase log verbosity (repeat for more: -v, -vv,",
    "                        -vvv)."]
  | some .render => [
    "positional arguments:",
    "  input                 Path to the program.",
    "",
    "options:",
    "  -h, --help            show this help message and exit",
    "  -o OUTPUT, --output OUTPUT",
    "                        Where to write the SVG (default: stdout).",
    "  --config CONFIG       Path to a canvas JSON config.",
    "  --width WIDTH         Canvas width.",
    "  --height HEIGHT       Canvas height."]
  | some .validate => [
    "positional arguments:",
    "  input            Path to the program.",
    "",
    "options:",
    "  -h, --help       show this help message and exit",
    "  --config CONFIG  Path to a canvas JSON config.",
    "  --width WIDTH    Canvas width.",
    "  --height HEIGHT  Canvas height."]
  | some .format => [
    "positional arguments:",
    "  input       Path to the program.",
    "",
    "options:",
    "  -h, --help  show this help message and exit"]

/-- The language of programs, and the description of a canvas. -/
def languageText : List String := [
  "PROGRAM SYNTAX",
  "",
  "A program is a text file with one command per line; a command's arguments",
  "sit on its own line. Only a REPEAT block may span lines, and inside it several",
  "commands may share a line. Tokens are separated by whitespace and are",
  "case-sensitive. Blank lines and lines whose",
  "first non-blank character is '#' are ignored, including inside REPEAT blocks.",
  "",
  "Commands",
  "",
  "  FORWARD n   | F n       Move n units (unsigned integer) along the heading.",
  "                          Draws a line while the pen is down.",
  "  LEFT        | L         Quarter turn to the left.",
  "  RIGHT       | R         Quarter turn to the right.",
  "  PENUP       | U         Stop drawing.",
  "  PENDOWN     | D         Start drawing.",
  "  SETSIZE w   | S w       Stroke width (non-negative number).",
  "  SETCOLOR c  | C c       Stroke color, either three bytes \"r g b\" or a hex",
  "                          literal with 1, 3 or 6 digits:",
  "                            0x5      -> 55 55 55 (hex)",
  "                            0xf80    -> ff 88 00 (hex)",
  "                            0xff8800 -> ff 88 00 (hex)",
  "  REPEAT n [ commands ]   Run the enclosed commands n times. Blocks nest and",
  "                          may span several lines.",
  "",
  "The cursor starts at the centre of the canvas heading east (right), with the",
  "pen down, stroke width 2 and color black. The y axis points down.",
  "",
  "Example",
  "",
  "  # a square",
  "  SETCOLOR 0xc00",
  "  REPEAT 4 [",
  "    FORWARD 100",
  "    RIGHT",
  "  ]",
  "",
  "CANVAS CONFIG (--config)",
  "",
  "  An optional JSON object:",
  "",
  "    \x7b",
  "      \"width\": 640, \"height\": 640,",
  "      \"background\": [255, 238, 238],",
  "      \"precision\": 3,",
  "      \"start\": \x7b\"x\": 320, \"y\": 320\x7d,",
  "      \"stroke\": \x7b\"width\": 2, \"color\": \"0x000\"\x7d",
  "    \x7d",
  "",
  "  Colors may be [r, g, b] lists or \"0x...\" strings."]

/-- The answer to a request for help. -/
def helpText (task : Option Task) : String :=
  unlines (usage task ++ "" :: explanation task ++
    if task.isNone then "" :: languageText else [])

/-- The answer to a command line that makes no sense. -/
def misuseText (task : Option Task) (problem : Problem) : String :=
  unlines (usage task ++ [fullName task ++ ": error: " ++ problem.text])

end Turtle.CommandLine
