import Turtle.Binary64.Text
import Turtle.Figure
import Turtle.Svg.Escape

/-! Documents of vector graphics: a background and strokes. Every number in a document is
written with the same greatest count of decimal places. -/

namespace Turtle.Svg

inductive Element where
  | background (width height : Binary64) (color : Color)
  | stroke (segment : Segment)

structure Document where
  places : Nat
  title : Option String
  elements : List Element

def colorText (c : Color) : String := s!"rgb({c.red},{c.green},{c.blue})"

/-- An attribute and its value in quotation marks. -/
def attr (name value : String) : String := name ++ "=\"" ++ value ++ "\""

def Element.text (places : Nat) : Element → String
  | .background width height color =>
    "  <rect " ++ " ".intercalate [
      attr "x" "0", attr "y" "0",
      attr "width" (width.compact places), attr "height" (height.compact places),
      attr "fill" (colorText color)] ++ " />"
  | .stroke segment =>
    "  <line " ++ " ".intercalate [
      attr "x1" (segment.start.x.compact places),
      attr "y1" (segment.start.y.compact places),
      attr "x2" (segment.finish.x.compact places),
      attr "y2" (segment.finish.y.compact places),
      attr "stroke" (colorText segment.color),
      attr "stroke-width" (segment.width.compact places),
      attr "stroke-linecap" "round"] ++ " />"

/-- The size that an element gives to its document. -/
def Element.size? : Element → Option (Binary64 × Binary64)
  | .background width height _ => some (width, height)
  | .stroke _ => none

namespace Document

/-- A document is as large as its last background, and without one it has no extent. -/
def size (d : Document) : Binary64 × Binary64 :=
  (d.elements.reverse.findSome? Element.size?).getD (.zero false, .zero false)

/-- The element that names the document; an empty title is left out. -/
def titleLines (d : Document) : List String :=
  match d.title with
  | none => []
  | some title => if title.isEmpty then [] else ["  <title>" ++ escape title ++ "</title>"]

/-- The opening of the document's root. -/
def opening (d : Document) : String :=
  let width := d.size.1.compact d.places
  let height := d.size.2.compact d.places
  "<svg " ++ " ".intercalate [
    attr "xmlns" "http://www.w3.org/2000/svg", attr "version" "1.1",
    attr "width" width, attr "height" height,
    attr "viewBox" ("0 0 " ++ width ++ " " ++ height)] ++ ">"

def lines (d : Document) : List String :=
  "<?xml version=\"1.0\" encoding=\"UTF-8\"?>" :: d.opening :: d.titleLines ++
    d.elements.map (Element.text d.places) ++ ["</svg>"]

/-- The text of a document; every line is ended. -/
def text (d : Document) : String := String.join (d.lines.map (· ++ "\n"))

end Document

end Turtle.Svg
