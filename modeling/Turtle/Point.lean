import Turtle.Binary64.Basic

/-! Points of the plane. -/

namespace Turtle

structure Point where
  x : Binary64
  y : Binary64
  deriving DecidableEq

end Turtle
