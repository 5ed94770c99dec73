/-!
# Lines of indented text

Output is a list of lines, each a text at a level of indentation. How wide a level is gets decided
only when a line is rendered, so the lines themselves do not depend on it.
-/

namespace Offside

/-- A text and the level at which it stands. -/
structure Line where
  level : Nat
  text : String
deriving DecidableEq

/-- The line with `width` blanks before it for every level. -/
def Line.render (width : Nat) (line : Line) : String :=
  "".pushn ' ' (line.level * width) ++ line.text

/-- Lines one below the other, without a newline at the end. -/
def joinLines (lines : List String) : String :=
  String.intercalate "\n" lines

end Offside
