/-!
# Spans

A `Span` says where a stretch of source text lies. Tokens carry one, and so do the faults that
can point at a place.
-/

namespace Offside

/-- A stretch of source text: the offset of its first character, the offset just after its last
one (both counted in characters), and the line, from 1, on which it starts. -/
structure Span where
  start : Nat
  stop : Nat
  line : Nat
deriving DecidableEq

/-- The span of something that has no place in a source text. -/
def Span.nowhere : Span := ⟨0, 0, 1⟩

instance : Inhabited Span := ⟨Span.nowhere⟩

end Offside
