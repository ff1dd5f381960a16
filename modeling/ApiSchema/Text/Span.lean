/-!
# Source locations

Nodes carry a range of positions, and diagnostics point at a span. A range whose end lies before
its start yields an empty span.
-/

namespace ApiSchema

/-- A run of `length` positions from `start`. -/
structure Span where
  /-- The first position. -/
  start : Nat
  /-- The number of positions. -/
  length : Nat
  deriving DecidableEq, Inhabited

namespace Span

/-- The span from `start` up to `stop`, empty if `stop` does not lie after `start`. -/
def ofBounds (start stop : Nat) : Span := ⟨start, stop - start⟩

/-- The position after the last one. -/
def stop (s : Span) : Nat := s.start + s.length

/-- A span is written as its bounds. -/
def render (s : Span) : String := toString s.start ++ ".." ++ toString s.stop

end Span

/-- A pair of positions, the second not included. -/
structure TextRange where
  /-- The first position. -/
  start : Nat
  /-- The position after the last one. -/
  stop : Nat
  deriving DecidableEq

namespace TextRange

/-- The empty range at the beginning of the text. -/
def zero : TextRange := ⟨0, 0⟩

instance : Inhabited TextRange := ⟨zero⟩

/-- The span that a range covers. -/
def toSpan (r : TextRange) : Span := Span.ofBounds r.start r.stop

/-- A range is written as its bounds. -/
def render (r : TextRange) : String := toString r.start ++ ".." ++ toString r.stop

end TextRange

end ApiSchema
