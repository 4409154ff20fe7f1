import Vyper.Text.Position

/-!
# Positions and ranges of an editor

Lines and columns counted from zero. Columns of a position the editor sends count UTF-16 units; a
range made from a span counts characters until a document measures it again.
-/

namespace Vyper

structure Position where
  line : Nat
  character : Nat
deriving DecidableEq

structure Range where
  start : Position
  stop : Position
deriving DecidableEq

/-- A span, with its lines counted from zero. -/
def Range.ofSpan (s : Span) : Range :=
  ⟨⟨s.start.line - 1, s.start.col⟩, ⟨s.stop.line - 1, s.stop.col⟩⟩

end Vyper
