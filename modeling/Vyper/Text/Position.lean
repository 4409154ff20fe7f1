/-!
# Places in a source text

A place is a line counted from one and a column counted in characters from zero. A span runs from
one place to another; `Span.cover` is the smallest span around two, whatever their order.
-/

namespace Vyper

/-- A line, counted from one, and a column, counted in characters from zero. -/
structure Pos where
  line : Nat
  col : Nat
deriving DecidableEq

namespace Pos

/-- Places are compared by line, then by column. -/
def le (a b : Pos) : Bool :=
  a.line < b.line || (a.line == b.line && a.col ≤ b.col)

instance : LE Pos := ⟨fun a b => a.le b = true⟩

instance (a b : Pos) : Decidable (a ≤ b) := inferInstanceAs (Decidable (a.le b = true))

def min (a b : Pos) : Pos := if a ≤ b then a else b

def max (a b : Pos) : Pos := if a ≤ b then b else a

/-- The place after one more character: only a line feed starts a new line. -/
def step (p : Pos) (c : Char) : Pos :=
  if c = '\n' then ⟨p.line + 1, 0⟩ else ⟨p.line, p.col + 1⟩

/-- The place after a stretch of text. -/
def advance (p : Pos) (text : List Char) : Pos := text.foldl step p

/-- The first place of every text. -/
def origin : Pos := ⟨1, 0⟩

end Pos

/-- The text from `start` up to, not including, `stop`. -/
structure Span where
  start : Pos
  stop : Pos
deriving DecidableEq

namespace Span

/-- The empty span at a place. -/
def point (p : Pos) : Span := ⟨p, p⟩

/-- The smallest span around both. -/
def cover (a b : Span) : Span := ⟨a.start.min b.start, a.stop.max b.stop⟩

/-- Whether a line, counted from one, falls inside the span. -/
def containsLine (s : Span) (line : Nat) : Bool :=
  s.start.line ≤ line && line ≤ s.stop.line

end Span

end Vyper
