import Vyper.Text.Position

/-!
# Rows of a source text

Spans count lines by line feeds alone: a text has one row more than it has line feeds. The text of
a row leaves out the line feed and every carriage return before it. Columns past the end of a row
stand for its end.
-/

namespace Vyper.Rows

/-- The rows of a text, without their line feeds. There is always at least one. -/
def ofText : List Char → List (List Char)
  | [] => [[]]
  | c :: cs =>
    if c = '\n' then [] :: ofText cs
    else match ofText cs with
      | [] => [[c]]
      | row :: rows => (c :: row) :: rows

/-- The number of rows. -/
def count (text : List Char) : Nat := (ofText text).length

/-- A row without the carriage returns at its end. -/
def stripReturns (row : List Char) : List Char :=
  (row.reverse.dropWhile (· == '\r')).reverse

/-- The text of a row counted from zero. -/
def row? (text : List Char) (line : Nat) : Option (List Char) :=
  (ofText text)[line]?.map stripReturns

/-- The number of characters before a row counted from zero. -/
def start (text : List Char) (line : Nat) : Nat :=
  (((ofText text).take line).map (·.length + 1)).foldl (· + ·) 0

/-- The number of characters before a row and column, both counted from zero. -/
def offset? (text : List Char) (line column : Nat) : Option Nat :=
  (row? text line).map fun row => start text line + Nat.min column row.length

/-- The size of a text in UTF-8 bytes. -/
def bytes (text : List Char) : Nat := (text.map Char.utf8Size).foldl (· + ·) 0

/-- The number of bytes before a row and column, both counted from zero. -/
def byteOffset? (text : List Char) (line column : Nat) : Option Nat :=
  (offset? text line column).map fun chars => bytes (text.take chars)

/-- The row and column, counted from zero, reached after `budget` bytes of a text. -/
def lineColFrom (line col : Nat) : Nat → List Char → Nat × Nat
  | _, [] => (line, col)
  | budget, c :: cs =>
    if budget = 0 then (line, col)
    else if c = '\n' then lineColFrom (line + 1) 0 (budget - c.utf8Size) cs
    else lineColFrom line (col + 1) (budget - c.utf8Size) cs

/-- The row and column of a byte offset; an offset past the end stands for the end. -/
def lineCol (text : List Char) (offset : Nat) : Nat × Nat := lineColFrom 0 0 offset text

/-- The text a span covers; empty when the span lies outside the text or runs backwards. -/
def slice (text : List Char) (span : Span) : List Char :=
  match offset? text (span.start.line - 1) span.start.col,
      offset? text (span.stop.line - 1) span.stop.col with
  | some first, some last => if first ≤ last then (text.drop first).take (last - first) else []
  | _, _ => []

end Vyper.Rows
