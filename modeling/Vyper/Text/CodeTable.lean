import Vyper.Text.Search

/-!
# Tables of code points

A table is a list of stretches of code points in increasing order, written as a text with blanks
between the stretches and all numbers in base 62. A stretch is written by its distance from the one
before it, which is left out if it is one, and by how far it goes on: `2X` is one code point,
`co-1N` a range of 112, `48-K/2` every second one of a range. What follows a `>` is the value of a
stretch, one number or several joined by `+`. Another `>` behind that gives the value of the next
code point.
-/

namespace Vyper

structure Stretch where
  first : Nat
  last : Nat
  step : Nat := 1
  values : List Nat := []
deriving DecidableEq

def Stretch.covers (s : Stretch) (c : Char) : Bool :=
  s.first ≤ c.toNat && c.toNat ≤ s.last && (c.toNat - s.first) % s.step == 0

abbrev CodeTable := List Stretch

namespace CodeTable

/-- The value of a digit in base 62: decimal digits, small letters, capitals. -/
def digit (c : Char) : Nat :=
  if c.isDigit then c.toNat - 48 else if c.isLower then c.toNat - 87 else c.toNat - 29

/-- The number written in base 62. -/
def number (text : List Char) : Nat := text.foldl (fun n c => 62 * n + digit c) 0

/-- The text before and after the first mark. -/
def cutAt (mark : Char) (text : List Char) : List Char × List Char :=
  (text.takeWhile (· ≠ mark), (text.dropWhile (· ≠ mark)).drop 1)

/-- The code points and the values of the stretches that a word describes. -/
def entries (word : List Char) : List (List Char × List Char) :=
  match Search.pieces (· == '>') word with
  | codes :: values :: more => (codes, values) :: more.map ([], ·)
  | codes => codes.map (·, [])

/-- The stretch that an entry describes behind a code point. -/
def stretchOfEntry (behind : Nat) : List Char × List Char → Stretch
  | (codes, values) =>
    let (range, step) := cutAt '/' codes
    let (distance, more) := cutAt '-' range
    let first := behind + if distance.isEmpty then 1 else number distance
    {
      first
      last := first + number more
      step := if step.isEmpty then 1 else number step
      values := ((Search.pieces (· == '+') values).filter (!·.isEmpty)).map number
    }

/-- The stretches that entries describe, one behind the other. -/
def ofEntries : Nat → List (List Char × List Char) → CodeTable
  | _, [] => []
  | behind, entry :: more =>
    let stretch := stretchOfEntry behind entry
    stretch :: ofEntries stretch.last more

/-- The table that a text describes. -/
def ofText (text : String) : CodeTable :=
  let words := Search.pieces (fun c => c == ' ' || c == '\n') text.toList
  ofEntries 0 ((words.filter (!·.isEmpty)).flatMap entries)

/-- The stretch that a character lies in. -/
def stretch? (t : CodeTable) (c : Char) : Option Stretch := t.find? (·.covers c)

def covers (t : CodeTable) (c : Char) : Bool := (t.stretch? c).isSome

/-- The first value of the stretch that a character lies in. -/
def value? (t : CodeTable) (c : Char) : Option Nat := (t.stretch? c).bind (·.values.head?)

/-- The characters that a character stands for: the values of its stretch, moved along with it. -/
def image? (t : CodeTable) (c : Char) : Option (List Char) :=
  (t.stretch? c).map fun s => s.values.map fun v => Char.ofNat (v + (c.toNat - s.first))

/-- The character at the start of the stretch with given values. -/
def preimage? (t : CodeTable) (values : List Char) : Option Char :=
  (t.find? (·.values == values.map Char.toNat)).map fun s => Char.ofNat s.first

end CodeTable

end Vyper
