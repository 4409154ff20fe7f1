/-!
# Lines of an editor text

An editor's lines end at a line feed, a carriage return, the two together, or one of the other line
breaks of Unicode. A line keeps its break, so the lines of a text joined give the text
(`flatten_ofText`); after the last break there is always one more line, perhaps empty.
-/

namespace Vyper.Lines

/-- The characters that end a line by themselves. -/
def isBreak (c : Char) : Bool :=
  ['\n', '\r', '\x0b', '\x0c', '\u0085', '\u2028', '\u2029'].contains c

/-- The lines of a text, each with its break. -/
def ofText : List Char → List (List Char)
  | [] => [[]]
  | '\r' :: '\n' :: cs => ['\r', '\n'] :: ofText cs
  | c :: cs =>
    if isBreak c then [c] :: ofText cs
    else match ofText cs with
      | [] => [[c]]
      | line :: lines => (c :: line) :: lines

theorem ofText_ne_nil (text : List Char) : ofText text ≠ [] := by
  fun_cases ofText text <;> simp_all

/-- No character of the text is lost or moved. -/
theorem flatten_ofText (text : List Char) : (ofText text).flatten = text := by
  fun_induction ofText text <;> simp_all

/-- The number of lines. -/
def count (text : List Char) : Nat := (ofText text).length

/-- Line feeds and carriage returns are no part of what a line says; other breaks are. -/
def content (line : List Char) : List Char :=
  (line.reverse.dropWhile fun c => c == '\n' || c == '\r').reverse

/-- What a line counted from zero says. -/
def line? (text : List Char) (line : Nat) : Option (List Char) :=
  (ofText text)[line]?.map content

/-- The number of characters before a line counted from zero. -/
def start (text : List Char) (line : Nat) : Nat := ((ofText text).take line).flatten.length

end Vyper.Lines
