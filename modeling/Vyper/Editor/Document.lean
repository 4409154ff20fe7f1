import Vyper.Editor.Range
import Vyper.Editor.Uri
import Vyper.Text.Lines
import Vyper.Text.Utf16

/-!
# Open documents

A document is its URI and its current text. Positions on it count UTF-16 units; a column past the
end of a line means the end, and one inside a pair means the start of that character. An edit
replaces the text between two positions, or nothing when a position is out of reach.
-/

namespace Vyper

structure Document where
  uri : String
  text : List Char

/-- A position below the end of a document. -/
structure InvalidPosition where
  position : Position
deriving DecidableEq

def InvalidPosition.message (e : InvalidPosition) : String :=
  s!"invalid position {e.position.line}:{e.position.character}"

namespace Document

/-- A document for a file. -/
def ofPath? (path : Path) (text : List Char) : Option Document :=
  (Uri.ofPath? path).map fun uri => ⟨uri, text⟩

def lineCount (d : Document) : Nat := Lines.count d.text

def line? (d : Document) (line : Nat) : Option (List Char) := Lines.line? d.text line

def lines (d : Document) : List (List Char) := (Lines.ofText d.text).map Lines.content

/-- The line of a position and the index of its character in the line. -/
def cursor? (d : Document) (p : Position) : Option (List Char × Nat) :=
  (d.line? p.line).map fun line => (line, Utf16.charIndex line p.character)

/-- A position with its column measured in UTF-16 units. A line past the end is left alone. -/
def utf16Position (d : Document) (p : Position) : Position :=
  match d.line? p.line with
  | some line => { p with character := Utf16.ofCharIndex line p.character }
  | none => p

/-- A range with its columns measured in UTF-16 units. -/
def utf16Range (d : Document) (r : Range) : Range :=
  ⟨d.utf16Position r.start, d.utf16Position r.stop⟩

/-- The number of characters before a position. One line past the last is the end of the text. -/
def offset (d : Document) (p : Position) : Except InvalidPosition Nat :=
  if p.line = d.lineCount then .ok d.text.length
  else
    match d.cursor? p with
    | some (_, index) => .ok (Lines.start d.text p.line + index)
    | none => .error ⟨p⟩

/-- The text with what lies between two offsets replaced. -/
def splice (text : List Char) (first last : Nat) (replacement : List Char) : List Char :=
  text.take first ++ replacement ++ text.drop last

/-- Applies an edit; one without a range replaces the whole text. -/
def applyChange (d : Document) (range : Option Range) (replacement : List Char) :
    Except InvalidPosition Document :=
  match range with
  | none => .ok { d with text := replacement }
  | some r => do
    let first ← d.offset r.start
    let last ← d.offset r.stop
    return { d with text := splice d.text (min first last) (max first last) replacement }

/-- The file the document is. -/
def path? (d : Document) : Option Path := Uri.toPath? d.uri

/-- Where imports are looked for: the directory of the document, else the working directory. -/
def searchPaths (d : Document) (workingDirectory : Option Path) : List Path :=
  ((d.path?.bind Path.parent?).or workingDirectory).toList

end Document

end Vyper
