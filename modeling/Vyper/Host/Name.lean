import Vyper.Host.Direction
import Vyper.Host.Joining
import Vyper.Host.Mapping
import Vyper.Host.Punycode
import Vyper.Text.Search

/-!
# Names of hosts

A name is a row of labels with dots between them, in the script of its language. `ofText?` maps and
composes a text, reads the labels that are written in ASCII form, and checks the outcome.
-/

namespace Vyper.Host.Name

/-- A label as it is read: one in ASCII form stands for what it encodes, which must be something
that had to be encoded and would be kept as it is. -/
def readLabel? (label : List Char) : Option (List Char) :=
  match Search.dropFront? "xn--".toList label with
  | none => some label
  | some code =>
    if code.isEmpty || code.getLast? = some '-' || code.any (128 ≤ ·.toNat) then none
    else
      match Punycode.decode? code with
      | some read =>
        if read.all Mapping.isKept && Composition.normalize read = read then some read else none
      | none => none

/-- Whether a label starts with a character of its own and its joiners show. -/
def isSound (label : List Char) : Bool := !label.head?.any Mark.isMark && Joining.fits label

/-- The name that a text spells. -/
def ofText? (text : List Char) : Option (List Char) := do
  let mapped ← Mapping.mapText? text
  if mapped.any Mapping.isForbidden then none
  else
    let labels ← (Search.pieces (· == '.') (Composition.normalize mapped)).mapM readLabel?
    if labels.all isSound && Direction.fits labels then some (['.'].intercalate labels) else none

end Vyper.Host.Name
