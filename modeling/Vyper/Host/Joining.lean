import Vyper.Host.JoiningTable
import Vyper.Text.Composition
import Vyper.Text.Mark

/-!
# Joiners in host names

Two characters without a shape of their own tell whether the letters around them join. A name may
have them only where they show: after a sign that silences the vowel of a consonant, or, for the one
that keeps letters apart, between letters that would join without it.
-/

namespace Vyper.Host.Joining

def isTransparent (c : Char) : Bool := Mark.isNonspacing c || JoiningTable.transparent.covers c

def joinsNext (c : Char) : Bool := JoiningTable.dual.covers c || JoiningTable.after.covers c

def joinsPrevious (c : Char) : Bool := JoiningTable.dual.covers c || JoiningTable.before.covers c

/-- Whether the first character that is not transparent has a property. -/
def firstShown (p : Char → Bool) (text : List Char) : Bool :=
  (text.dropWhile isTransparent).head?.any p

/-- The sign of a consonant without a vowel. -/
def isSilencer (c : Char) : Bool := Composition.combiningClass c == 9

/-- Whether a character may stand between what comes before it, nearest first, and after it. -/
def fitsBetween (before : List Char) (c : Char) (after : List Char) : Bool :=
  if c = '\u200d' then before.head?.any isSilencer
  else if c = '\u200c' then
    before.head?.any isSilencer || (firstShown joinsNext before && firstShown joinsPrevious after)
  else true

def fitsAfter (before : List Char) : List Char → Bool
  | [] => true
  | c :: after => fitsBetween before c after && fitsAfter (c :: before) after

/-- Whether every joiner of a label shows. -/
def fits (label : List Char) : Bool := fitsAfter [] label

end Vyper.Host.Joining
