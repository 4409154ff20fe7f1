/-!
# UTF-16 code units

Editors count columns in UTF-16 code units. `length` measures a text in units and `charIndex` turns
a unit offset back into a character index: an offset between the two halves of a pair means the
start of that character, an offset past the end means the end.
-/

namespace Vyper.Utf16

/-- One unit, or two for a character outside the basic plane. -/
def units (c : Char) : Nat := if c.val < 0x10000 then 1 else 2

def length : List Char → Nat
  | [] => 0
  | c :: cs => units c + length cs

/-- The character that holds unit `offset`. -/
def charIndex : List Char → Nat → Nat
  | [], _ => 0
  | c :: cs, offset => if offset < units c then 0 else 1 + charIndex cs (offset - units c)

/-- The unit offset at which character `index` starts. -/
def ofCharIndex (text : List Char) (index : Nat) : Nat := length (text.take index)

end Vyper.Utf16
