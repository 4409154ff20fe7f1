import Vyper.Host.MappingTable

/-!
# Mapping of host names

Every character of a host name is kept, replaced, left out or refused. Names that differ in case or
in the width of their letters are the same name after mapping.
-/

namespace Vyper.Host.Mapping

/-- What a character becomes; nothing if no name may have it. -/
def image? (c : Char) : Option (List Char) :=
  if c.toNat < 128 then some [c.toLower]
  else if MappingTable.ignored.covers c then some []
  else
    (MappingTable.replaced.image? c).or (if MappingTable.known.covers c then some [c] else none)

/-- Whether a character is what it becomes. -/
def isKept (c : Char) : Bool := image? c == some [c]

def mapText? (text : List Char) : Option (List Char) := (text.mapM image?).map List.flatten

/-- ASCII characters that no host name may have. -/
def isForbidden (c : Char) : Bool :=
  c.toNat ≤ 0x20 || c.toNat == 0x7F || "#/:<>?@[\\]^|%".toList.contains c

end Vyper.Host.Mapping
