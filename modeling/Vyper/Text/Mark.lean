import Vyper.Text.MarkTable

/-!
# Marks

Characters that combine with the one before them.
-/

namespace Vyper.Mark

/-- A mark that takes no room of its own. -/
def isNonspacing (c : Char) : Bool := 0x300 ≤ c.toNat && MarkTable.nonspacing.covers c

def isMark (c : Char) : Bool := isNonspacing c || (0x300 ≤ c.toNat && MarkTable.spacing.covers c)

end Vyper.Mark
