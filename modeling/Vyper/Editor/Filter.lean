import Vyper.Syntax.Site

/-!
# Filters

A filter asks for values at the ends of paths of field names. A path that cannot be walked to its
end matches nothing.
-/

namespace Vyper

inductive Expected where
  | text (s : String)
  | flag (b : Bool)
deriving DecidableEq

/-- A path of field names and the value wanted there. -/
structure Constraint where
  path : List String
  value : Expected

def Constraint.holds (c : Constraint) (n : Node) : Bool :=
  match n.get? c.path, c.value with
  | some (.text actual), .text wanted => actual == wanted
  | some (.flag actual), .flag wanted => actual == wanted
  | _, _ => false

/-- Everything that has to hold of a node. -/
abbrev Filter := List Constraint

def Filter.admits (f : Filter) (n : Node) : Bool := f.all (·.holds n)

/-- The nodes of some kinds that pass a filter, in the order of the text. -/
def Tree.select (t : Tree) (kinds : List Kind) (filter : Filter) : List Site :=
  t.sites.filter fun s => kinds.contains s.kind && filter.admits s.node

end Vyper
