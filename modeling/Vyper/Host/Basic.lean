import Vyper.Host.Address
import Vyper.Host.Name
import Vyper.Text.Percent
import Vyper.Text.Utf8

/-!
# Hosts

The host that a URI names: an address, or a name.
-/

namespace Vyper

inductive Host where
  | address
  | name (text : List Char)
deriving DecidableEq

namespace Host

/-- This machine. -/
def localhost : Host := .name "localhost".toList

/-- The host that a text spells. A name that ends in a number has to be an address. -/
def ofText? (text : List Char) : Option Host :=
  match text with
  | '[' :: rest =>
    if rest.getLast? = some ']' && Address.isVersion6 rest.dropLast then some .address else none
  | _ =>
    match Name.ofText? (Utf8.decode (Percent.decode (Utf8.encode text))) with
    | none | some [] => none
    | some read =>
      if Address.endsInNumber read then if Address.isVersion4 read then some .address else none
      else some (.name read)

end Host

end Vyper
