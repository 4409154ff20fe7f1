import Vyper.Text.Search

/-!
# Numeric addresses

Which texts are addresses of the two versions of the internet protocol. An address of version 6 has
eight groups, the last two of which may be written as an address of version 4, and one run of groups
may be left out. An address of version 4 may be written with fewer than four numbers, and in octal
or hexadecimal.
-/

namespace Vyper.Host.Address

def isHexDigit (c : Char) : Bool := c.isDigit || ('a' ≤ c && c ≤ 'f') || ('A' ≤ c && c ≤ 'F')

/-- A group of an address of version 6. -/
def isGroup (text : List Char) : Bool :=
  !text.isEmpty && text.length ≤ 4 && text.all isHexDigit

/-- A number below 256, without needless zeros. -/
def isOctet (text : List Char) : Bool :=
  match text with
  | [] => false
  | ['0'] => true
  | first :: _ =>
    first ≠ '0' && text.length ≤ 3 && text.all Char.isDigit &&
      text.foldl (fun n c => 10 * n + (c.toNat - 48)) 0 < 256

/-- Four numbers with dots between them. -/
def isDotted (text : List Char) : Bool :=
  let parts := Search.pieces (· == '.') text
  parts.length == 4 && parts.all isOctet

/-- How many groups some groups count for; the last one may be a dotted address. -/
def countGroups : List (List Char) → Option Nat
  | [] => some 0
  | [last] => if isGroup last then some 1 else if isDotted last then some 2 else none
  | group :: rest => if isGroup group then (countGroups rest).map (· + 1) else none

/-- The groups of a text between colons; a text that is empty has none. -/
def groupsOf (text : List Char) : List (List Char) :=
  if text.isEmpty then [] else Search.pieces (· == ':') text

/-- A text cut at its first two colons in a row. -/
def cutAtGap : List Char → Option (List Char × List Char)
  | ':' :: ':' :: rest => some ([], rest)
  | c :: rest => (cutAtGap rest).map fun (before, after) => (c :: before, after)
  | [] => none

def isVersion6 (text : List Char) : Bool :=
  match cutAtGap text with
  | some (before, after) =>
    (groupsOf before).all isGroup &&
      (countGroups (groupsOf after)).any fun n => (groupsOf before).length + n ≤ 7
  | none => countGroups (groupsOf text) == some 8

/-- The digits of a number in a base. -/
def digits? (base : Nat) (text : List Char) : Option Nat :=
  text.foldlM (fun n c =>
    let d := if c.isDigit then c.toNat - 48 else if isHexDigit c then c.toLower.toNat - 87 else 16
    if d < base then some (base * n + d) else none) 0

/-- A number of an address of version 4: hexadecimal after `0x`, octal after another zero. -/
def number? (text : List Char) : Option Nat :=
  match text with
  | [] => none
  | '0' :: 'x' :: digits | '0' :: 'X' :: digits => digits? 16 digits
  | '0' :: digits => digits? 8 digits
  | digits => digits? 10 digits

/-- The parts of a name between dots; a dot at the end has nothing after it. -/
def partsOf (name : List Char) : List (List Char) :=
  let parts := Search.pieces (· == '.') name
  if parts.getLast? = some [] then parts.dropLast else parts

/-- Whether a name can only be an address of version 4: its last part is a number. -/
def endsInNumber (name : List Char) : Bool :=
  (partsOf name).getLast?.any fun part =>
    (!part.isEmpty && part.all Char.isDigit) || (number? part).isSome

/-- At most four numbers, all but the last below 256, the last below what is left of 2^32. -/
def isVersion4 (name : List Char) : Bool :=
  match (partsOf name).mapM number? with
  | none => false
  | some numbers =>
    numbers.length ≤ 4 && numbers.dropLast.all (· < 256) &&
      numbers.getLast?.any (· < Nat.pow 256 (5 - numbers.length))

end Vyper.Host.Address
