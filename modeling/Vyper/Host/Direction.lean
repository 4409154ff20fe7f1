import Vyper.Host.DirectionTable
import Vyper.Text.Mark

/-!
# Direction of host names

Once a name has a character that runs from right to left, each of its labels has to keep to one
direction, so that the order of the labels on a screen is never in doubt.
-/

namespace Vyper.Host

inductive Direction where
  | left | right | arabicNumber | europeanNumber | neutral | nonspacing
deriving DecidableEq

namespace Direction

def ofChar (c : Char) : Direction :=
  if c.toNat < 128 then
    if c.isAlpha then .left else if c.isDigit then .europeanNumber else .neutral
  else if Mark.isNonspacing c then .nonspacing
  else if DirectionTable.right.covers c then .right
  else if DirectionTable.arabicNumber.covers c then .arabicNumber
  else if DirectionTable.europeanNumber.covers c then .europeanNumber
  else if DirectionTable.neutral.covers c then .neutral
  else .left

/-- Whether a character makes a name one of mixed direction. -/
def isTurning (d : Direction) : Bool := d == .right || d == .arabicNumber

/-- Whether a label keeps to the direction of its first character, marks at its end apart. -/
def keeps (label : List Direction) : Bool :=
  let ending := (label.reverse.dropWhile (· == .nonspacing)).head?
  match label with
  | [] => true
  | .left :: _ =>
    label.all (!·.isTurning) && (ending == some .left || ending == some .europeanNumber)
  | .right :: _ =>
    label.all (· != .left) && ending != some .neutral &&
      !(label.contains .arabicNumber && label.contains .europeanNumber)
  | _ => false

/-- Whether the labels of a name can stand side by side. -/
def fits (labels : List (List Char)) : Bool :=
  let directions := labels.map (·.map ofChar)
  !directions.any (·.any isTurning) || directions.all keeps

end Direction

end Vyper.Host
