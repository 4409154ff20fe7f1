/-!
# Escaped bytes

Bytes of which some are written as a percent sign and two hexadecimal digits.
-/

namespace Vyper.Percent

/-- The value of a byte that is a hexadecimal digit. -/
def hexValue (b : Nat) : Option Nat :=
  if 48 ≤ b ∧ b ≤ 57 then some (b - 48)
  else if 65 ≤ b ∧ b ≤ 70 then some (b - 55)
  else if 97 ≤ b ∧ b ≤ 102 then some (b - 87)
  else none

/-- The bytes with their escapes undone; a percent sign without two digits is kept. -/
def decode : List Nat → List Nat
  | [] => []
  | 0x25 :: a :: b :: rest =>
    match hexValue a, hexValue b with
    | some x, some y => (16 * x + y) :: decode rest
    | _, _ => 0x25 :: decode (a :: b :: rest)
  | b :: rest => b :: decode rest

end Vyper.Percent
