/-!
# UTF-8 that may be broken

Bytes decoded to text where bytes that are no UTF-8 become replacement characters: one for every
longest stretch that starts a character and does not complete it.
-/

namespace Vyper.Utf8

/-- The character for bytes that are none. -/
def replacement : Char := '\ufffd'

/-- What a first byte announces: how many bytes follow, where the first of them lies, and the bits
the byte itself contributes. -/
def lead (b : Nat) : Option (Nat × (Nat × Nat) × Nat) :=
  if b < 0x80 then some (0, (0x80, 0xBF), b)
  else if b < 0xC2 then none
  else if b < 0xE0 then some (1, (0x80, 0xBF), b - 0xC0)
  else if b = 0xE0 then some (2, (0xA0, 0xBF), 0)
  else if b = 0xED then some (2, (0x80, 0x9F), 0xD)
  else if b < 0xF0 then some (2, (0x80, 0xBF), b - 0xE0)
  else if b = 0xF0 then some (3, (0x90, 0xBF), 0)
  else if b < 0xF4 then some (3, (0x80, 0xBF), b - 0xF0)
  else if b = 0xF4 then some (3, (0x80, 0x8F), 4)
  else none

/-- Reads the bytes that follow a first byte; stops at one that does not belong. -/
def follow : Nat → Nat × Nat → Nat → List Nat → Option Nat × List Nat
  | 0, _, value, bytes => (some value, bytes)
  | _ + 1, _, _, [] => (none, [])
  | n + 1, (low, high), value, b :: bytes =>
    if low ≤ b ∧ b ≤ high then follow n (0x80, 0xBF) (64 * value + b % 64) bytes
    else (none, b :: bytes)

theorem length_follow_le (n : Nat) (range : Nat × Nat) (value : Nat) (bytes : List Nat) :
    (follow n range value bytes).2.length ≤ bytes.length := by
  fun_induction follow n range value bytes <;> simp_all
  omega

/-- The text of some bytes, with replacement characters where they are no UTF-8. -/
def decode : List Nat → List Char
  | [] => []
  | b :: bytes =>
    match lead b with
    | none => replacement :: decode bytes
    | some (n, range, value) =>
      have := length_follow_le n range value bytes
      ((follow n range value bytes).1.map Char.ofNat).getD replacement ::
        decode (follow n range value bytes).2
termination_by bytes => bytes.length

/-- The bytes of a text. -/
def encode (text : List Char) : List Nat :=
  (String.ofList text).toUTF8.toList.map UInt8.toNat

end Vyper.Utf8
