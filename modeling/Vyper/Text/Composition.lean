import Vyper.Text.CompositionTable

/-!
# Canonical composition

A letter with its marks can be written as one character or as several. `normalize` takes such texts
to one spelling: everything is split, marks are put in the order of their classes, and what can be
composed is composed. Characters that stand for exactly one other are left as they are.
-/

namespace Vyper.Composition

def combiningClass (c : Char) : Nat :=
  if c.toNat < 0x300 then 0 else (CompositionTable.classes.value? c).getD 0

/-- The parts of a Hangul syllable: a syllable without a final and the final, or the two letters. -/
def splitSyllable? (c : Char) : Option (Char × Char) :=
  let index := c.toNat - 0xAC00
  if 0xAC00 ≤ c.toNat ∧ c.toNat ≤ 0xD7A3 then
    if index % 28 = 0 then
      some (Char.ofNat (0x1100 + index / 588), Char.ofNat (0x1161 + index % 588 / 28))
    else some (Char.ofNat (c.toNat - index % 28), Char.ofNat (0x11A7 + index % 28))
  else none

/-- The Hangul syllable made of two parts. -/
def joinSyllable? (a b : Char) : Option Char :=
  let initial := a.toNat - 0x1100
  let medial := b.toNat - 0x1161
  if 0x1100 ≤ a.toNat ∧ initial < 19 ∧ 0x1161 ≤ b.toNat ∧ medial < 21 then
    some (Char.ofNat (0xAC00 + 588 * initial + 28 * medial))
  else if 0xAC00 ≤ a.toNat ∧ a.toNat ≤ 0xD7A3 ∧ (a.toNat - 0xAC00) % 28 = 0 ∧
      0x11A8 ≤ b.toNat ∧ b.toNat ≤ 0x11C2 then
    some (Char.ofNat (a.toNat + (b.toNat - 0x11A7)))
  else none

/-- The two characters that a character is composed of. -/
def split? (c : Char) : Option (Char × Char) :=
  if c.toNat < 0xC0 then none
  else
    (splitSyllable? c).or
      (match CompositionTable.pairs.image? c with
      | some [a, b] => some (a, b)
      | _ => none)

/-- The character composed of two. -/
def join? (a b : Char) : Option Char :=
  if b.toNat < 0x300 then none
  else
    (joinSyllable? a b).or (CompositionTable.pairs.preimage? [a, b])

/-- A character split at most `n` times. -/
def decomposeUpTo : Nat → Char → List Char
  | 0, c => [c]
  | n + 1, c =>
    match split? c with
    | some (a, b) => decomposeUpTo n a ++ [b]
    | none => [c]

/-- A letter and its marks. No character has more than three of them. -/
def decompose (c : Char) : List Char := decomposeUpTo 3 c

/-- A mark in its place among the characters before it, nearest first. -/
def place (c : Char) : List Char → List Char
  | [] => [c]
  | d :: before =>
    if 0 < combiningClass c ∧ combiningClass c < combiningClass d then d :: place c before
    else c :: d :: before

/-- A text with the marks of each letter in the order of their classes. -/
def order (text : List Char) : List Char := (text.foldl (fun before c => place c before) []).reverse

/-- Whether nothing between a letter and a mark keeps them apart; `marks` are those between them,
nearest to the mark first. -/
def reaches (marks : List Char) (c : Char) : Bool :=
  match marks with
  | [] => true
  | m :: _ => combiningClass m < combiningClass c

/-- A letter, the marks after it that did not compose, last one first, and the rest of the text. -/
def composeAfter (letter : Char) (marks : List Char) : List Char → List Char
  | [] => letter :: marks.reverse
  | c :: rest =>
    match if reaches marks c then join? letter c else none with
    | some composed => composeAfter composed marks rest
    | none =>
      if combiningClass c = 0 then letter :: marks.reverse ++ composeAfter c [] rest
      else composeAfter letter (c :: marks) rest

/-- A text with everything composed that can be; marks in front have no letter. -/
def compose : List Char → List Char
  | [] => []
  | c :: rest => if combiningClass c = 0 then composeAfter c [] rest else c :: compose rest

/-- The one spelling of a text. -/
def normalize (text : List Char) : List Char := compose (order (text.flatMap decompose))

end Vyper.Composition
