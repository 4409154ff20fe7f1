/-!
# Punycode

A label outside ASCII written in ASCII: the ASCII characters of the label, a dash, and for each of
the others how far it lies from the one before, as a number of variable length.
-/

namespace Vyper.Host.Punycode

def digit? (c : Char) : Option Nat :=
  if 'a' ≤ c ∧ c ≤ 'z' then some (c.toNat - 97)
  else if 'A' ≤ c ∧ c ≤ 'Z' then some (c.toNat - 65)
  else if c.isDigit then some (c.toNat - 22)
  else none

/-- The least digit that does not end a number, at the place that counts `k`. -/
def threshold (k bias : Nat) : Nat := min 26 (max 1 (k - bias))

/-- A distance divided until it is small, and how much that adds to the bias. -/
def shrink (delta k : Nat) : Nat × Nat :=
  if 455 < delta then shrink (delta / 35) (k + 36) else (delta, k)
termination_by delta
decreasing_by exact Nat.div_lt_self (by omega) (by omega)

/-- The bias after a distance, in a text of `length` characters. -/
def adapt (delta length : Nat) (isFirst : Bool) : Nat :=
  let delta := if isFirst then delta / 700 else delta / 2
  let (rest, k) := shrink (delta + delta / length) 0
  k + 36 * rest / (rest + 38)

/-- Reads one number onto `i`, and returns it with the text behind it. -/
def readNumber (bias k weight i : Nat) : List Char → Option (Nat × List Char)
  | [] => none
  | c :: rest => do
    let d ← digit? c
    let t := threshold k bias
    if d < t then some (i + d * weight, rest)
    else readNumber bias (k + 36) (weight * (36 - t)) (i + d * weight) rest

theorem length_lt_of_readNumber {bias k weight i n : Nat} {text rest : List Char}
    (h : readNumber bias k weight i text = some (n, rest)) : rest.length < text.length := by
  induction text generalizing k weight i with
  | nil => simp [readNumber] at h
  | cons c text ih =>
    rw [readNumber] at h
    cases hd : digit? c with
    | none => simp [hd] at h
    | some d =>
      simp only [hd, Option.bind_eq_bind, Option.bind_some] at h
      split at h
      · simp_all
      · have := ih h
        simp only [List.length_cons]
        omega

/-- A code point that is a character. -/
def char? (n : Nat) : Option Char := if n.isValidChar then some (Char.ofNat n) else none

/-- Puts the characters that are left to read into their places: the next one is at least `n` and
comes at or behind the place `i`. -/
def insertAll (n bias i : Nat) (label text : List Char) : Option (List Char) :=
  if text.isEmpty then some label
  else
    match h : readNumber bias 36 1 i text with
    | none => none
    | some (j, rest) =>
      have := length_lt_of_readNumber h
      let length := label.length + 1
      let n := n + j / length
      match char? n with
      | none => none
      | some c =>
        insertAll n (adapt (j - i) length (i == 0)) (j % length + 1)
          (label.insertIdx (j % length) c) rest
termination_by text.length

/-- The label behind its ASCII form. -/
def decode? (text : List Char) : Option (List Char) :=
  let coded := (text.reverse.takeWhile (· ≠ '-')).reverse
  let basic := text.take (text.length - coded.length - 1)
  if basic.isEmpty then insertAll 128 72 0 [] text else insertAll 128 72 0 basic coded

end Vyper.Host.Punycode
