/-!
# Searching a text

Where one text occurs in another, a text cut at the first occurrence, and a text cut at every mark.
-/

namespace Vyper.Search

/-- The text before and after the first occurrence of `needle`. -/
def splitOnce (needle : List Char) : List Char → Option (List Char × List Char)
  | [] => if needle.isEmpty then some ([], []) else none
  | c :: cs =>
    if needle.isPrefixOf (c :: cs) then some ([], (c :: cs).drop needle.length)
    else (splitOnce needle cs).map fun (before, after) => (c :: before, after)

def contains (needle text : List Char) : Bool := (splitOnce needle text).isSome

/-- What precedes a text at the end of another. -/
def dropEnd? (ending text : List Char) : Option (List Char) :=
  if ending.isSuffixOf text then some (text.take (text.length - ending.length)) else none

/-- What follows a text at the front of another. -/
def dropFront? (front text : List Char) : Option (List Char) :=
  if front.isPrefixOf text then some (text.drop front.length) else none

/-- Where a text occurs, from left to right without overlaps: `index` characters come before what is
left, and the next `skip` of them belong to an occurrence. -/
def occurrencesFrom (needle : List Char) (index skip : Nat) : List Char → List Nat
  | [] => []
  | c :: cs =>
    match skip with
    | skip + 1 => occurrencesFrom needle (index + 1) skip cs
    | 0 =>
      if needle.isPrefixOf (c :: cs) then
        index :: occurrencesFrom needle (index + 1) (needle.length - 1) cs
      else occurrencesFrom needle (index + 1) 0 cs

/-- The indices at which a text that is not empty occurs, without overlaps. -/
def occurrences (needle text : List Char) : List Nat := occurrencesFrom needle 0 0 text

/-- The pieces of a text between marks: one more than there are marks. -/
def pieces (isMark : Char → Bool) (text : List Char) : List (List Char) :=
  text.foldr (fun c later =>
    if isMark c then [] :: later
    else
      match later with
      | [] => [[c]]
      | piece :: rest => (c :: piece) :: rest) [[]]

theorem pieces_ne_nil (isMark : Char → Bool) (text : List Char) : pieces isMark text ≠ [] := by
  cases text with
  | nil => simp [pieces]
  | cons c cs =>
    rw [pieces, List.foldr_cons]
    split
    · simp
    · split <;> simp

end Vyper.Search
