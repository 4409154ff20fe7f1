import Vyper.Text.CharClass

/-!
# A cursor in a line

What the text of one line says about the place of a cursor in it: the word and the expression it
touches, the call it stands in, the parameter of the call it stands at. Indices count characters; an
index past the end means the end.

Text left of a cursor is read backwards, so the scanners here take it reversed, nearest character
first.
-/

namespace Vyper.LineCursor

def isWordChar (c : Char) : Bool := CharClass.isAlphanumeric c || c == '_'

def isExpressionChar (c : Char) : Bool := isWordChar c || c == '.' || c == '[' || c == ']'

/-- The longest stretch of characters with a property that touches an index. -/
def around (p : Char → Bool) (line : List Char) (index : Nat) : List Char :=
  ((line.take index).reverse.takeWhile p).reverse ++ (line.drop index).takeWhile p

/-- The word that touches an index. -/
def wordAt (line : List Char) (index : Nat) : List Char := around isWordChar line index

/-- From reversed text, what lies before its nearest unclosed parenthesis; `depth` parentheses are
to be closed first. -/
def beforeOpen : Nat → List Char → Option (List Char)
  | _, [] => none
  | depth, c :: cs =>
    if c = ')' then beforeOpen (depth + 1) cs
    else if c = '(' then
      match depth with
      | 0 => some cs
      | depth + 1 => beforeOpen depth cs
    else beforeOpen depth cs

theorem length_lt_of_beforeOpen {depth : Nat} {cs before : List Char}
    (h : beforeOpen depth cs = some before) : before.length < cs.length := by
  fun_induction beforeOpen depth cs <;> grind

/-- The nearest parenthesis left of an index that is not closed before it. -/
def unmatchedOpen (line : List Char) (index : Nat) : Option Nat :=
  (beforeOpen 0 (line.take index).reverse).map List.length

/-- How far the parenthesis that closes `depth` open ones and one more is away. -/
def closeDistance : Nat → List Char → Option Nat
  | _, [] => none
  | depth, c :: cs =>
    if c = '(' then (closeDistance (depth + 1) cs).map (· + 1)
    else if c = ')' then
      match depth with
      | 0 => some 0
      | depth + 1 => (closeDistance depth cs).map (· + 1)
    else (closeDistance depth cs).map (· + 1)

/-- The parenthesis that closes the one at `left`. -/
def matchingClose (line : List Char) (left : Nat) : Option Nat :=
  (closeDistance 0 (line.drop (left + 1))).map (left + 1 + ·)

/-- The parenthesis that the one at `right` closes. -/
def matchingOpen (line : List Char) (right : Nat) : Option Nat := unmatchedOpen line right

/-- From reversed text, what lies before the expression at its front. Calls in it are skipped whole.
-/
def beforeCallee : List Char → List Char
  | [] => []
  | c :: cs =>
    if isExpressionChar c then beforeCallee cs
    else if c = ')' then
      match h : beforeOpen 0 cs with
      | some before =>
        have := length_lt_of_beforeOpen h
        beforeCallee before
      | none => c :: cs
    else c :: cs
termination_by cs => cs.length

/-- Where the callee written before the parenthesis at `left` starts; spaces may lie between. -/
def calleeStart (line : List Char) (left : Nat) : Option Nat :=
  let text := (line.take left).reverse.dropWhile (· == ' ')
  let before := beforeCallee text
  if before.length < text.length then some before.length else none

/-- The characters from an index up to, not including, another. -/
def slice (line : List Char) (first last : Nat) : List Char := (line.take last).drop first

/-- The expression that touches an index; inside balanced parentheses, the whole call. -/
def expressionAt (line : List Char) (index : Nat) : List Char :=
  match unmatchedOpen line index with
  | some left =>
    match matchingClose line left with
    | some right => slice line ((calleeStart line left).getD left) (right + 1)
    | none => around isExpressionChar line index
  | none => around isExpressionChar line index

/-- Whether the word at an index is named right after `self.`. -/
def isSelfMember (line : List Char) (index : Nat) : Bool :=
  let left := (line.take index).reverse
  let touches := left.head?.any isWordChar || (line.drop index).head?.any isWordChar
  let before := left.dropWhile isWordChar
  touches && "self.".toList.reverse.isPrefixOf before && !(before.drop 5).head?.any isWordChar

/-- A call around a cursor. -/
structure CallContext where
  callee : List Char
  /-- How many arguments end before the cursor. -/
  activeParameter : Nat
deriving DecidableEq

/-- The brackets open after a character; closing one that was never opened has no effect. -/
def bracketDepth (depth : Nat) (c : Char) : Nat :=
  if c = '(' ∨ c = '[' then depth + 1
  else if c = ')' ∨ c = ']' then depth - 1
  else depth

/-- The commas of a text that are in no brackets. -/
def countCommas : Nat → List Char → Nat
  | _, [] => 0
  | depth, c :: cs =>
    (if c = ',' ∧ depth = 0 then 1 else 0) + countCommas (bracketDepth depth c) cs

/-- The call an index lies in. -/
def callContext (line : List Char) (index : Nat) : Option CallContext := do
  let left ← unmatchedOpen line index
  let start ← calleeStart line left
  return ⟨CharClass.trimEnd (slice line start left), countCommas 0 (slice line (left + 1) index)⟩

/-- Whether a parenthesis left of an index is still open there. -/
def inParentheses (line : List Char) (index : Nat) : Bool := (unmatchedOpen line index).isSome

/-- A text cut at its last dot outside brackets. -/
def splitLastDot : Nat → List Char → Option (List Char × List Char)
  | _, [] => none
  | depth, c :: cs =>
    match splitLastDot (bracketDepth depth c) cs with
    | some (receiver, rest) => some (c :: receiver, rest)
    | none => if c = '.' ∧ depth = 0 then some ([], cs) else none

/-- The text without the argument list at its end, if it has one; nothing when that is never opened.
-/
def dropArguments (text : List Char) : Option (List Char) :=
  if text.getLast? = some ')' then
    (matchingOpen text (text.length - 1)).map text.take
  else some text

/-- The receiver and the method of `receiver.method(...)`, with or without arguments. -/
def parseCall (expression : List Char) : Option (List Char × List Char) := do
  let callee ← dropArguments (CharClass.trim expression)
  let (receiver, rest) ← splitLastDot 0 callee
  let receiver := CharClass.trim receiver
  let method := rest.takeWhile isWordChar
  if receiver.isEmpty || method.isEmpty then none else some (receiver, method)

def isWord (text : List Char) : Bool := !text.isEmpty && text.all isWordChar

/-- The name of the function called around an index, without its receiver. -/
def callTarget (line : List Char) (index : Nat) : Option (List Char) := do
  let context ← callContext line index
  match parseCall context.callee with
  | some (_, method) => some method
  | none => if isWord context.callee then some context.callee else none

end Vyper.LineCursor
