import Vyper.Server.Json

/-!
# Reading JSON

The value written in a text, or nothing. Every step of the reader consumes part of the text, so as
much fuel as the text has characters is enough.
-/

namespace Vyper.Json

def skipBlanks (text : List Char) : List Char :=
  text.dropWhile fun c => c == ' ' || c == '\t' || c == '\n' || c == '\r'

def hexDigit? (c : Char) : Option Nat :=
  if c.isDigit then some (c.toNat - '0'.toNat)
  else if 'a' ≤ c ∧ c ≤ 'f' then some (c.toNat - 'a'.toNat + 10)
  else if 'A' ≤ c ∧ c ≤ 'F' then some (c.toNat - 'A'.toNat + 10)
  else none

def hexNumber? (digits : List Char) : Option Nat :=
  digits.foldlM (fun n c => (hexDigit? c).map (16 * n + ·)) 0

/-- The characters a backslash and one letter stand for. -/
def simpleEscape? : Char → Option Char
  | '"' => some '"' | '\\' => some '\\' | '/' => some '/' | 'b' => some '\x08' | 'f' => some '\x0c'
  | 'n' => some '\n' | 'r' => some '\r' | 't' => some '\t' | _ => none

/-- The code points and halves of pairs up to a closing quote, and what follows it. -/
def stringUnits : List Char → Option (List Nat × List Char)
  | [] => none
  | '"' :: rest => some ([], rest)
  | '\\' :: 'u' :: a :: b :: c :: d :: rest => do
    let unit ← hexNumber? [a, b, c, d]
    let (units, rest) ← stringUnits rest
    return (unit :: units, rest)
  | '\\' :: c :: rest => do
    let c ← simpleEscape? c
    let (units, rest) ← stringUnits rest
    return (c.toNat :: units, rest)
  | c :: rest =>
    if c.toNat < 0x20 || c == '\\' then none
    else (stringUnits rest).map fun (units, rest) => (c.toNat :: units, rest)

/-- Puts the halves of pairs together; a half alone is an error. -/
def joinPairs : List Nat → Option (List Char)
  | [] => some []
  | [unit] => if unit.isValidChar then some [Char.ofNat unit] else none
  | first :: second :: units =>
    if first.isValidChar then (joinPairs (second :: units)).map (Char.ofNat first :: ·)
    else if 0xD800 ≤ first ∧ first < 0xDC00 ∧ 0xDC00 ≤ second ∧ second < 0xE000 then
      (joinPairs units).map
        (Char.ofNat (0x10000 + (first - 0xD800) * 0x400 + (second - 0xDC00)) :: ·)
    else none

/-- A string after its opening quote. -/
def readString (text : List Char) : Option (String × List Char) := do
  let (units, rest) ← stringUnits text
  return (String.ofList (← joinPairs units), rest)

def isNumberChar (c : Char) : Bool := c.isDigit || "+-.eE".toList.contains c

/-- Digits without a zero in front of others. -/
def isNaturalText (digits : List Char) : Bool :=
  match digits with
  | [] => false
  | ['0'] => true
  | first :: _ => first != '0' && digits.all Char.isDigit

def naturalValue (digits : List Char) : Nat :=
  digits.foldl (fun n c => 10 * n + (c.toNat - '0'.toNat)) 0

/-- A fraction or an exponent after a natural number. -/
def isNumberTail (tail : List Char) : Bool :=
  let digitsThen (text : List Char) (next : List Char → Bool) : Bool :=
    text.head?.any Char.isDigit && next (text.dropWhile Char.isDigit)
  let exponent : List Char → Bool
    | [] => true
    | e :: rest =>
      (e == 'e' || e == 'E') &&
        digitsThen (match rest with
          | '+' :: digits | '-' :: digits => digits
          | digits => digits) List.isEmpty
  match tail with
  | '.' :: rest => digitsThen rest exponent
  | tail => exponent tail

/-- The number written in a text. -/
def readNumber (text : List Char) : Option Json :=
  let (negative, digits) := match text with
    | '-' :: digits => (true, digits)
    | digits => (false, digits)
  let whole := digits.takeWhile Char.isDigit
  let tail := digits.dropWhile Char.isDigit
  if !isNaturalText whole then none
  else if tail.isEmpty then
    let n : Int := naturalValue whole
    if negative then
      if n = 0 then some (.float (String.ofList text)) else some (.int (-n))
    else some (.int n)
  else if isNumberTail tail then some (.float (String.ofList text))
  else none

mutual

/-- A value at the front of a text, and what follows it. -/
def readValue : Nat → List Char → Option (Json × List Char)
  | 0, _ => none
  | fuel + 1, text =>
    match skipBlanks text with
    | 'n' :: 'u' :: 'l' :: 'l' :: rest => some (.null, rest)
    | 't' :: 'r' :: 'u' :: 'e' :: rest => some (.bool true, rest)
    | 'f' :: 'a' :: 'l' :: 's' :: 'e' :: rest => some (.bool false, rest)
    | '"' :: rest => (readString rest).map fun (s, rest) => (.str s, rest)
    | '[' :: rest =>
      match skipBlanks rest with
      | ']' :: rest => some (.arr [], rest)
      | rest => (readItems fuel rest).map fun (items, rest) => (.arr items, rest)
    | '\x7b' :: rest =>
      match skipBlanks rest with
      | '\x7d' :: rest => some (.obj [], rest)
      | rest => (readMembers fuel rest).map fun (members, rest) => (.obj members, rest)
    | text =>
      (readNumber (text.takeWhile isNumberChar)).map fun j => (j, text.dropWhile isNumberChar)

/-- The items of an array up to its closing bracket. -/
def readItems : Nat → List Char → Option (List Json × List Char)
  | 0, _ => none
  | fuel + 1, text => do
    let (item, rest) ← readValue fuel text
    match skipBlanks rest with
    | ',' :: rest =>
      let (items, rest) ← readItems fuel rest
      return (item :: items, rest)
    | ']' :: rest => return ([item], rest)
    | _ => none

/-- The members of an object up to its closing brace. -/
def readMembers : Nat → List Char → Option (List (String × Json) × List Char)
  | 0, _ => none
  | fuel + 1, text =>
    match skipBlanks text with
    | '"' :: rest => do
      let (name, rest) ← readString rest
      match skipBlanks rest with
      | ':' :: rest =>
        let (value, rest) ← readValue fuel rest
        match skipBlanks rest with
        | ',' :: rest =>
          let (members, rest) ← readMembers fuel rest
          return ((name, value) :: members, rest)
        | '\x7d' :: rest => return ([(name, value)], rest)
        | _ => none
      | _ => none
    | _ => none

end

/-- The value a text consists of. -/
def parse (text : List Char) : Option Json := do
  let (value, rest) ← readValue (2 * text.length + 2) text
  if (skipBlanks rest).isEmpty then some value else none

end Vyper.Json
