/-!
# JSON values

The values that messages are made of, and how they are written. A number that is no integer is kept
as its text. Members keep their order; of two with one name the last one counts.
-/

namespace Vyper

inductive Json where
  | null
  | bool (b : Bool)
  | int (n : Int)
  | float (text : String)
  | str (s : String)
  | arr (items : List Json)
  | obj (members : List (String × Json))
deriving Inhabited

namespace Json

def nat (n : Nat) : Json := .int n

/-- The member of an object. -/
def get? (j : Json) (name : String) : Option Json :=
  match j with
  | .obj members => (members.reverse.find? (·.1 == name)).map (·.2)
  | _ => none

/-- The fields of a record, written as an object or as an array in the order of their names. -/
def fields? (names : List String) : Json → Option (String → Option Json)
  | .obj members => some (Json.obj members).get?
  | .arr items =>
    if items.length = names.length then
      some fun name => ((names.zip items).find? (·.1 == name)).map (·.2)
    else none
  | _ => none

def string? : Json → Option String
  | .str s => some s
  | _ => none

def bool? : Json → Option Bool
  | .bool b => some b
  | _ => none

/-- An integer within bounds. -/
def between? (low high : Int) : Json → Option Int
  | .int n => if low ≤ n ∧ n ≤ high then some n else none
  | _ => none

def uint32? (j : Json) : Option Nat := (j.between? 0 (Int.pow 2 32 - 1)).map Int.toNat

def uint64? (j : Json) : Option Nat := (j.between? 0 (Int.pow 2 64 - 1)).map Int.toNat

def int32? (j : Json) : Option Int := j.between? (-Int.pow 2 31) (Int.pow 2 31 - 1)

def list? {α : Type} (read : Json → Option α) : Json → Option (List α)
  | .arr items => items.mapM read
  | _ => none

/-- A field that may be missing or null, but not malformed. -/
def optional {α : Type} (read : Json → Option α) : Option Json → Option (Option α)
  | none | some .null => some none
  | some j => (read j).map some

/-- Four hexadecimal digits. -/
def hex4 (n : Nat) : List Char :=
  [n / 4096 % 16, n / 256 % 16, n / 16 % 16, n % 16].map Nat.digitChar

def escape (c : Char) : List Char :=
  match c with
  | '"' => ['\\', '"']
  | '\\' => ['\\', '\\']
  | '\n' => ['\\', 'n']
  | '\r' => ['\\', 'r']
  | '\t' => ['\\', 't']
  | '\x08' => ['\\', 'b']
  | '\x0c' => ['\\', 'f']
  | c => if c.toNat < 0x20 then '\\' :: 'u' :: hex4 c.toNat else [c]

/-- A text between quotes. -/
def quote (s : String) : String := "\"" ++ String.ofList (s.toList.flatMap escape) ++ "\""

mutual

/-- The value on one line. -/
def render : Json → String
  | .null => "null"
  | .bool b => if b then "true" else "false"
  | .int n => toString n
  | .float text => text
  | .str s => quote s
  | .arr items => "[" ++ ",".intercalate (renderItems items) ++ "]"
  | .obj members => "\x7b" ++ ",".intercalate (renderMembers members) ++ "\x7d"

def renderItems : List Json → List String
  | [] => []
  | j :: js => j.render :: renderItems js

def renderMembers : List (String × Json) → List String
  | [] => []
  | (name, j) :: members => (quote name ++ ":" ++ j.render) :: renderMembers members

end

end Json

end Vyper
