/-!
# Primitive types

The catalogue of primitive type names and the test a declared type is put to. The test reads the
width as a number, so it takes more spellings than the catalogue lists: `uint008` and `uint+8` are
both eight bits wide.
-/

namespace Vyper.BaseType

/-- The bit widths of integer types. -/
def bitWidths : List Nat := (List.range 32).map fun i => 8 * (i + 1)

/-- The byte widths of fixed byte strings. -/
def byteWidths : List Nat := (List.range 32).map (· + 1)

/-- Every primitive type by name. -/
def catalogue : List String :=
  ["bool", "address", "decimal"] ++ bitWidths.map (fun n => s!"uint{n}") ++
    bitWidths.map (fun n => s!"int{n}") ++ byteWidths.map (fun n => s!"bytes{n}")

/-- A decimal number, perhaps with a plus sign in front. -/
def width? (text : List Char) : Option Nat :=
  let digits := match text with
    | '+' :: rest => rest
    | _ => text
  if !digits.isEmpty && digits.all Char.isDigit then
    some (digits.foldl (fun n c => 10 * n + (c.toNat - '0'.toNat)) 0)
  else none

/-- What follows a word at the front of a text. -/
def after? (word : String) (text : List Char) : Option (List Char) :=
  if word.toList.isPrefixOf text then some (text.drop word.length) else none

/-- Whether a name is that of a primitive type. -/
def isName (name : String) : Bool :=
  if name = "bool" ∨ name = "address" ∨ name = "decimal" then true
  else
    match (after? "uint" name.toList).or (after? "int" name.toList) with
    | some rest => (width? rest).any bitWidths.contains
    | none =>
      match after? "bytes" name.toList with
      | some rest => (width? rest).any byteWidths.contains
      | none => false

end Vyper.BaseType
