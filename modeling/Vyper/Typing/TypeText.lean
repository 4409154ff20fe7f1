import Vyper.Syntax.Tree
import Vyper.Text.Rows

/-!
# Types as text

A type is an expression. `Expr.typeText` writes it in one canonical spelling, and `Expr.unwrap`
takes off wrappers such as `public(...)` that say something about a declaration and not about its
type.
-/

namespace Vyper

namespace Expr

/-- The words that wrap a declared type. -/
def wrappers : List String := ["public", "constant", "immutable", "transient", "indexed"]

/-- The type inside its wrappers. -/
def unwrap : Expr → Expr
  | .call span (.name place word) (inner :: args) keywords =>
    if wrappers.contains word then inner.unwrap
    else .call span (.name place word) (inner :: args) keywords
  | e => e

end Expr

mutual

/-- The canonical spelling of a type. An expression that is no type is spelled as it is written. -/
def Expr.typeText (text : List Char) : Expr → String
  | .name _ id => id
  | .numeral _ .int digits => digits
  | .member _ value attr => s!"{value.typeText text}.{attr}"
  | .subscript _ value (.tuple _ elements) =>
    s!"{value.typeText text}[{typeTexts text elements}]"
  | .subscript _ value slice => s!"{value.typeText text}[{slice.typeText text}]"
  | .tuple _ elements => s!"({typeTexts text elements})"
  | .call _ func args _ => s!"{func.typeText text}({typeTexts text args})"
  | e => String.ofList (Rows.slice text e.span)

/-- Several types with commas between them. -/
def typeTexts (text : List Char) : List Expr → String
  | [] => ""
  | [e] => e.typeText text
  | e :: es => e.typeText text ++ ", " ++ typeTexts text es

end

end Vyper
