import Vyper.Text.Position
import Vyper.Syntax.Operator

/-!
# Tokens

What the grammar is written over: words, numerals, string literals, symbols, and the marks of line
structure. `TokenKind.describe` is how a token is named in an error.
-/

namespace Vyper

/-- The three ways to write a number. -/
inductive Numeral where
  | int | hex | decimal
deriving DecidableEq

inductive TokenKind where
  | name (id : String)
  | numeral (form : Numeral) (text : String)
  | str (value : String)
  | bytes (value : String)
  | punct (p : Punct)
  | newline
  | indent
  | dedent
  | eof
deriving DecidableEq

namespace TokenKind

def describe : TokenKind → String
  | .name id => s!"'{id}'"
  | .numeral _ text => s!"'{text}'"
  | .str _ | .bytes _ => "string literal"
  | .punct p => s!"'{p.text}'"
  | .newline => "end of line"
  | .indent => "indent"
  | .dedent => "dedent"
  | .eof => "end of file"

/-- Whether a statement can end before this token. -/
def endsLine : TokenKind → Bool
  | .newline | .dedent | .eof => true
  | _ => false

/-- Whether the token marks line structure and carries no text of its own. -/
def isMark : TokenKind → Bool
  | .newline | .indent | .dedent | .eof => true
  | _ => false

end TokenKind

structure Token where
  kind : TokenKind
  span : Span
deriving DecidableEq

end Vyper
