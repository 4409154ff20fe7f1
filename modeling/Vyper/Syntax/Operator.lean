/-!
# Operators and punctuation

The operator symbols of the language and how a symbol is recognised at the front of a text: the
longest symbol wins.
-/

namespace Vyper

inductive BinaryOp where
  | add | sub | mul | div | floorDiv | mod | pow | shl | shr | bitAnd | bitOr | bitXor
deriving DecidableEq

def BinaryOp.text : BinaryOp → String
  | .add => "+" | .sub => "-" | .mul => "*" | .div => "/" | .floorDiv => "//" | .mod => "%"
  | .pow => "**" | .shl => "<<" | .shr => ">>" | .bitAnd => "&" | .bitOr => "|" | .bitXor => "^"

inductive Relation where
  | eq | ne | lt | le | gt | ge
deriving DecidableEq

def Relation.text : Relation → String
  | .eq => "==" | .ne => "!=" | .lt => "<" | .le => "<=" | .gt => ">" | .ge => ">="

/-- What a comparison asks: one of the symbols, or membership. -/
inductive CompareOp where
  | relation (r : Relation)
  | isIn
  | notIn
deriving DecidableEq

def CompareOp.text : CompareOp → String
  | .relation r => r.text | .isIn => "in" | .notIn => "not in"

inductive UnaryOp where
  | neg | pos | invert | not
deriving DecidableEq

def UnaryOp.text : UnaryOp → String
  | .neg => "-" | .pos => "+" | .invert => "~" | .not => "not"

inductive BoolOp where
  | and | or
deriving DecidableEq

def BoolOp.text : BoolOp → String
  | .and => "and" | .or => "or"

/-- The symbols that are tokens. -/
inductive Punct where
  | binary (op : BinaryOp)
  | augmented (op : BinaryOp)
  | relation (r : Relation)
  | tilde | assign | arrow | openParen | closeParen | openBracket | closeBracket | openBrace
  | closeBrace | comma | colon | dot | atSign | semicolon
deriving DecidableEq

namespace Punct

def text : Punct → String
  | .binary op => op.text
  | .augmented op => op.text ++ "="
  | .relation r => r.text
  | .tilde => "~" | .assign => "=" | .arrow => "->" | .openParen => "(" | .closeParen => ")"
  | .openBracket => "[" | .closeBracket => "]" | .openBrace => "\x7b" | .closeBrace => "\x7d"
  | .comma => "," | .colon => ":" | .dot => "." | .atSign => "@" | .semicolon => ";"

theorem toList_text_ne_nil (p : Punct) : p.text.toList ≠ [] := by
  cases p with
  | binary op => cases op <;> decide
  | augmented op => cases op <;> decide
  | relation r => cases r <;> decide
  | _ => decide

/-- Every symbol, longer spellings first. -/
def symbols : List Punct :=
  [.augmented .pow, .augmented .floorDiv, .augmented .shl, .augmented .shr,
    .arrow, .binary .pow, .binary .floorDiv, .relation .eq, .relation .ne, .relation .le,
    .relation .ge, .binary .shl, .binary .shr, .augmented .add, .augmented .sub, .augmented .mul,
    .augmented .div, .augmented .mod, .augmented .bitAnd, .augmented .bitOr, .augmented .bitXor,
    .binary .add, .binary .sub, .binary .mul, .binary .div, .binary .mod, .relation .lt,
    .relation .gt, .assign, .openParen, .closeParen, .openBracket, .closeBracket, .openBrace,
    .closeBrace, .comma, .colon, .dot, .atSign, .binary .bitAnd, .binary .bitOr, .binary .bitXor,
    .tilde, .semicolon]

/-- The longest symbol at the front of a text, and what follows it. -/
def scan (cs : List Char) : Option (Punct × List Char) :=
  symbols.findSome? fun p =>
    if p.text.toList.isPrefixOf cs then some (p, cs.drop p.text.toList.length) else none

end Punct

end Vyper
