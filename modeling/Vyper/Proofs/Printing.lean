import Vyper.Syntax.Parser.Declaration

/-!
# Writing expressions

The text of an expression with no more parentheses than its operators need. Operators have levels,
loosest first: `or`, `and`, `not`, comparisons, six levels of binary operators, signs and powers;
whatever is left is written without an operator. An operand stands in parentheses when its own level
is below the one its place asks for.

A text is written as pieces: tokens, with a blank between some of them. The line of a declaration is
written from the pieces of its type and its value. `Expr.Writable` are the expressions that can be
written this way; string literals are not among them.
-/

namespace Vyper

/-- A token written out, or a blank between two of them. -/
inductive Piece where
  | blank
  | token (kind : TokenKind)

/-- A token as it stands in a text. Marks and string literals are not written. -/
def TokenKind.spelling : TokenKind → List Char
  | .name id => id.toList
  | .numeral _ text => text.toList
  | .punct p => p.text.toList
  | _ => []

namespace Piece

def text : Piece → List Char
  | .blank => [' ']
  | .token kind => kind.spelling

def kind? : Piece → Option TokenKind
  | .blank => none
  | .token kind => some kind

/-- The text of a row of pieces. -/
def textOf (ps : List Piece) : List Char := ps.flatMap text

/-- The tokens of a row of pieces. -/
def kindsOf (ps : List Piece) : List TokenKind := ps.filterMap kind?

def word (w : String) : Piece := .token (.name w)

def symbol (p : Punct) : Piece := .token (.punct p)

/-- Rows of pieces with commas between them. -/
def commas (rows : List (List Piece)) : List Piece := List.intercalate [symbol .comma, .blank] rows

/-- The pieces of an operand in a place that asks for a level. -/
def enclose (least level : Nat) (ps : List Piece) : List Piece :=
  if level < least then symbol .openParen :: ps ++ [symbol .closeParen] else ps

end Piece

def BoolOp.level : BoolOp → Nat
  | .or => 0
  | .and => 1

def UnaryOp.level : UnaryOp → Nat
  | .not => 2
  | .neg | .pos | .invert => 10

def BinaryOp.level : BinaryOp → Nat
  | .bitOr => 4
  | .bitXor => 5
  | .bitAnd => 6
  | .shl | .shr => 7
  | .add | .sub => 8
  | .mul | .div | .floorDiv | .mod => 9
  | .pow => 10

/-- The level the left operand has to have: operators are joined to the left, but the base of a
power stands without an operator. -/
def BinaryOp.leftLevel : BinaryOp → Nat
  | .pow => 11
  | op => op.level

/-- The level the right operand has to have: the exponent of a power may have a sign. -/
def BinaryOp.rightLevel : BinaryOp → Nat
  | .pow => 10
  | op => op.level + 1

/-- The level of the outermost operator. -/
def Expr.level : Expr → Nat
  | .logical _ op _ => op.level
  | .unary _ op _ => op.level
  | .compare .. => 3
  | .binary _ _ op _ => op.level
  | _ => 11

def BoolOp.pieces (op : BoolOp) : List Piece := [.blank, .word op.text, .blank]

def UnaryOp.pieces : UnaryOp → List Piece
  | .not => [.word "not", .blank]
  | .neg => [.symbol (.binary .sub)]
  | .pos => [.symbol (.binary .add)]
  | .invert => [.symbol .tilde]

def BinaryOp.pieces (op : BinaryOp) : List Piece := [.blank, .symbol (.binary op), .blank]

def CompareOp.pieces : CompareOp → List Piece
  | .relation r => [.blank, .symbol (.relation r), .blank]
  | .isIn => [.blank, .word "in", .blank]
  | .notIn => [.blank, .word "not", .blank, .word "in", .blank]

open Piece in
mutual

/-- The pieces of an expression. -/
def Expr.pieces : Expr → List Piece
  | .name _ id => [word id]
  | .numeral _ form text => [.token (.numeral form text)]
  | .str .. => []
  | .truth _ value => [word (if value then "True" else "False")]
  | .member _ value attr => enclose 11 value.level value.pieces ++ [symbol .dot, word attr]
  | .call _ func args keywords =>
    enclose 11 func.level func.pieces ++ symbol .openParen ::
      commas (Expr.piecesOf 0 args ++ Keyword.piecesOf keywords) ++ [symbol .closeParen]
  -- The brackets of a subscript hold a tuple together without parentheses of its own.
  | .subscript _ value (.tuple _ (first :: second :: rest)) =>
    enclose 11 value.level value.pieces ++ symbol .openBracket ::
      commas (Expr.piecesOf 0 (first :: second :: rest)) ++ [symbol .closeBracket]
  | .subscript _ value slice =>
    enclose 11 value.level value.pieces ++ symbol .openBracket :: slice.pieces ++
      [symbol .closeBracket]
  | .binary _ left op right =>
    enclose op.leftLevel left.level left.pieces ++ op.pieces ++
      enclose op.rightLevel right.level right.pieces
  | .compare _ left op right =>
    enclose 3 left.level left.pieces ++ op.pieces ++ enclose 4 right.level right.pieces
  | .logical _ op values => List.intercalate op.pieces (Expr.piecesOf (op.level + 1) values)
  | .unary _ op operand => op.pieces ++ enclose op.level operand.level operand.pieces
  | .tuple _ [only] => symbol .openParen :: only.pieces ++ [symbol .comma, symbol .closeParen]
  | .tuple _ elements =>
    symbol .openParen :: commas (Expr.piecesOf 0 elements) ++ [symbol .closeParen]
  | .list _ elements =>
    symbol .openBracket :: commas (Expr.piecesOf 0 elements) ++ [symbol .closeBracket]
  | .dict _ entries => symbol .openBrace :: commas (Entry.piecesOf entries) ++ [symbol .closeBrace]

def Keyword.pieces : Keyword → List Piece
  | .mk _ name value => word name :: symbol .assign :: value.pieces

def Entry.pieces : Entry → List Piece
  | .mk key value => key.pieces ++ symbol .colon :: .blank :: value.pieces

/-- The pieces of expressions in places that all ask for one level. -/
def Expr.piecesOf (least : Nat) : List Expr → List (List Piece)
  | [] => []
  | e :: es => enclose least e.level e.pieces :: Expr.piecesOf least es

def Keyword.piecesOf : List Keyword → List (List Piece)
  | [] => []
  | k :: ks => k.pieces :: Keyword.piecesOf ks

def Entry.piecesOf : List Entry → List (List Piece)
  | [] => []
  | e :: es => e.pieces :: Entry.piecesOf es

end

/-- The pieces of an expression in a place that asks for a level. -/
def Expr.piecesAt (least : Nat) (e : Expr) : List Piece := Piece.enclose least e.level e.pieces

/-- The pieces of an expression between the brackets of a subscript. -/
def Expr.slicePieces : Expr → List Piece
  | .tuple _ (first :: second :: rest) => Piece.commas ((first :: second :: rest).map Expr.pieces)
  | e => e.pieces

/-- An expression as text. -/
def Expr.print (e : Expr) : String := String.ofList (Piece.textOf e.pieces)

/-- The line that declares a variable with a value. -/
def printDeclaration (name : String) (type value : Expr) : String :=
  name ++ ": " ++ type.print ++ " = " ++ value.print ++ "\n"

/-- The place of everything in a tree whose places do not matter. -/
def nowhere : Span := .point .origin

mutual

/-- The tree without its places: trees are equal up to spans when these are equal. -/
def Expr.unplaced : Expr → Expr
  | .name _ id => .name nowhere id
  | .numeral _ form text => .numeral nowhere form text
  | .str _ value => .str nowhere value
  | .truth _ value => .truth nowhere value
  | .member _ value attr => .member nowhere value.unplaced attr
  | .call _ func args keywords =>
    .call nowhere func.unplaced (Expr.unplacedAll args) (Keyword.unplacedAll keywords)
  | .subscript _ value slice => .subscript nowhere value.unplaced slice.unplaced
  | .binary _ left op right => .binary nowhere left.unplaced op right.unplaced
  | .compare _ left op right => .compare nowhere left.unplaced op right.unplaced
  | .logical _ op values => .logical nowhere op (Expr.unplacedAll values)
  | .unary _ op operand => .unary nowhere op operand.unplaced
  | .tuple _ elements => .tuple nowhere (Expr.unplacedAll elements)
  | .list _ elements => .list nowhere (Expr.unplacedAll elements)
  | .dict _ entries => .dict nowhere (Entry.unplacedAll entries)

def Keyword.unplaced : Keyword → Keyword
  | .mk _ name value => .mk nowhere name value.unplaced

def Entry.unplaced : Entry → Entry
  | .mk key value => .mk key.unplaced value.unplaced

def Expr.unplacedAll : List Expr → List Expr
  | [] => []
  | e :: es => e.unplaced :: Expr.unplacedAll es

def Keyword.unplacedAll : List Keyword → List Keyword
  | [] => []
  | k :: ks => k.unplaced :: Keyword.unplacedAll ks

def Entry.unplacedAll : List Entry → List Entry
  | [] => []
  | e :: es => e.unplaced :: Entry.unplacedAll es

end

/-- A letter or an underscore, followed by letters, digits and underscores. -/
def isIdentifier (w : String) : Bool :=
  match w.toList with
  | [] => false
  | c :: cs => Lexeme.isWordStart c && cs.all Lexeme.isWordPart

/-- Whether a text is a number written in a form. -/
def Numeral.spells (form : Numeral) (text : String) : Bool :=
  match form, text.toList with
  | .int, c :: cs => c.isDigit && cs.all Lexeme.isDigitOrBar
  | .hex, '0' :: x :: h :: hs =>
    (x == 'x' || x == 'X') && Lexeme.isHexOrBar h && hs.all Lexeme.isHexOrBar
  | .decimal, c :: cs =>
    c.isDigit && match cs.dropWhile Lexeme.isDigitOrBar with
      | '.' :: d :: ds => d.isDigit && ds.all Lexeme.isDigitOrBar
      | _ => false
  | _, _ => false

/-- The words that are operators or literals, and so no names. -/
def reservedWords : List String := ["and", "or", "not", "in", "True", "False"]

/-- The trees of expressions without string literals. -/
inductive Expr.Writable : Expr → Prop where
  | name {span : Span} {id : String} : isIdentifier id → id ∉ reservedWords →
      Writable (.name span id)
  | numeral {span : Span} {form : Numeral} {text : String} :
    form.spells text → Writable (.numeral span form text)
  | truth {span : Span} {value : Bool} : Writable (.truth span value)
  | member {span : Span} {value : Expr} {attr : String} :
    Writable value → isIdentifier attr → Writable (.member span value attr)
  | call {span : Span} {func : Expr} {args : List Expr} {keywords : List Keyword} :
    Writable func → (∀ a ∈ args, Writable a) → (∀ k ∈ keywords, isIdentifier k.name) →
    (∀ k ∈ keywords, Writable k.value) → Writable (.call span func args keywords)
  | subscript {span : Span} {value slice : Expr} :
    Writable value → Writable slice → Writable (.subscript span value slice)
  | binary {span : Span} {left right : Expr} {op : BinaryOp} :
    Writable left → Writable right → Writable (.binary span left op right)
  | compare {span : Span} {left right : Expr} {op : CompareOp} :
    Writable left → Writable right → Writable (.compare span left op right)
  | logical {span : Span} {op : BoolOp} {values : List Expr} :
    2 ≤ values.length → (∀ v ∈ values, Writable v) → Writable (.logical span op values)
  | unary {span : Span} {op : UnaryOp} {operand : Expr} :
    Writable operand → Writable (.unary span op operand)
  | tuple {span : Span} {elements : List Expr} :
    (∀ e ∈ elements, Writable e) → Writable (.tuple span elements)
  | list {span : Span} {elements : List Expr} :
    (∀ e ∈ elements, Writable e) → Writable (.list span elements)
  | dict {span : Span} {entries : List Entry} :
    (∀ e ∈ entries, Writable e.key) → (∀ e ∈ entries, Writable e.value) →
    Writable (.dict span entries)

theorem Expr.piecesOf_eq (least : Nat) (es : List Expr) :
    Expr.piecesOf least es = es.map (Expr.piecesAt least) := by
  induction es with
  | nil => rfl
  | cons e es ih => rw [Expr.piecesOf, ih]; rfl

theorem Keyword.piecesOf_eq (ks : List Keyword) : Keyword.piecesOf ks = ks.map Keyword.pieces := by
  induction ks with
  | nil => rfl
  | cons k ks ih => rw [Keyword.piecesOf, ih]; rfl

theorem Entry.piecesOf_eq (es : List Entry) : Entry.piecesOf es = es.map Entry.pieces := by
  induction es with
  | nil => rfl
  | cons e es ih => rw [Entry.piecesOf, ih]; rfl

theorem Expr.pieces_subscript (span : Span) (value slice : Expr) :
    (Expr.subscript span value slice).pieces =
      value.piecesAt 11 ++ .symbol .openBracket :: slice.slicePieces ++
        [.symbol .closeBracket] := by
  cases slice with
  | tuple place elements =>
    rcases elements with _ | ⟨first, _ | ⟨second, rest⟩⟩
    · rfl
    · rfl
    · rw [Expr.pieces, Expr.piecesOf_eq]
      rfl
  | _ => rfl

theorem Expr.unplacedAll_eq (es : List Expr) : Expr.unplacedAll es = es.map Expr.unplaced := by
  induction es with
  | nil => rfl
  | cons e es ih => rw [Expr.unplacedAll, ih]; rfl

theorem Keyword.unplacedAll_eq (ks : List Keyword) :
    Keyword.unplacedAll ks = ks.map Keyword.unplaced := by
  induction ks with
  | nil => rfl
  | cons k ks ih => rw [Keyword.unplacedAll, ih]; rfl

theorem Entry.unplacedAll_eq (es : List Entry) : Entry.unplacedAll es = es.map Entry.unplaced := by
  induction es with
  | nil => rfl
  | cons e es ih => rw [Entry.unplacedAll, ih]; rfl

end Vyper
