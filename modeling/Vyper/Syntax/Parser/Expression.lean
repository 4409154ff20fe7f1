import Vyper.Syntax.Parser.Basic
import Vyper.Syntax.Tree

/-!
# The grammar of expressions

One parser for each level of precedence, loosest first: `or`, `and`, `not`, comparisons, the binary
operators in six levels, the signs, powers, and the trailers of an atom. Each level is given the
parser for what may stand inside brackets, so none of them refers to itself; `expression` ties the
knot, as deep as there are tokens in the text.
-/

namespace Vyper.Parser

/-- A bare name; two builtins still read under their old names are noted. -/
def nameAtom (id : String) (span : Span) : Parser Expr := do
  if id = "_abi_encode" then note ⟨"_abi_encode", "abi_encode"⟩
  if id = "_abi_decode" then note ⟨"_abi_decode", "abi_decode"⟩
  return .name span id

/-- What follows an opening parenthesis: nothing, a grouped expression, or the elements of a tuple.
-/
def parenthesized (inner : Parser Expr) (start : Span) : Parser Expr := do
  if let some stop ← acceptPunct .closeParen then return .tuple (start.cover stop) []
  let first ← inner
  if (← acceptPunct .closeParen).isSome then return first
  let more ← match ← acceptPunct .comma with
    | some _ => commaList (· == .punct .closeParen) inner
    | none => pure []
  let stop ← expectPunct .closeParen
  return .tuple (start.cover stop) (first :: more)

def entry (inner : Parser Expr) : Parser Entry := do
  let key ← inner
  let _ ← expectPunct .colon
  return .mk key (← inner)

def atom (inner : Parser Expr) : Parser Expr := do
  match ← peek with
  | ⟨.name id, span⟩ =>
    let _ ← advance
    if id = "True" then return .truth span true
    if id = "False" then return .truth span false
    nameAtom id span
  | ⟨.numeral form text, span⟩ =>
    let _ ← advance
    return .numeral span form text
  | ⟨.str value, span⟩ | ⟨.bytes value, span⟩ =>
    let _ ← advance
    return .str span value
  | ⟨.punct .openParen, span⟩ =>
    let _ ← advance
    parenthesized inner span
  | ⟨.punct .openBracket, span⟩ =>
    let _ ← advance
    let (elements, stop) ← bracketed .closeBracket inner
    return .list (span.cover stop) elements
  | ⟨.punct .openBrace, span⟩ =>
    let _ ← advance
    let (entries, stop) ← bracketed .closeBrace (entry inner)
    return .dict (span.cover stop) entries
  | _ => unexpected .expression

/-- An argument of a call: named when a name stands right before `=`. -/
def argument (inner : Parser Expr) : Parser (Expr ⊕ Keyword) := do
  match ← peekKind, ← peekSecond with
  | .name _, .punct .assign =>
    let (name, span) ← identifier
    let _ ← advance
    let value ← inner
    return .inr (.mk (span.cover value.span) name value)
  | _, _ => return .inl (← inner)

/-- Elements with commas between them, without brackets; one alone is no tuple. -/
def expressionList (inner : Parser Expr) : Parser Expr := do
  let first ← inner
  match ← acceptPunct .comma with
  | none => return first
  | some _ =>
    let more ← commaList (fun kind => kind.endsLine || kind == .punct .assign) inner
    return .tuple (first.span.cover (more.getLastD first).span) (first :: more)

/-- One trailer of a value: a member access, a call or a subscript. -/
def trailer (inner : Parser Expr) (value : Expr) : Parser (Option Expr) := do
  match ← peekKind with
  | .punct .dot =>
    let _ ← advance
    let (attr, stop) ← identifier
    return some (.member (value.span.cover stop) value attr)
  | .punct .openParen =>
    let _ ← advance
    let (arguments, stop) ← bracketed .closeParen (argument inner)
    return some (.call (value.span.cover stop) value (arguments.filterMap Sum.getLeft?)
      (arguments.filterMap Sum.getRight?))
  | .punct .openBracket =>
    let _ ← advance
    let slice ← expressionList inner
    let stop ← expectPunct .closeBracket
    return some (.subscript (value.span.cover stop) value slice)
  | _ => return none

def trailersFrom (inner : Parser Expr) : Nat → Expr → Parser Expr
  | 0, value => pure value
  | n + 1, value => do
    match ← trailer inner value with
    | some longer => trailersFrom inner n longer
    | none => pure value

/-- An atom with its trailers. -/
def primary (inner : Parser Expr) : Parser Expr := do
  let value ← atom inner
  trailersFrom inner (← limit) value

def joinBinary (left : Expr) (op : BinaryOp) (right : Expr) : Expr :=
  .binary (left.span.cover right.span) left op right

def signOf : TokenKind → Option UnaryOp
  | .punct (.binary .sub) => some .neg
  | .punct (.binary .add) => some .pos
  | .punct .tilde => some .invert
  | _ => none

/-- Signs and powers, at most `n` of them nested: a sign binds looser than a power on its right and
tighter than one on its left. -/
def signedUpTo (inner : Parser Expr) : Nat → Parser Expr
  | 0 => unexpected .expression
  | n + 1 => do
    match signOf (← peekKind) with
    | some op =>
      let sign ← advance
      let operand ← signedUpTo inner n
      return .unary (sign.span.cover operand.span) op operand
    | none =>
      let base ← primary inner
      match ← acceptPunct (.binary .pow) with
      | some _ => return joinBinary base .pow (← signedUpTo inner n)
      | none => return base

def signed (inner : Parser Expr) : Parser Expr := do signedUpTo inner ((← limit) + 1)

/-- The operators of each binary level, loosest first. -/
def binaryLevels : List (List BinaryOp) :=
  [[.bitOr], [.bitXor], [.bitAnd], [.shl, .shr], [.add, .sub], [.mul, .div, .floorDiv, .mod]]

def binaryOperator (ops : List BinaryOp) : Parser (Option BinaryOp) := do
  match ← peekKind with
  | .punct (.binary op) =>
    if op ∈ ops then
      let _ ← advance
      return some op
    else return none
  | _ => return none

/-- The binary operators of the given levels, each level joined to the left. -/
def binaryOver (inner : Parser Expr) : List (List BinaryOp) → Parser Expr
  | [] => signed inner
  | ops :: tighter => chain (binaryOperator ops) (binaryOver inner tighter) joinBinary

def binary (inner : Parser Expr) : Parser Expr := binaryOver inner binaryLevels

def compareOperator : Parser (Option CompareOp) := do
  match ← peekKind with
  | .punct (.relation r) =>
    let _ ← advance
    return some (.relation r)
  | .name "in" =>
    let _ ← advance
    return some .isIn
  | .name "not" =>
    if (← peekSecond) = .name "in" then
      let _ ← advance
      let _ ← advance
      return some .notIn
    else return none
  | _ => return none

def comparison (inner : Parser Expr) : Parser Expr :=
  chain compareOperator (binary inner) fun left op right =>
    .compare (left.span.cover right.span) left op right

/-- At most `n` negations of a comparison. -/
def negationUpTo (inner : Parser Expr) : Nat → Parser Expr
  | 0 => unexpected .expression
  | n + 1 => do
    match ← acceptWord "not" with
    | some start =>
      let operand ← negationUpTo inner n
      return .unary (start.cover operand.span) .not operand
    | none => comparison inner

def negation (inner : Parser Expr) : Parser Expr := do negationUpTo inner ((← limit) + 1)

/-- At most `n` further operands, each after the word of the operator. -/
def logicalRest (op : BoolOp) (operand : Parser Expr) : Nat → Parser (List Expr)
  | 0 => pure []
  | n + 1 => do
    match ← acceptWord op.text with
    | some _ =>
      let value ← operand
      return value :: (← logicalRest op operand n)
    | none => pure []

/-- Operands of one boolean operator; all of them become the values of one node. -/
def logical (op : BoolOp) (operand : Parser Expr) : Parser Expr := do
  let first ← operand
  match ← logicalRest op operand (← limit) with
  | [] => return first
  | more => return .logical (first.span.cover (more.getLastD first).span) op (first :: more)

/-- The whole grammar, given the parser for what stands inside brackets. -/
def expressionOver (inner : Parser Expr) : Parser Expr :=
  logical .or (logical .and (negation inner))

/-- An expression with brackets at most `n` deep. -/
def expressionUpTo : Nat → Parser Expr
  | 0 => unexpected .expression
  | n + 1 => expressionOver (expressionUpTo n)

/-- An expression. Brackets cannot be nested deeper than there are tokens. -/
def expression : Parser Expr := do expressionUpTo ((← limit) + 1)

/-- An expression, or a tuple written without brackets. -/
def expressions : Parser Expr := expressionList expression

end Vyper.Parser
