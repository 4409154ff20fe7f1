import Vyper.Syntax.Parser.Expression

/-!
# The grammar of statements

A block is one statement on the line of its colon, or the statements of the indented lines below.
-/

namespace Vyper.Parser

/-- The part of a statement after its first expression: a declaration, an assignment, or nothing. -/
def afterTarget (target : Expr) : Parser Stmt := do
  match ← peekKind with
  | .punct .colon =>
    let _ ← advance
    match target with
    | .name .. =>
      let type ← expression
      match ← acceptPunct .assign with
      | some _ =>
        let value ← expression
        return .declare (target.span.cover value.span) target type (some value) none
      | none => return .declare (target.span.cover type.span) target type none none
    | _ => fail .compoundTarget target.span
  | .punct .assign =>
    let _ ← advance
    let value ← expressions
    return .assign (target.span.cover value.span) target value
  | .punct (.augmented op) =>
    let _ ← advance
    let value ← expression
    return .update (target.span.cover value.span) target op value
  | _ => return .eval target.span target

/-- What a keyword such as `return` may be followed by. -/
def optional (value : Parser Expr) : Parser (Option Expr) := do
  if (← peekKind).endsLine then return none
  return some (← value)

/-- The span from a keyword to the end of its operand, if it has one. -/
def upTo (start : Span) (value : Option Expr) : Span :=
  match value with
  | some e => start.cover e.span
  | none => start

/-- A statement that fits on a line, without the line's end. -/
def smallStatement : Parser Stmt := do
  match ← peek with
  | ⟨.name "pass", span⟩ =>
    let _ ← advance
    return .pass span
  | ⟨.name "break", span⟩ =>
    let _ ← advance
    return .leave span
  | ⟨.name "continue", span⟩ =>
    let _ ← advance
    return .next span
  | ⟨.name "return", span⟩ =>
    let _ ← advance
    let value ← optional expressions
    return .ret (upTo span value) value
  | ⟨.name "log", span⟩ =>
    let _ ← advance
    let value ← expression
    return .log (span.cover value.span) value
  | ⟨.name "assert", span⟩ =>
    let _ ← advance
    let test ← expression
    match ← acceptPunct .comma with
    | some _ =>
      let message ← expression
      return .assert (span.cover message.span) test (some message)
    | none => return .assert (span.cover test.span) test none
  | ⟨.name "raise", span⟩ =>
    let _ ← advance
    let error ← optional expression
    return .raise (upTo span error) error
  | _ => afterTarget (← expressions)

def simpleStatement : Parser Stmt := do
  let s ← smallStatement
  lineEnd
  return s

/-- At most `n` statements up to the end of their block. -/
def blockItems (statement : Parser Stmt) : Nat → Parser (List Stmt)
  | 0 => pure []
  | n + 1 => do
    skipNewlines
    match ← peekKind with
    | .dedent =>
      let _ ← advance
      return []
    | .eof => return []
    | _ =>
      let first ← statement
      return first :: (← blockItems statement n)

/-- The mark that opens an indented block. -/
def openBlock : Parser Unit := do
  let _ ← advance
  let _ ← expect .indent .block

/-- A block and the span of its last statement. -/
def block (statement : Parser Stmt) : Parser (List Stmt × Span) := do
  let body ←
    if (← peekKind) = .newline then do
      openBlock
      blockItems statement ((← limit) + 1)
    else do
      let only ← simpleStatement
      pure [only]
  match body.getLast? with
  | some last => return (body, last.span)
  | none => unexpected .block

/-- An `if` with at most `n` branches after it; its keyword has not been read. -/
def branchUpTo (statement : Parser Stmt) : Nat → Parser Stmt
  | 0 => unexpected .block
  | n + 1 => do
    let start ← advance
    let test ← expression
    let _ ← expectPunct .colon
    let (body, stop) ← block statement
    match ← peekKind with
    | .name "elif" =>
      let nested ← branchUpTo statement n
      return .branch (start.span.cover nested.span) test body [nested]
    | .name "else" =>
      let _ ← advance
      let _ ← expectPunct .colon
      let (orelse, stop) ← block statement
      return .branch (start.span.cover stop) test body orelse
    | _ => return .branch (start.span.cover stop) test body []

/-- The variable of a loop, with its type if one is written. -/
def loopTarget : Parser LoopTarget := do
  let (id, span) ← identifier
  match ← acceptPunct .colon with
  | some _ =>
    let type ← expression
    return .typed (span.cover type.span) (.name span id) type none
  | none => return .bare (.name span id)

def loopStatement (statement : Parser Stmt) : Parser Stmt := do
  let start ← advance
  let target ← loopTarget
  let _ ← expectWord "in"
  let iter ← expression
  let _ ← expectPunct .colon
  let (body, stop) ← block statement
  return .loop (start.span.cover stop) target iter body

/-- A statement, given the parser for the statements of its blocks. -/
def statementOver (inner : Parser Stmt) : Parser Stmt := do
  match ← peekKind with
  | .name "if" => branchUpTo inner ((← limit) + 1)
  | .name "for" => loopStatement inner
  | _ => simpleStatement

/-- A statement with blocks at most `n` deep. -/
def statementUpTo : Nat → Parser Stmt
  | 0 => unexpected .block
  | n + 1 => statementOver (statementUpTo n)

/-- A statement. Blocks cannot be nested deeper than there are tokens. -/
def statement : Parser Stmt := do statementUpTo ((← limit) + 1)

end Vyper.Parser
