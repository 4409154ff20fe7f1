import Vyper.Syntax.Layout

/-!
# Reading tokens

A parser reads tokens from the front of what is left of them. Past the last token it sees the end of
the text, as often as it looks. Nothing is ever read twice, so the notes a parser takes are in the
order of the text.
-/

namespace Vyper

/-- An outdated spelling and what to write instead. -/
structure Deprecation where
  old : String
  new : String
deriving DecidableEq

def Deprecation.message (d : Deprecation) : String :=
  s!"{d.old} will be deprecated in a future release, use {d.new} instead."

/-- The tokens still to be read, where the text ends, how many tokens it has altogether, and the
notes taken so far, latest first. -/
structure ParseState where
  tokens : List Token
  eof : Span
  limit : Nat
  notes : List Deprecation := []

namespace ParseState

/-- The token `n` places ahead. -/
def peek (s : ParseState) (n : Nat := 0) : Token := (s.tokens[n]?).getD ⟨.eof, s.eof⟩

def kind (s : ParseState) : TokenKind := s.peek.kind

def advance (s : ParseState) : ParseState := { s with tokens := s.tokens.tail }

/-- The state before the first token. -/
def ofStream (stream : TokenStream) : ParseState :=
  { tokens := stream.tokens, eof := stream.eof, limit := stream.tokens.length }

end ParseState

abbrev Parser := StateT ParseState (Except CompileError)

namespace Parser

def peek : Parser Token := fun s => .ok (s.peek, s)

def peekKind : Parser TokenKind := fun s => .ok (s.kind, s)

/-- The kind of the token after the next one. -/
def peekSecond : Parser TokenKind := fun s => .ok ((s.peek 1).kind, s)

def advance : Parser Token := fun s => .ok (s.peek, s.advance)

def fail {α : Type} (fault : Fault) (span : Span) :
    Parser α := fun _ => .error (.located fault span)

/-- Fails at the next token, which is not what the grammar asks for. -/
def unexpected {α : Type} (what : Expectation) : Parser α :=
  fun s => .error (.located (.expected what s.kind) s.peek.span)

def note (d : Deprecation) : Parser Unit := fun s => .ok ((), { s with notes := d :: s.notes })

/-- How many tokens the text has; no loop over them runs longer. -/
def limit : Parser Nat := fun s => .ok (s.limit, s)

/-- Reads a token of the given kind, if it is next. -/
def accept (kind : TokenKind) : Parser (Option Span) :=
  fun s => if s.kind = kind then .ok (some s.peek.span, s.advance) else .ok (none, s)

def expect (kind : TokenKind) (what : Expectation) : Parser Span := do
  match ← accept kind with
  | some span => pure span
  | none => unexpected what

def acceptPunct (p : Punct) : Parser (Option Span) := accept (.punct p)

def expectPunct (p : Punct) : Parser Span := expect (.punct p) (.punct p)

def acceptWord (w : String) : Parser (Option Span) := accept (.name w)

def expectWord (w : String) : Parser Span := expect (.name w) (.word w)

def identifier : Parser (String × Span) := do
  match ← peek with
  | ⟨.name id, span⟩ =>
    let _ ← advance
    pure (id, span)
  | _ => unexpected .identifier

/-- The end of a statement: a newline, or the mark that closes its block. -/
def lineEnd : Parser Unit := do
  match ← peekKind with
  | .newline => let _ ← advance
  | .dedent | .eof => pure ()
  | _ => unexpected .lineEnd

def skipNewlinesUpTo : Nat → Parser Unit
  | 0 => pure ()
  | n + 1 => do
    if (← accept .newline).isSome then skipNewlinesUpTo n

def skipNewlines : Parser Unit := do skipNewlinesUpTo (← limit)

/-- At most `n` items with commas between them and perhaps one after the last. -/
def commaItems {α : Type} (stop : TokenKind → Bool) (item : Parser α) : Nat → Parser (List α)
  | 0 => pure []
  | n + 1 => do
    if stop (← peekKind) then return []
    let first ← item
    match ← acceptPunct .comma with
    | some _ => return first :: (← commaItems stop item n)
    | none => return [first]

/-- Items with commas between them and perhaps one after the last, up to a token that stops them. -/
def commaList {α : Type} (stop : TokenKind → Bool) (item : Parser α) : Parser (List α) := do
  commaItems stop item ((← limit) + 1)

/-- Items up to a closing symbol, whose span is returned with them. -/
def bracketed {α : Type} (close : Punct) (item : Parser α) : Parser (List α × Span) := do
  let items ← commaList (· == .punct close) item
  let stop ← expectPunct close
  return (items, stop)

/-- At most `n` operands after the first, joined to the left. -/
def chainFrom {α β : Type} (operator : Parser (Option β)) (operand : Parser α)
    (join : α → β → α → α) : Nat → α → Parser α
  | 0, left => pure left
  | n + 1, left => do
    match ← operator with
    | none => pure left
    | some op => chainFrom operator operand join n (join left op (← operand))

/-- Operands with operators between them, joined to the left. -/
def chain {α β : Type} (operator : Parser (Option β)) (operand : Parser α)
    (join : α → β → α → α) : Parser α := do
  let first ← operand
  chainFrom operator operand join (← limit) first

end Parser

end Vyper
