import Vyper.Syntax.Lexeme

/-!
# Line structure

Lexemes become tokens with marks of line structure between them: a newline after each logical line,
an indent or dedents before a line that is written further in or out than the one before. Line
feeds inside brackets do not end a line, and lines without tokens leave no trace.

`TokenStream.ofText` is the whole way from a source text to its tokens.
-/

namespace Vyper

/-- Where reading has got to: a place, and the width of the blanks before it on its line. -/
structure Mark where
  pos : Pos
  width : Nat

namespace Mark

/-- A tab reaches to the next multiple of eight; characters other than blanks have no width. -/
def step (m : Mark) (c : Char) : Mark :=
  ⟨m.pos.step c,
    if c = '\n' then 0
    else if c = ' ' then m.width + 1
    else if c = '\t' then (m.width / 8 + 1) * 8
    else m.width⟩

def advance (m : Mark) (text : List Char) : Mark := text.foldl step m

def origin : Mark := ⟨Pos.origin, 0⟩

end Mark

/-- A lexeme in its place; `width` is the indentation of a lexeme that is the first of its line. -/
structure Placed where
  lexeme : Lexeme
  span : Span
  width : Nat

/-- The lexemes of a text in their places. -/
def Lexeme.scan (m : Mark) (text : List Char) : List Placed :=
  match text with
  | [] => []
  | c :: cs =>
    let next := m.advance (Lexeme.cut c cs).text
    ⟨(Lexeme.cut c cs).lexeme, ⟨m.pos, next.pos⟩, m.width⟩ ::
      Lexeme.scan next (Lexeme.cut c cs).rest
termination_by text.length
decreasing_by exact Lexeme.cut_rest_length_lt c cs

/-- The state of the layout between two lexemes. -/
structure Layout where
  /-- How many brackets are open. -/
  depth : Nat := 0
  /-- The widths of the open blocks, innermost first; the module itself has width zero. -/
  levels : List Nat := []
  /-- No token has been read since the last line feed outside brackets. -/
  fresh : Bool := true
  /-- The last token put out belongs to a line that has not ended. -/
  inLine : Bool := false

namespace Layout

/-- The indent or the dedents before the first token of a line. -/
def indentTo (s : Layout) (width : Nat) (place : Pos) :
    Except CompileError (List Token × Layout) :=
  let current := s.levels.headD 0
  let here := Span.point place
  if current < width then
    .ok ([⟨.indent, here⟩], { s with levels := width :: s.levels })
  else if width < current then
    let inner := s.levels.takeWhile (width < ·)
    let outer := s.levels.dropWhile (width < ·)
    if outer.headD 0 = width then
      .ok (inner.map fun _ => ⟨.dedent, here⟩, { s with levels := outer })
    else .error (.located .inconsistentIndent here)
  else .ok ([], s)

/-- How a token changes the number of open brackets. A closing bracket too many is ignored. -/
def depthAfter (depth : Nat) : TokenKind → Nat
  | .punct .openParen | .punct .openBracket | .punct .openBrace => depth + 1
  | .punct .closeParen | .punct .closeBracket | .punct .closeBrace => depth - 1
  | _ => depth

/-- The tokens one lexeme adds. -/
def feed (s : Layout) (p : Placed) : Except CompileError (List Token × Layout) :=
  match p.lexeme with
  | .gap => .ok ([], s)
  | .bad fault => .error (.located fault (.point p.span.start))
  | .lineFeed =>
    if s.depth = 0 then
      .ok (if s.inLine then [⟨.newline, p.span⟩] else [],
        { s with fresh := true, inLine := false })
    else .ok ([], s)
  | .token kind => do
    let (marks, s) ←
      if s.fresh && s.depth == 0 then s.indentTo p.width p.span.start else pure ([], s)
    pure (marks ++ [⟨kind, p.span⟩],
      { s with fresh := false, inLine := true, depth := depthAfter s.depth kind })

/-- The marks after the last lexeme: every line and every block is closed. -/
def finish (s : Layout) (eof : Span) : List Token :=
  (if s.inLine then [⟨.newline, eof⟩] else []) ++ s.levels.map fun _ => ⟨.dedent, eof⟩

/-- The tokens of a list of lexemes. -/
def tokens (s : Layout) (eof : Span) : List Placed → Except CompileError (List Token)
  | [] => .ok (s.finish eof)
  | p :: ps => do
    let (out, s) ← s.feed p
    return out ++ (← s.tokens eof ps)

end Layout

/-- The tokens of a source text and the place where it ends. -/
structure TokenStream where
  tokens : List Token
  eof : Span

/-- Reads a source text; the first lexeme or line that does not fit stops it. -/
def TokenStream.ofText (text : List Char) : Except CompileError TokenStream := do
  let eof := Span.point (Pos.origin.advance text)
  let tokens ← Layout.tokens {} eof (Lexeme.scan Mark.origin text)
  return ⟨tokens, eof⟩

end Vyper
