import Vyper.Syntax.Parser.Statement

/-!
# The grammar of modules

A module is a list of declarations. `Module.parse` reads a source text into its tree and the notes
on outdated spellings, each of them once.
-/

namespace Vyper.Parser

/-- A parameter and its default value. -/
def param : Parser (Param × Option Expr) := do
  let (name, span) ← identifier
  let _ ← expectPunct .colon
  let type ← expression
  let param : Param := { span := span.cover type.span, name, type }
  match ← acceptPunct .assign with
  | some _ => return (param, some (← expression))
  | none => return (param, none)

def params : Parser Params := do
  let start ← expectPunct .openParen
  let (items, stop) ← bracketed .closeParen param
  return ⟨start.cover stop, items.map (·.1), items.filterMap (·.2)⟩

/-- A string that is the first statement of a body documents it and is no part of it. -/
def liftDoc : List Stmt → Option String × List Stmt
  | .eval _ (.str _ doc) :: rest => (some doc, rest)
  | body => (none, body)

def functionDef (decorators : List Expr) : Parser FunctionDef := do
  let start ← expectWord "def"
  let (name, _) ← identifier
  let params ← params
  let returns ← match ← acceptPunct .arrow with
    | some _ => some <$> expression
    | none => pure none
  let _ ← expectPunct .colon
  let (body, stop) ← block statement
  let (doc, body) := liftDoc body
  return { span := start.cover stop, decorators, name, params, returns, body, doc }

/-- At most `n` decorators, each on a line of its own. -/
def decoratorsUpTo : Nat → Parser (List Expr)
  | 0 => pure []
  | n + 1 => do
    match ← acceptPunct .atSign with
    | some _ =>
      let decorator ← expression
      lineEnd
      skipNewlines
      return decorator :: (← decoratorsUpTo n)
    | none => return []

def decorated : Parser FunctionDef := do
  let decorators ← decoratorsUpTo (← limit)
  if (← peekKind) = .name "def" then functionDef decorators
  else unexpected .decorated

/-- A struct and an event list typed names; a flag lists bare ones. -/
def isMember (kind : MemberKind) : Stmt → Bool
  | .pass _ => true
  | s =>
    match kind, s with
    | .flag, s => (s.value?.bind Expr.id?).isSome
    | _, .declare .. => true
    | _, _ => false

def memberDef (kind : MemberKind) : Parser MemberDef := do
  let start ← advance
  let (name, _) ← identifier
  let _ ← expectPunct .colon
  let (body, stop) ← block statement
  match body.find? (!isMember kind ·) with
  | some stray => fail (.invalidMember kind) stray.span
  | none => return { kind, span := start.span.cover stop, name, body }

/-- At most `n` lines of an interface. -/
def interfaceItems : Nat → Parser (List InterfaceItem)
  | 0 => pure []
  | n + 1 => do
    skipNewlines
    match ← peekKind with
    | .dedent =>
      let _ ← advance
      return []
    | .eof => return []
    | .name "def" =>
      let first ← functionDef []
      return .function first :: (← interfaceItems n)
    | .name "pass" =>
      let first ← simpleStatement
      return .stmt first :: (← interfaceItems n)
    | _ => unexpected .signature

def interfaceDef : Parser InterfaceDef := do
  let start ← advance
  let (name, _) ← identifier
  let _ ← expectPunct .colon
  if (← peekKind) ≠ .newline then unexpected .lineEnd
  openBlock
  let body ← interfaceItems ((← limit) + 1)
  match body.getLast? with
  | some last => return { span := start.span.cover last.span, name, body }
  | none => unexpected .block

/-- At most `n` further segments of a dotted name. -/
def dottedRest : Nat → Parser (List (String × Span))
  | 0 => pure []
  | n + 1 => do
    match ← acceptPunct .dot with
    | some _ =>
      let segment ← identifier
      return segment :: (← dottedRest n)
    | none => return []

def dottedName : Parser (String × Span) := do
  let (first, span) ← identifier
  let more ← dottedRest (← limit)
  return (".".intercalate (first :: more.map (·.1)), more.foldl (fun s part => s.cover part.2) span)

/-- The name after `as`, if any, and the span of the last word. -/
def importAlias (stop : Span) : Parser (Option String × Span) := do
  match ← acceptWord "as" with
  | some _ =>
    let (asName, span) ← identifier
    return (some asName, span)
  | none => return (none, stop)

def importDef : Parser Import := do
  let start ← advance
  let (name, stop) ← dottedName
  let (asName, stop) ← importAlias stop
  lineEnd
  return { span := start.span.cover stop, name, asName }

/-- At most `n` leading dots. -/
def dotsUpTo : Nat → Parser Nat
  | 0 => pure 0
  | n + 1 => do
    match ← acceptPunct .dot with
    | some _ => return (← dotsUpTo n) + 1
    | none => return 0

def importFromDef : Parser ImportFrom := do
  let start ← advance
  let level ← dotsUpTo (← limit)
  let package ← if (← peekKind) = .name "import" then pure "" else (·.1) <$> dottedName
  let _ ← expectWord "import"
  let (name, stop) ← identifier
  let (asName, stop) ← importAlias stop
  lineEnd
  return { span := start.span.cover stop, package, name, level, asName }

def clause (kind : ClauseKind) : Parser Clause := do
  let start ← advance
  let _ ← expectPunct .colon
  let subject ← expression
  lineEnd
  return { kind, span := start.span.cover subject.span, subject }

def variableDef : Parser VariableDef := do
  let (id, span) ← identifier
  let _ ← expectPunct .colon
  let type ← expression
  let value ← match ← acceptPunct .assign with
    | some _ => some <$> expression
    | none => pure none
  lineEnd
  return {
    span := span.cover (value.getD type).span
    target := .name span id
    type
    value
    modifiers := Modifiers.ofType type
  }

/-- A declaration that starts with a word; four words count as such only before a colon. -/
def wordDeclaration (word : String) (span : Span) : Parser Declaration := do
  let beforeColon := (← peekSecond) == .punct .colon
  match word, beforeColon with
  | "def", _ => .function <$> functionDef []
  | "struct", _ => .members <$> memberDef .struct
  | "event", _ => .members <$> memberDef .event
  | "flag", _ => .members <$> memberDef .flag
  | "enum", _ => do
    note ⟨"enum", "flag"⟩
    .members <$> memberDef .flag
  | "interface", _ => .interface <$> interfaceDef
  | "import", _ => .importing <$> importDef
  | "from", _ => .importFrom <$> importFromDef
  | "exports", true => .clause <$> clause .exports
  | "implements", true => .clause <$> clause .implements
  | "initializes", true => .clause <$> clause .initializes
  | "uses", true => .clause <$> clause .uses
  | _, true => .var <$> variableDef
  | _, false => fail .invalidTopLevel span

def declaration : Parser Declaration := do
  match ← peek with
  | ⟨.punct .atSign, _⟩ => .function <$> decorated
  | ⟨.str _, _⟩ => .stmt <$> simpleStatement
  | ⟨.name word, span⟩ => wordDeclaration word span
  | ⟨.indent, span⟩ => fail .unexpectedIndent span
  | _ => unexpected .declaration

/-- At most `n` declarations up to the end of the text. -/
def declarations : Nat → Parser (List Declaration)
  | 0 => pure []
  | n + 1 => do
    skipNewlines
    if (← peekKind) = .eof then return []
    let first ← declaration
    return first :: (← declarations n)

/-- A string alone on the first line documents the module. -/
def moduleDoc : Parser (Option String) := do
  match ← peekKind, ← peekSecond with
  | .str doc, .newline =>
    let _ ← advance
    return some doc
  | _, _ => return none

def wholeModule : Parser Module := do
  skipNewlines
  let doc ← moduleDoc
  let body ← declarations ((← limit) + 1)
  let eof ← peek
  return { span := ⟨Pos.origin, eof.span.stop⟩, body, doc }

end Vyper.Parser

namespace Vyper

/-- A module tree and the notes taken while reading it, each once, in the order of the text. -/
structure Parsed where
  tree : Module
  notes : List Deprecation

/-- Reads the module written in a source text. -/
def Module.parse (text : List Char) : Except CompileError Parsed := do
  let stream ← TokenStream.ofText text
  let (tree, state) ← Parser.wholeModule (ParseState.ofStream stream)
  return ⟨tree, state.notes.reverse.eraseDups⟩

end Vyper
