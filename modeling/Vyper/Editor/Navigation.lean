import Vyper.Editor.LineCursor
import Vyper.Editor.Query

/-!
# Navigation

Go to declaration, go to implementation and find references. What a cursor stands on is told by the
shape of the text around it; the answers are ranges in the document.
-/

namespace Vyper

open LineCursor

/-- What a cursor stands on. -/
structure CursorContext where
  line : List Char
  word : String
  expression : List Char
  /-- Whether the word is named right after `self.`. -/
  isSelfAccess : Bool

namespace CursorContext

def at? (d : Document) (p : Position) : Option CursorContext :=
  (d.cursor? p).map fun (line, index) => {
    line
    word := String.ofList (wordAt line index)
    expression := expressionAt line index
    isSelfAccess := isSelfMember line index
  }

/-- Whether the line starts at the margin. -/
def isTopLevel (c : CursorContext) : Bool := c.line.head?.any (!CharClass.isBlank ·)

def isIndented (c : CursorContext) : Bool := c.line.head?.any CharClass.isBlank

end CursorContext

/-- An identifier at the front of a text, and what follows it. -/
def splitIdentifier (text : List Char) : Option (List Char × List Char) :=
  match text with
  | [] => none
  | first :: _ =>
    if CharClass.isAlphabetic first || first == '_' then
      some (text.takeWhile isWordChar, text.dropWhile isWordChar)
    else none

/-- The two names in front of an expression such as `Color.RED.x`. -/
def variantParts (expression : List Char) : Option (String × String) := do
  let (name, rest) ← splitIdentifier expression
  let (variant, _) ← splitIdentifier (← Search.dropFront? ['.'] rest)
  return (String.ofList name, String.ofList variant)

/-- The place of a node, in characters. -/
def Site.range (s : Site) : Range := .ofSpan s.span

namespace Analysis

def isVariableDeclaration (a : Analysis) (c : CursorContext) : Bool :=
  c.isTopLevel && a.stateVariables.contains c.word

def isConstantDeclaration (a : Analysis) (c : CursorContext) : Bool :=
  Search.contains "constant(".toList c.line && a.isVariableDeclaration c

/-- Whether the cursor is on the definition of an internal function or on a call of a function. -/
def isFunctionName (a : Analysis) (c : CursorContext) : Bool :=
  ("def".toList.isPrefixOf c.line && a.internalFunctions.contains c.word) ||
    (c.isSelfAccess && (a.tables.function? c.word).isSome)

def isVariableAccess (a : Analysis) (c : CursorContext) : Bool :=
  c.isSelfAccess && a.stateVariables.contains c.word

/-- The uses of what a cursor stands on; `line` is the line of the cursor. -/
def referenceSites (a : Analysis) (c : CursorContext) (line : Nat) : List Site :=
  let t := a.best
  if c.word.isEmpty then []
  else if a.enums.contains c.word then t.usesOfEnum c.word
  else if a.structs.contains c.word || a.events.contains c.word then t.usesOfStruct c.word
  else if a.isFunctionName c then t.callsOf c.word
  else if a.isConstantDeclaration c then t.usesOfConstant c.word
  else if a.isVariableDeclaration c || a.isVariableAccess c then t.accessesOf c.word
  else
    match t.topLevelOn? (line + 1) with
    | some top =>
      match top.kind, top.node.name? with
      | .flag, some name => t.usesOfVariant name c.word
      | .function, _ => (t.scopedTo top).usesOfSymbol c.word
      | _, _ => []
    | none => []

def references (a : Analysis) (d : Document) (p : Position) : List Range :=
  match CursorContext.at? d p with
  | some c => (a.referenceSites c p.line).map fun s => d.utf16Range s.range
  | none => []

/-- A flag when an expression starts with one of its variants. -/
def variantOwner? (a : Analysis) (expression : List Char) : Option Site := do
  let (name, variant) ← variantParts expression
  if a.enums.contains name && (a.best.enumVariants name).contains variant then
    a.best.typeDeclaration? name
  else none

/-- What declares the thing a cursor stands on. -/
def declarationSite? (a : Analysis) (c : CursorContext) (line : Nat) : Option Site :=
  let t := a.best
  if c.word.isEmpty then none
  else if c.isSelfAccess then
    if (a.tables.function? c.word).isSome then t.functionDeclaration? c.word
    else a.variableDeclaration? c.word
  else if a.userTypes.contains c.word || a.events.contains c.word then t.typeDeclaration? c.word
  else if a.constants.contains c.word then a.variableDeclaration? c.word
  else
    match t.topLevelOn? (line + 1) with
    | some top =>
      if top.kind = .function then
        ((t.scopedTo top).symbolDeclaration? c.word).or (a.variantOwner? c.expression)
      else none
    | none => none

def declaration? (a : Analysis) (d : Document) (p : Position) : Option Range := do
  let c ← CursorContext.at? d p
  let s ← a.declarationSite? c p.line
  return d.utf16Range s.range

/-- The function behind a call through `self`, or behind a line of an interface. -/
def implementationSite? (a : Analysis) (c : CursorContext) : Option Site :=
  if c.isSelfAccess then
    if (a.tables.function? c.word).isSome then a.best.functionDeclaration? c.word else none
  else if c.isIndented && "def".toList.isPrefixOf (c.line.dropWhile CharClass.isBlank) then
    a.best.functionDeclaration? c.word
  else none

def implementation? (a : Analysis) (d : Document) (p : Position) : Option Range := do
  let c ← CursorContext.at? d p
  let s ← a.implementationSite? c
  return d.utf16Range s.range

end Analysis

end Vyper
