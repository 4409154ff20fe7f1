import Vyper.Syntax.Token

/-!
# Errors

A fault is the cause of an error; its kind and its wording are functions of the cause. An error
puts a fault at a place in the source, with further places it is about.
-/

namespace Vyper

inductive ErrorKind where
  | syntaxException
  | structureException
  | namespaceCollision
  | undeclaredDefinition
  | unknownType
  | moduleNotFound
  | foldingException
deriving DecidableEq

def ErrorKind.name : ErrorKind → String
  | .syntaxException => "SyntaxException"
  | .structureException => "StructureException"
  | .namespaceCollision => "NamespaceCollision"
  | .undeclaredDefinition => "UndeclaredDefinition"
  | .unknownType => "UnknownType"
  | .moduleNotFound => "ModuleNotFound"
  | .foldingException => "FoldingException"

/-- The declarations whose body lists members. -/
inductive MemberKind where
  | struct | event | flag
deriving DecidableEq

def MemberKind.word : MemberKind → String
  | .struct => "struct" | .event => "event" | .flag => "flag"

/-- What the grammar asks for at a token. -/
inductive Expectation where
  | punct (p : Punct)
  | word (w : String)
  | identifier
  | lineEnd
  | declaration
  | decorated
  | block
  | signature
  | expression
deriving DecidableEq

def Expectation.text : Expectation → String
  | .punct p => s!"'{p.text}'"
  | .word w => s!"'{w}'"
  | .identifier => "an identifier"
  | .lineEnd => "end of line"
  | .declaration => "a top-level declaration"
  | .decorated => "'def' after decorators"
  | .block => "an indented block"
  | .signature => "a function signature"
  | .expression => "an expression"

/-- The cause of an error. -/
inductive Fault where
  | unterminatedString
  | invalidCharacter (c : Char)
  | inconsistentIndent
  | expected (what : Expectation) (found : TokenKind)
  | unexpectedIndent
  | invalidTopLevel
  | invalidMember (kind : MemberKind)
  | compoundTarget
  | unknownDecorator (name : String)
  | invalidDecorator
  | redeclared (name : String)
  | undeclared (name : String)
  | unknownType (name : String)
  | moduleNotFound (dotted : String)
  | unreadable (path reason : String)
  | divisionByZero
  /-- A fault of an imported file. -/
  | imported (dotted : String) (fault : Fault)
  /-- A fault some other front end reports in its own words. -/
  | reported (kind : ErrorKind) (message : String)
deriving DecidableEq

namespace Fault

def kind : Fault → ErrorKind
  | .unterminatedString | .invalidCharacter _ | .inconsistentIndent | .expected .. =>
      .syntaxException
  | .unexpectedIndent | .invalidTopLevel => .syntaxException
  | .invalidMember _ | .compoundTarget => .structureException
  | .unknownDecorator _ | .invalidDecorator => .structureException
  | .redeclared _ => .namespaceCollision
  | .undeclared _ => .undeclaredDefinition
  | .unknownType _ => .unknownType
  | .moduleNotFound _ | .unreadable .. => .moduleNotFound
  | .divisionByZero => .foldingException
  | .imported _ fault => fault.kind
  | .reported kind _ => kind

def message : Fault → String
  | .unterminatedString => "unterminated string literal"
  | .invalidCharacter c => s!"invalid character '{c}'"
  | .inconsistentIndent => "unindent does not match any outer indentation level"
  | .expected what found => s!"Expected {what.text}, found {found.describe}"
  | .unexpectedIndent => "unexpected indent"
  | .invalidTopLevel => "Invalid top-level statement"
  | .invalidMember kind => s!"Invalid {kind.word} member"
  | .compoundTarget => "Only simple names can be declared"
  | .unknownDecorator name => s!"Unknown decorator: {name}"
  | .invalidDecorator => "Invalid decorator"
  | .redeclared name => s!"'{name}' has already been declared"
  | .undeclared name => s!"'{name}' has not been declared"
  | .unknownType name => s!"Unknown type: {name}"
  | .moduleNotFound dotted => s!"Module '{dotted}' not found"
  | .unreadable path reason => s!"Could not read {path}: {reason}"
  | .divisionByZero => "Division by zero"
  | .imported dotted fault => s!"{dotted}: {fault.message}"
  | .reported _ message => message

end Fault

/-- A fault at a place, with the other places it is about. -/
structure CompileError where
  fault : Fault
  span : Option Span
  related : List Span := []
deriving DecidableEq

namespace CompileError

def located (fault : Fault) (span : Span) : CompileError := ⟨fault, some span, []⟩

def kind (e : CompileError) : ErrorKind := e.fault.kind

def message (e : CompileError) : String := e.fault.message

/-- The one-line form of the error. -/
def display (e : CompileError) : String := s!"{e.kind.name}: {e.message}"

end CompileError

end Vyper
