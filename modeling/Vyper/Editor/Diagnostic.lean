import Vyper.Editor.Range
import Vyper.Error
import Vyper.Syntax.Parser.Basic
import Vyper.Text.Search

/-!
# Diagnostics

What an editor shows about a document: an error at every place it is about, and a warning at every
occurrence of an outdated spelling.
-/

namespace Vyper

inductive Severity where
  | error | warning | information | hint
deriving DecidableEq

/-- The number of a severity in messages to the editor. -/
def Severity.code : Severity → Nat
  | .error => 1 | .warning => 2 | .information => 3 | .hint => 4

def Severity.ofCode? (code : Nat) : Option Severity :=
  [Severity.error, .warning, .information, .hint].find? (·.code == code)

inductive Color where
  | red | yellow | cyan
deriving DecidableEq

def Color.name : Color → String
  | .red => "Red" | .yellow => "Yellow" | .cyan => "Cyan"

/-- The colour of a severity; one that is not known is as bad as an error. -/
def Severity.color : Option Severity → Color
  | some .warning => .yellow
  | some .information | some .hint => .cyan
  | some .error | none => .red

structure Diagnostic where
  range : Range
  severity : Severity
  message : String
deriving DecidableEq

namespace Diagnostic

/-- Who the editor is told found the problem. -/
def source : String := "vyper-lsp"

/-- One error for each place it is about; an error without a place stands at the top. -/
def ofError (e : CompileError) : List Diagnostic :=
  let ranges := (e.span.toList ++ e.related).map Range.ofSpan
  (if ranges.isEmpty then [⟨⟨0, 0⟩, ⟨0, 0⟩⟩] else ranges).map fun range =>
    { range, severity := .error, message := e.display }

end Diagnostic

namespace Deprecation

/-- Reads a warning back into the spellings it is about. -/
def ofMessage? (message : String) : Option Deprecation := do
  let body ← Search.dropEnd? " instead.".toList message.toList
  let (old, new) ← Search.splitOnce " will be deprecated in a future release, use ".toList body
  if old.isEmpty || new.isEmpty then none else some ⟨String.ofList old, String.ofList new⟩

/-- The warnings for one line. -/
def inLine (d : Deprecation) (number : Nat) (line : List Char) : List Diagnostic :=
  (Search.occurrences d.old.toList line).map fun start => {
    range := ⟨⟨number, start⟩, ⟨number, start + d.old.length⟩⟩
    severity := .warning
    message := s!"{d.old} is deprecated. Please use {d.new} instead."
  }

/-- A warning wherever an outdated spelling occurs, in comments and strings too. -/
def diagnostics (warnings : List String) (lines : List (List Char)) : List Diagnostic :=
  let spellings := warnings.filterMap ofMessage?
  lines.zipIdx.flatMap fun (line, number) => spellings.flatMap fun d => d.inLine number line

end Deprecation

/-- A stretch of text that can be pointed at: at least one character. -/
def widen (start stop : Nat) : Nat × Nat := (start, max stop (start + 1))

end Vyper
