import Vyper.Editor.Analysis

/-!
# Checking one file

Builds a file once and sums up what is wrong with it.
-/

namespace Vyper

/-- What a check of a file comes to. -/
inductive CheckReport where
  /-- The file is missing or no text. -/
  | unreadable
  | built (diagnostics : List Diagnostic)

namespace CheckReport

def errors (diagnostics : List Diagnostic) : Nat :=
  (diagnostics.filter (·.severity == .error)).length

/-- What is printed. -/
def output : CheckReport → String
  | .unreadable => ""
  | .built [] => "✓ No errors\n"
  | .built ds => s!"{errors ds} error(s), {ds.length - errors ds} warning(s)\n"

/-- Zero when there are no errors. -/
def exitCode : CheckReport → Nat
  | .unreadable => 1
  | .built ds => if errors ds = 0 then 0 else 1

end CheckReport

/-- The path with the steps that lead up taken. -/
def Path.canonical (p : Path) : Path :=
  let steps := p.components.foldl (fun steps step =>
    if step = ".." then steps.dropLast else steps ++ [step]) []
  ⟨"/" ++ "/".intercalate steps⟩

/-- Checks the file at an absolute path. -/
def check (files : FileSystem) (path : Path) : CheckReport :=
  match (files.read? path).bind String.fromUTF8? with
  | some source =>
    match Document.ofPath? path.canonical source.toList with
    | some d => .built (({} : Analysis).build (.builtIn files) d none).2
    | none => .unreadable
  | none => .unreadable

end Vyper
