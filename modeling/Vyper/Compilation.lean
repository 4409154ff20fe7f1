import Vyper.Folding
import Vyper.Typing.Import

/-!
# Compilations

A source text that parses has a compilation: the tree as read, the tables and the tree annotation
made, and the tree folding made. Each of the last two can fail on its own.
-/

namespace Vyper

structure Compilation where
  raw : Module
  annotated : Except CompileError ModuleType
  /-- Nothing when annotation failed: folding never ran. -/
  folded : Option (Except CompileError Module)
  warnings : List String

namespace Compilation

def annotatedTree? (c : Compilation) : Option Module := c.annotated.toOption.bind (·.tree)

def foldedTree? (c : Compilation) : Option Module := c.folded.bind (·.toOption)

/-- The first error after parsing. -/
def problem? (c : Compilation) : Option CompileError :=
  match c.annotated, c.folded with
  | .error e, _ => some e
  | .ok _, some (.error e) => some e
  | .ok _, _ => none

end Compilation

/-- Turns a source text, with the directories to search for imports, into a compilation. -/
abbrev Frontend := List Char → List Path → Except CompileError Compilation

/-- The front end of this library, on top of a file system. -/
def Frontend.builtIn (files : FileSystem) : Frontend := fun text search => do
  let parsed ← Module.parse text
  let annotated := parsed.tree.annotate text none (.fromFiles files search)
  return {
    raw := parsed.tree
    annotated
    folded := annotated.toOption.bind fun m => m.tree.map Module.fold
    warnings := parsed.notes.map (·.message)
  }

/-- A front end that rejects every text for the same reason. -/
def Frontend.rejecting (e : CompileError) : Frontend := fun _ _ => .error e

end Vyper
