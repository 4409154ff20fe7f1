import Vyper.Compilation
import Vyper.Editor.Diagnostic
import Vyper.Editor.Document

/-!
# Analyses

An analysis holds the trees of the last build that parsed and the tables of the last build that
annotated, so that questions have answers while a document is being edited and does not compile.
-/

namespace Vyper

inductive TreeVariant where
  | annotated | raw | folded
deriving DecidableEq

def TreeVariant.name : TreeVariant → String
  | .annotated => "annotated" | .raw => "raw" | .folded => "folded"

/-- The trees to ask, best first: folding removes declarations. -/
def TreeVariant.preference : List TreeVariant := [.annotated, .raw, .folded]

inductive BuildState where
  /-- Nothing has been built. -/
  | empty
  /-- Every tree is current. -/
  | ready
  /-- The document parsed; annotation or folding failed. -/
  | partiallyReady
  /-- The document did not parse. -/
  | failed
deriving DecidableEq

def BuildState.name : BuildState → String
  | .empty => "empty" | .ready => "ready"
  | .partiallyReady => "partially ready" | .failed => "failed"

structure Analysis where
  raw : Option Tree := none
  annotated : Option Tree := none
  folded : Option Tree := none
  tables : ModuleType := { name := "" }
  state : BuildState := .empty

namespace Analysis

/-- An analysis of one tree, without tables. -/
def ofTree (t : Tree) : Analysis := { raw := some t, annotated := some t, state := .ready }

def tree? (a : Analysis) : TreeVariant → Option Tree
  | .annotated => a.annotated
  | .raw => a.raw
  | .folded => a.folded

def bestVariant? (a : Analysis) : Option TreeVariant :=
  TreeVariant.preference.find? fun v => (a.tree? v).isSome

/-- The best tree there is; before the first build it is empty. -/
def best (a : Analysis) : Tree := (a.bestVariant?.bind a.tree?).getD .empty

/-- The tree as it was read, where all declarations are. -/
def unfolded (a : Analysis) : Tree := a.raw.getD .empty

/-- Takes in what a build of a text produced. -/
def install (a : Analysis) (text : List Char) (c : Compilation) : Analysis :=
  let tree (m : Module) : Tree := .ofModule m text
  match c.annotated with
  | .ok tables =>
    let folded := c.foldedTree?.map tree
    { raw := some (tree c.raw)
      annotated := tables.tree.map tree
      folded
      tables
      state := if folded.isSome then .ready else .partiallyReady }
  | .error _ =>
    { a with raw := some (tree c.raw), annotated := none, folded := none, state := .partiallyReady }

/-- Builds a document; a text that does not parse leaves trees and tables as they are. -/
def build (a : Analysis) (frontend : Frontend) (d : Document) (workingDirectory : Option Path) :
    Analysis × List Diagnostic :=
  let (a, diagnostics) := match frontend d.text (d.searchPaths workingDirectory) with
    | .ok c =>
      let errors := (c.problem?.map Diagnostic.ofError).getD []
      (a.install d.text c, errors ++ Deprecation.diagnostics c.warnings d.lines)
    | .error e => ({ a with state := .failed }, Diagnostic.ofError e)
  (a, diagnostics.map fun x => { x with range := d.utf16Range x.range })

end Analysis

end Vyper
