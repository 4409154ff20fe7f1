import Vyper.Syntax.Parser.Declaration
import Vyper.Typing.Annotate

/-!
# Imports

An import is looked up below the search paths, or above the first of them when it has leading dots.
The imported file is annotated with its own imports taken at their word, so imports are followed one
step and no further: of the file system, only the candidates of an import can make a difference.
-/

namespace Vyper

namespace ImportRequest

/-- Interfaces that need no file. -/
def isBuiltIn (r : ImportRequest) : Bool :=
  r.dotted == "ethereum.ercs" || "ethereum.ercs.".toList.isPrefixOf r.dotted.toList

/-- The directories an import starts from. -/
def roots (r : ImportRequest) (search : List Path) : List Path :=
  if r.level = 0 then search else [(search.head?.getD ⟨""⟩).up (r.level - 1)]

/-- The path of the module below a root, without extension. -/
def relative (r : ImportRequest) : String := r.dotted.map fun c => if c = '.' then '/' else c

/-- The files that can answer an import, first choice first. -/
def candidates (r : ImportRequest) (search : List Path) : List Path :=
  (r.roots search).flatMap fun root =>
    [root.join (r.relative ++ ".vy"), root.join (r.relative ++ ".vyi")]

/-- An error in an imported file is an error of the import. -/
def relocate (r : ImportRequest) (e : CompileError) : CompileError :=
  .located (.imported r.dotted e.fault) r.span

/-- Reads and annotates the file an import found. -/
def load (r : ImportRequest) (path : Path) (bytes : ByteArray) : Except CompileError ModuleType :=
  match String.fromUTF8? bytes with
  | none => .error (.located (.unreadable path.text "stream did not contain valid UTF-8") r.span)
  | some source => do
    let text := source.toList
    let parsed ← (Module.parse text).mapError r.relocate
    (parsed.tree.annotate text (some path) Importer.named).mapError r.relocate

end ImportRequest

/-- Finds modules in files. -/
def Importer.fromFiles (files : FileSystem) (search : List Path) : Importer := fun request =>
  if request.isBuiltIn then Importer.named request
  else
    match (request.candidates search).findSome? fun path => (files.read? path).map (path, ·) with
    | some (path, bytes) => request.load path bytes
    | none => .error (.located (.moduleNotFound request.dotted) request.span)

/-- The files that the imports of a module can find. -/
def Module.importCandidates (m : Module) (search : List Path) : List Path :=
  (m.body.filterMap Declaration.request?).flatMap (·.candidates search)

/-- The files that can make a difference to the module written in a text. -/
def importCandidates (text : List Char) (search : List Path) : List Path :=
  match Module.parse text with
  | .ok parsed => parsed.tree.importCandidates search
  | .error _ => []

end Vyper
