/-!
# Paths and files

A path is its text; a slash separates its components, and empty components and single dots name
nothing. Files are looked up in a `FileSystem`, a pure value, so that whatever depends on files says
which files it depends on.
-/

namespace Vyper

/-- A path in the file system. -/
structure Path where
  text : String
deriving DecidableEq

namespace Path

/-- Whether a component leads anywhere. -/
def isStep (component : List Char) : Bool := !component.isEmpty && component != ['.']

/-- The stretches of a text between slashes. -/
def splitSlashes : List Char → List (List Char)
  | [] => [[]]
  | c :: cs =>
    if c = '/' then [] :: splitSlashes cs
    else match splitSlashes cs with
      | [] => [[c]]
      | part :: parts => (c :: part) :: parts

def joinSlashes (parts : List (List Char)) : List Char := ['/'].intercalate parts

def isAbsolute (p : Path) : Bool := p.text.toList.head? == some '/'

/-- The components that lead somewhere. -/
def components (p : Path) : List String :=
  ((splitSlashes p.text.toList).filter isStep).map String.ofList

/-- The root and the rest of the text of a path. -/
def splitRoot (p : Path) : List Char × List (List Char) :=
  match p.text.toList with
  | '/' :: rest => (['/'], splitSlashes rest)
  | text => ([], splitSlashes text)

/-- Components without those at the end that lead nowhere. -/
def trimSteps (parts : List (List Char)) : List (List Char) :=
  (parts.reverse.dropWhile (!isStep ·)).reverse

/-- The directory a path lies in; a root and an empty path lie in none. -/
def parent? (p : Path) : Option Path :=
  let (root, parts) := p.splitRoot
  match trimSteps parts with
  | [] => none
  | steps => some ⟨String.ofList (root ++ joinSlashes (trimSteps steps.dropLast))⟩

/-- The path `n` directories up, or as far as there are directories. -/
def up (p : Path) : Nat → Path
  | 0 => p
  | n + 1 => (p.parent?.getD p).up n

/-- A relative path below a directory. -/
def join (p : Path) (relative : String) : Path :=
  if p.text.isEmpty ∨ p.text.toList.getLast? = some '/' then ⟨p.text ++ relative⟩
  else ⟨p.text ++ "/" ++ relative⟩

/-- The last component, unless it leads up. -/
def fileName? (p : Path) : Option String :=
  match p.components.getLast? with
  | some ".." => none
  | name => name

/-- The file name without what follows its last dot; a dot in front is part of the name. -/
def stem? (p : Path) : Option String :=
  p.fileName?.map fun name =>
    match name.toList.reverse.dropWhile (· ≠ '.') with
    | _ :: before@(_ :: _) => String.ofList before.reverse
    | _ => name

end Path

/-- The files that can be read: the bytes of each path that is a file. -/
structure FileSystem where
  read? : Path → Option ByteArray

namespace FileSystem

/-- No files at all. -/
def empty : FileSystem := ⟨fun _ => none⟩

/-- The file system that holds files under exactly these spellings of their paths. -/
def ofTable (files : List (Path × ByteArray)) : FileSystem where
  read? path := (files.find? (·.1 = path)).map (·.2)

/-- A file with the components that lead to it. -/
structure Entry where
  steps : List String
  bytes : ByteArray

/-- Whether some file lies below a directory. -/
def isDirectory (entries : List Entry) (steps : List String) : Bool :=
  entries.any fun e => steps.isPrefixOf e.steps && steps.length < e.steps.length

/-- Follows components from a directory; every one but the last has to name a directory. -/
def walk? (entries : List Entry) (here : List String) : List String → Option (List String)
  | [] => some here
  | step :: rest =>
    if !isDirectory entries here then none
    else if step = ".." then walk? entries here.dropLast rest
    else walk? entries (here ++ [step]) rest

/-- The file system that holds just these files. -/
def ofEntries (entries : List Entry) : FileSystem where
  read? path := do
    let steps ← walk? entries [] path.components
    let entry ← entries.find? (·.steps = steps)
    return entry.bytes

/-- The file system that holds the files at these paths. -/
def ofFiles (files : List (Path × ByteArray)) : FileSystem :=
  ofEntries (files.map fun (path, bytes) => ⟨path.components, bytes⟩)

end FileSystem

end Vyper
