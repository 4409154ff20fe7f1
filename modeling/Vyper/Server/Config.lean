import Vyper.Server.Json
import Vyper.Text.CharClass
import Vyper.Text.Search

/-!
# Settings of the server

The quiet time before a rebuild comes from the client's options or from the command line, which
wins. Log messages go to the client as far as the filter lets them through.
-/

namespace Vyper

structure ServerConfig where
  /-- How long a document has to be left alone before it is rebuilt, in milliseconds. -/
  debounceMs : Nat := 500
deriving DecidableEq

namespace ServerConfig

/-- The options of a client, if they can be read. -/
def read? : Json → Option ServerConfig
  | .arr [] => some {}
  | .arr [j] => j.uint64?.map ServerConfig.mk
  | .obj members =>
    match (Json.obj members).get? "debounceMs" with
    | some j => j.uint64?.map ServerConfig.mk
    | none => some {}
  | _ => none

/-- The options of a client; what cannot be read counts as absent. -/
def ofOptions (options : Option Json) : ServerConfig := (options.bind read?).getD {}

/-- The settings with the command line's in place of the client's. -/
def override (c : ServerConfig) (debounceMs : Option Nat) : ServerConfig :=
  match debounceMs with
  | some ms => { c with debounceMs := ms }
  | none => c

end ServerConfig

/-- How much a message matters, most important first. -/
inductive LogLevel where
  | error | warn | info | debug | trace
deriving DecidableEq

/-- Higher numbers say more. -/
def LogLevel.verbosity : LogLevel → Nat
  | .error => 1 | .warn => 2 | .info => 3 | .debug => 4 | .trace => 5

/-- The number of a level in messages to the client. -/
def LogLevel.code : LogLevel → Nat
  | .error => 1 | .warn => 2 | .info => 3 | .debug | .trace => 4

/-- What a filter says of some messages: the start of the name they are filed under, a field they
have, and the most verbosity that passes. -/
structure Directive where
  target : List Char := []
  field : Option String := none
  verbosity : Nat
deriving DecidableEq

namespace Directive

/-- The verbosity of the most verbose level. -/
def everything : Nat := LogLevel.trace.verbosity

/-- A level by number; zero lets nothing through. -/
def levelNumber? (text : List Char) : Option Nat :=
  let digits := if text.head? = some '+' then text.tail else text
  let n := digits.foldl (fun n c => 10 * n + (c.toNat - 48)) 0
  if !digits.isEmpty && digits.all Char.isDigit && n ≤ everything then some n else none

/-- A level by number or by name. -/
def level? (text : List Char) : Option Nat :=
  (levelNumber? text).or <|
    match String.ofList (text.map Char.toLower) with
    | "off" => some 0
    | "error" => some 1
    | "warn" => some 2
    | "info" => some 3
    | "debug" => some 4
    | "trace" => some 5
    | _ => none

/-- The level that a text behind an equals sign sets; nothing there means everything. -/
def levelAt? (text : List Char) : Option Nat :=
  if text.isEmpty then some everything else level? text

/-- A character that a name or a level may start with. -/
def isNameStart (c : Char) : Bool := CharClass.isAlphanumeric c || c == '-' || c == ':' || c == '_'

/-- A directive in its three parts: a target, the inside of the brackets that narrow it down, and a
level. A part that is not there is missing here. -/
structure Parts where
  target : List Char := []
  scope : Option (List Char) := none
  verbosity : Nat

/-- The part of a directive behind its brackets: nothing, or a level. Marks are looked for in
`shape`, and the text between them is taken from `text`. -/
def levelPart? (text shape : List Char) (index : Nat) : Option Nat :=
  match shape.drop index with
  | [] => some everything
  | '=' :: _ => levelAt? (text.drop (index + 1))
  | _ => none

/-- The parts of a directive from its opening bracket on, which stands before `index`. -/
def scopeParts? (text shape target : List Char) (index : Nat) : Option Parts :=
  let inner := shape.drop index
  let name := inner.takeWhile fun c => c != ']' && c != '\x7b'
  match inner.drop name.length with
  | ']' :: _ => do
    let stop := index + name.length
    let verbosity ← levelPart? text shape (stop + 1)
    return { target, scope := some ((text.take stop).drop index), verbosity }
  | '\x7b' :: fields => do
    let field := fields.takeWhile (· != '\x7d')
    let stop := index + name.length + field.length + 2
    let scope := (text.take stop).drop index
    match field, fields.drop field.length with
    | _ :: _, '\x7d' :: ']' :: _ =>
      let verbosity ← levelPart? text shape (stop + 1)
      return { target, scope := some scope, verbosity }
    | _, _ => none
  | _ => none

/-- The parts of a directive. Blanks around it are no part of its shape, but they do count when it
is cut. -/
def parts? (text : List Char) : Option Parts :=
  let shape := CharClass.trim text
  match shape with
  | [] => none
  | '[' :: _ => scopeParts? text shape [] 1
  | first :: _ =>
    let index := (shape.takeWhile fun c => c != '=' && c != '[').length
    if !isNameStart first then none
    else
      match shape.drop index with
      | [] =>
        match level? text with
        | some verbosity => some { verbosity }
        | none => some { target := text, verbosity := everything }
      | '=' :: _ =>
        (levelAt? (text.drop (index + 1))).map fun verbosity =>
          { target := text.take index, verbosity }
      | _ => scopeParts? text shape (text.take index) (index + 1)

/-- The directive that some parts make. One that is about the inside of a named span, or about the
value of a field, never applies. -/
def ofParts (p : Parts) : Option Directive :=
  match p.scope with
  | none => some { target := p.target, verbosity := p.verbosity }
  | some ('\x7b' :: field) =>
    let name := field.dropLast
    if name.contains '=' then none
    else some { target := p.target, field := some (String.ofList name), verbosity := p.verbosity }
  | some _ => none

/-- Whether a directive is about messages filed under a name, with given fields. -/
def appliesTo (d : Directive) (target : List Char) (fields : List String) : Bool :=
  d.target.isPrefixOf target && d.field.all fields.contains

/-- Whether a directive says no less of its messages than another one does. -/
def isAsNarrow (d other : Directive) : Bool :=
  if d.target.length ≠ other.target.length then other.target.length < d.target.length
  else
    match d.field, other.field with
    | _, none => true
    | none, some _ => false
    | some a, some b => b ≤ a

end Directive

/-- Which messages pass: of the directives that apply, the narrowest one decides, and the last of
those. -/
structure LogFilter where
  directives : List Directive
deriving DecidableEq

namespace LogFilter

/-- The name that the messages of the server are filed under. -/
def target : List Char := "vyper_lsp::lsp::server".toList

/-- The directive that decides about a message with given fields. -/
def decisive? (f : LogFilter) (fields : List String) : Option Directive :=
  (f.directives.filter (·.appliesTo target fields)).foldl (fun best d =>
    match best with
    | some (b : Directive) => if d.isAsNarrow b then some d else some b
    | none => some d) none

def admits (f : LogFilter) (level : LogLevel) (fields : List String) : Bool :=
  (f.decisive? fields).any (level.verbosity ≤ ·.verbosity)

/-- The filter that lets messages up to a level through. -/
def upTo (level : LogLevel) : LogFilter := ⟨[{ verbosity := level.verbosity }]⟩

/-- The filter that directives with commas between them describe. Without any, errors pass; a text
that cannot be read lets information through. -/
def ofText (text : String) : LogFilter :=
  match ((Search.pieces (· == ',') text.toList).filter (!·.isEmpty)).mapM Directive.parts? with
  | none => upTo .info
  | some [] => upTo .error
  | some parts => ⟨parts.filterMap Directive.ofParts⟩

end LogFilter

end Vyper
