import Vyper.Editor.Debounce
import Vyper.Editor.Hover
import Vyper.Server.Message

/-!
# The server

The server holds the open documents. It answers messages, and rebuilds a document once it has been
left alone for a while. Both are functions of the state and of the time; what is sent comes with the
new state.
-/

namespace Vyper

/-- An open document, what is known of it, and the version that waits to be rebuilt. -/
structure OpenDocument where
  document : Document
  version : Int
  analysis : Analysis := {}
  rebuild : Debouncer Int

structure Server where
  config : ServerConfig := {}
  logFilter : LogFilter := .upTo .info
  documents : List OpenDocument := []
  running : Bool := true

namespace Server

/-- What the server tells a client it can do. -/
def capabilities : Json :=
  let strings (items : List String) : Json := .arr (items.map .str)
  .obj [
    ("textDocumentSync", .obj [("openClose", .bool true), ("change", .nat 2),
      ("save", .obj [("includeText", .bool true)])]),
    ("hoverProvider", .bool true),
    ("completionProvider", .obj [("resolveProvider", .bool false),
      ("triggerCharacters", strings [":", ".", "@", " "])]),
    ("signatureHelpProvider", .obj [("triggerCharacters", strings ["("]),
      ("retriggerCharacters", strings [",", " "])]),
    ("declarationProvider", .bool true),
    ("definitionProvider", .bool true),
    ("implementationProvider", .bool true),
    ("referencesProvider", .bool true)]

/-- The answer to the request that starts a session. -/
def greeting (id : RequestId) : Outgoing := .response id (.obj [("capabilities", capabilities)])

/-- A message for the log, if the filter lets it through. -/
def log (s : Server) (level : LogLevel) (message : String) (fields : List (String × String)) :
    List Outgoing :=
  let items := fields.map fun (name, value) => s!"{name}={value}"
  let tail := if items.isEmpty then "" else " (" ++ ", ".intercalate items ++ ")"
  if s.logFilter.admits level ("message" :: fields.map (·.1)) then
    [.log level (message ++ tail)] else []

/-- A server at the start of a session, and the first message of its log. -/
def start (options : Option Json) (debounceMs : Option Nat) (logFilter : LogFilter) :
    Server × List Outgoing :=
  let s : Server := { config := (ServerConfig.ofOptions options).override debounceMs, logFilter }
  (s, s.log .info "Vyper language server initialized" [])

def document? (s : Server) (uri : String) : Option OpenDocument :=
  s.documents.find? (·.document.uri == uri)

/-- Every open document with a URI replaced. -/
def update (s : Server) (uri : String) (f : OpenDocument → OpenDocument) : Server :=
  { s with documents := s.documents.map fun o => if o.document.uri == uri then f o else o }

def close (s : Server) (uri : String) : Server :=
  { s with documents := s.documents.filter (·.document.uri != uri) }

def didOpen (s : Server) (now : Nat) (uri : String) (version : Int) (text : String) :
    Server × List Outgoing :=
  let quiet : Debouncer Int := { wait := s.config.debounceMs }
  let opened : OpenDocument := {
    document := ⟨uri, text.toList⟩
    version
    rebuild := quiet.call version now
  }
  let closed := s.close uri
  ({ closed with documents := closed.documents ++ [opened] },
    s.log .info "Document opened" [("uri", uri)])

/-- Applies edits one after another; one that is out of reach is dropped. -/
def applyChanges (d : Document) : List ContentChange → Document × List InvalidPosition
  | [] => (d, [])
  | change :: changes =>
    match d.applyChange change.range change.text.toList with
    | .ok edited => applyChanges edited changes
    | .error e =>
      let (edited, errors) := applyChanges d changes
      (edited, e :: errors)

def didChange (s : Server) (now : Nat) (uri : String) (version : Int)
    (changes : List ContentChange) : Server × List Outgoing :=
  match s.document? uri with
  | none => (s, s.log .warn "Change for a document that is not open" [("uri", uri)])
  | some o =>
    let (edited, errors) := applyChanges o.document changes
    (s.update uri fun o =>
        { o with document := edited, version, rebuild := o.rebuild.call version now },
      errors.flatMap fun e =>
        s.log .warn "Dropping content change" [("error", e.message), ("uri", uri)])

def didSave (s : Server) (now : Nat) (uri : String) (text : Option String) : Server :=
  s.update uri fun o =>
    { o with
      document := (text.map fun t => { o.document with text := t.toList }).getD o.document
      rebuild := o.rebuild.call o.version now }

def didClose (s : Server) (uri : String) : Server × List Outgoing :=
  (s.close uri, s.log .info "Document closed" [("uri", uri)] ++ [.diagnostics uri none []])

def notify (s : Server) (now : Nat) : Notification → Server × List Outgoing
  | .didOpen uri version text => s.didOpen now uri version text
  | .didChange uri version changes => s.didChange now uri version changes
  | .didSave uri text => (s.didSave now uri text, [])
  | .didClose uri => s.didClose uri

/-- What an open document answers to a question; nothing for a document that is not open. -/
def ask (s : Server) (place : Place) (f : Analysis → Document → Position → Option Json) : Json :=
  ((s.document? place.uri).bind fun o => f o.analysis o.document place.position).getD .null

/-- A message and a response to a question. -/
def answer (s : Server) (id : RequestId) : Request → List Outgoing
  | .declaration place =>
    match (s.document? place.uri).bind fun o =>
      o.analysis.declaration? o.document place.position with
    | some range => [.response id (range.locationJson place.uri)]
    | none => [.notice "No declaration found", .response id .null]
  | .implementation place =>
    [.response id (s.ask place fun a d p => (a.implementation? d p).map (·.locationJson place.uri))]
  | .references place =>
    [.response id (s.ask place fun a d p =>
      some (.arr ((a.references d p).map (·.locationJson place.uri))))]
  | .hover place => [.response id (s.ask place fun a d p => (a.hover? d p).map Json.markdown)]
  | .completion place trigger =>
    [.response id (s.ask place fun a d p =>
      some (CompletionItem.listJson (a.completions d p trigger)))]
  | .signatureHelp place =>
    [.response id (s.ask place fun a d p => (a.signatureHelp? d p).map (·.toJson))]

/-- Takes in one message. Unknown methods and unreadable parameters are passed over. -/
def receive (s : Server) (now : Nat) : Incoming → Server × List Outgoing
  | .request id "shutdown" _ => ({ s with running := false }, [.response id .null])
  | .request id method params =>
    (s, ((Request.read? method params).map (s.answer id)).getD [])
  | .notification method params =>
    ((Notification.read? method params).map (s.notify now)).getD (s, [])
  | .response => (s, [])

/-- When the next rebuild is due. -/
def nextDeadline? (s : Server) : Option Nat := (s.documents.filterMap (·.rebuild.deadline?)).min?

/-- The document after its rebuild, if one is due, and the diagnostics of it. -/
def rebuildDocument (frontend : Frontend) (workingDirectory : Option Path) (now : Nat)
    (o : OpenDocument) : OpenDocument × List Outgoing :=
  match o.rebuild.poll now with
  | (some version, rebuild) =>
    let (analysis, list) := o.analysis.build frontend o.document workingDirectory
    ({ o with analysis, rebuild }, [.diagnostics o.document.uri (some version) list])
  | (none, _) => (o, [])

/-- Rebuilds every document whose quiet time has passed. -/
def rebuildDue (s : Server) (frontend : Frontend) (workingDirectory : Option Path) (now : Nat) :
    Server × List Outgoing :=
  let rebuilt := s.documents.map (rebuildDocument frontend workingDirectory now)
  ({ s with documents := rebuilt.map (·.1) }, rebuilt.flatMap (·.2))

end Server

end Vyper
