import Vyper.Editor.Diagnostic
import Vyper.Server.Config
import Vyper.Server.Encode
import Vyper.Server.UriReference

/-!
# Messages

What a client sends and what the server sends back. A message whose parameters cannot be read is no
message: `Request.read?` and `Notification.read?` give nothing for it.
-/

namespace Vyper

inductive RequestId where
  | number (n : Int)
  | text (s : String)
deriving DecidableEq

def RequestId.toJson : RequestId → Json
  | .number n => .int n
  | .text s => .str s

/-- A position in a document. -/
structure Place where
  uri : String
  position : Position
deriving DecidableEq

/-- What a client asks. -/
inductive Request where
  | declaration (place : Place)
  | implementation (place : Place)
  | references (place : Place)
  | hover (place : Place)
  | completion (place : Place) (trigger : Option String)
  | signatureHelp (place : Place)

/-- An edit; without a range it replaces the whole text. -/
structure ContentChange where
  range : Option Range
  text : String

/-- What a client tells. -/
inductive Notification where
  | didOpen (uri : String) (version : Int) (text : String)
  | didChange (uri : String) (version : Int) (changes : List ContentChange)
  | didSave (uri : String) (text : Option String)
  | didClose (uri : String)

/-- A message of a client as it arrives. -/
inductive Incoming where
  | request (id : RequestId) (method : String) (params : Json)
  | notification (method : String) (params : Json)
  | response

/-- A message to a client. -/
inductive Outgoing where
  | response (id : RequestId) (result : Json)
  | log (level : LogLevel) (message : String)
  | notice (message : String)
  | diagnostics (uri : String) (version : Option Int) (list : List Diagnostic)

namespace Json

def uri? (j : Json) : Option String := do
  let s ← j.string?
  if UriReference.isValid s then some s else none

def position? (j : Json) : Option Position := do
  let field ← j.fields? ["line", "character"]
  return ⟨← (← field "line").uint32?, ← (← field "character").uint32?⟩

def range? (j : Json) : Option Range := do
  let field ← j.fields? ["start", "end"]
  return ⟨← (← field "start").position?, ← (← field "end").position?⟩

/-- The URI in a reference to a document. -/
def documentUri? (j : Json) : Option String := do
  let field ← j.fields? ["uri"]
  (← field "uri").uri?

/-- A progress token, which is not used. -/
def token? (j : Json) : Option Unit := (discard j.int32?).or (discard j.string?)

/-- The position and the document a question is about. -/
def place? (j : Json) : Option Place := do
  let _ ← optional token? (j.get? "workDoneToken")
  return ⟨← (← j.get? "textDocument").documentUri?, ← (← j.get? "position").position?⟩

/-- A question whose answer might be sent in parts. -/
def partialPlace? (j : Json) : Option Place := do
  let _ ← optional token? (j.get? "partialResultToken")
  j.place?

/-- The settings of a search for references, of which none is used. -/
def referenceContext? (j : Json) : Option Unit := do
  let field ← j.fields? ["includeDeclaration"]
  discard (← field "includeDeclaration").bool?

/-- The character that asked for completions. -/
def completionTrigger? (j : Json) : Option (Option String) := do
  let field ← j.fields? ["triggerKind", "triggerCharacter"]
  let _ ← (← field "triggerKind").int32?
  optional string? (field "triggerCharacter")

/-- The kind of a text with markup, by its name, or as the only member of an object. -/
def markupKind? (j : Json) : Option Unit :=
  let name := match j with
    | .str name => some name
    | .obj [(name, .null)] => some name
    | _ => none
  if name = some "plaintext" || name = some "markdown" then some () else none

/-- A text that explains something, plain or with markup. -/
def documentation? (j : Json) : Option Unit :=
  (discard j.string?).or do
    let field ← j.fields? ["kind", "value"]
    let _ ← (← field "kind").markupKind?
    discard (← field "value").string?

/-- The label of a parameter: a text, or where it stands in the label of its function. -/
def parameterLabel? (j : Json) : Option Unit :=
  (discard j.string?).or do
    let offsets ← j.list? uint32?
    if offsets.length = 2 then some () else none

def parameter? (j : Json) : Option Unit := do
  let field ← j.fields? ["label", "documentation"]
  let _ ← (← field "label").parameterLabel?
  discard (optional documentation? (field "documentation"))

def signature? (j : Json) : Option Unit := do
  let field ← j.fields? ["label", "documentation", "parameters", "activeParameter"]
  let _ ← (← field "label").string?
  let _ ← optional documentation? (field "documentation")
  let _ ← optional (list? parameter?) (field "parameters")
  discard (optional uint32? (field "activeParameter"))

/-- Help that was given before. -/
def signatureHelp? (j : Json) : Option Unit := do
  let field ← j.fields? ["signatures", "activeSignature", "activeParameter"]
  let _ ← (← field "signatures").list? signature?
  let _ ← optional uint32? (field "activeSignature")
  discard (optional uint32? (field "activeParameter"))

/-- The circumstances of a request for help, of which none is used. -/
def signatureContext? (j : Json) : Option Unit := do
  let field ← j.fields? ["triggerKind", "triggerCharacter", "isRetrigger", "activeSignatureHelp"]
  let _ ← (← field "triggerKind").int32?
  let _ ← optional string? (field "triggerCharacter")
  let _ ← (← field "isRetrigger").bool?
  discard (optional signatureHelp? (field "activeSignatureHelp"))

def contentChange? (j : Json) : Option ContentChange := do
  let field ← j.fields? ["range", "rangeLength", "text"]
  let _ ← optional uint32? (field "rangeLength")
  return ⟨← optional range? (field "range"), ← (← field "text").string?⟩

end Json

/-- The question a method and its parameters ask. -/
def Request.read? (method : String) (params : Json) : Option Request :=
  match method with
  | "textDocument/declaration" | "textDocument/definition" => params.partialPlace?.map .declaration
  | "textDocument/implementation" => params.partialPlace?.map .implementation
  | "textDocument/references" => do
    let place ← params.partialPlace?
    let _ ← (← params.get? "context").referenceContext?
    return .references place
  | "textDocument/hover" => params.place?.map .hover
  | "textDocument/completion" => do
    let place ← params.partialPlace?
    let trigger ← Json.optional Json.completionTrigger? (params.get? "context")
    return .completion place trigger.join
  | "textDocument/signatureHelp" => do
    let place ← params.place?
    let _ ← Json.optional Json.signatureContext? (params.get? "context")
    return .signatureHelp place
  | _ => none

/-- The event a method and its parameters report. -/
def Notification.read? (method : String) (params : Json) : Option Notification :=
  match method with
  | "textDocument/didOpen" => do
    let field ← params.fields? ["textDocument"]
    let item ← (← field "textDocument").fields? ["uri", "languageId", "version", "text"]
    let uri ← (← item "uri").uri?
    let _ ← (← item "languageId").string?
    return .didOpen uri (← (← item "version").int32?) (← (← item "text").string?)
  | "textDocument/didChange" => do
    let field ← params.fields? ["textDocument", "contentChanges"]
    let item ← (← field "textDocument").fields? ["uri", "version"]
    let changes ← (← field "contentChanges").list? Json.contentChange?
    return .didChange (← (← item "uri").uri?) (← (← item "version").int32?) changes
  | "textDocument/didSave" => do
    let field ← params.fields? ["textDocument", "text"]
    let uri ← (← field "textDocument").documentUri?
    return .didSave uri (← Json.optional Json.string? (field "text"))
  | "textDocument/didClose" => do
    let field ← params.fields? ["textDocument"]
    return .didClose (← (← field "textDocument").documentUri?)
  | _ => none

/-- A message of a client, read from its JSON. -/
def Incoming.ofJson? (j : Json) : Option Incoming :=
  let params := (j.get? "params").getD .null
  let id := (j.get? "id").bind fun
    | .str s => some (RequestId.text s)
    | j => j.int32?.map RequestId.number
  match id, (j.get? "method").bind Json.string? with
  | some id, some method => some (.request id method params)
  | none, some method => some (.notification method params)
  | some _, none => some .response
  | none, none => none

/-- A message to a client, as JSON without the version of the protocol. -/
def Outgoing.members : Outgoing → List (String × Json)
  | .response id result => [("id", id.toJson), ("result", result)]
  | .log level message =>
    [("method", .str "window/logMessage"),
      ("params", .obj [("type", .nat level.code), ("message", .str message)])]
  | .notice message =>
    [("method", .str "window/showMessage"),
      ("params", .obj [("type", .nat LogLevel.info.code), ("message", .str message)])]
  | .diagnostics uri version list =>
    [("method", .str "textDocument/publishDiagnostics"),
      ("params", .obj ([("uri", .str uri), ("diagnostics", .arr (list.map (·.toJson)))] ++
        Json.member? "version" (version.map .int)))]

end Vyper
