import Vyper.Editor.Completion
import Vyper.Editor.Diagnostic
import Vyper.Editor.Signature
import Vyper.Server.Json

/-!
# Answers as JSON

How ranges, diagnostics, completions and signatures are written in messages. What is absent is left
out.
-/

namespace Vyper

/-- A member that is left out when there is nothing to say. -/
def Json.member? (name : String) (value : Option Json) : List (String × Json) :=
  (value.map (name, ·)).toList

def Position.toJson (p : Position) : Json :=
  .obj [("line", .nat p.line), ("character", .nat p.character)]

def Range.toJson (r : Range) : Json := .obj [("start", r.start.toJson), ("end", r.stop.toJson)]

def Diagnostic.toJson (d : Diagnostic) : Json :=
  .obj [("range", d.range.toJson), ("severity", .nat d.severity.code), ("source", .str source),
    ("message", .str d.message)]

def CompletionItem.toJson (i : CompletionItem) : Json :=
  .obj ([("label", .str i.label)] ++
    Json.member? "labelDetails" (i.detail.map fun d => .obj [("detail", .str d)]) ++
    [("kind", .nat i.kind.code)] ++
    Json.member? "documentation" (i.documentation.map .str) ++
    Json.member? "insertText" (i.insertText.map .str))

/-- A complete list of completions. -/
def CompletionItem.listJson (items : List CompletionItem) : Json :=
  .obj [("isIncomplete", .bool false), ("items", .arr (items.map (·.toJson)))]

def SignatureHelp.toJson (s : SignatureHelp) : Json :=
  let parameter (stretch : Nat × Nat) : Json :=
    .obj [("label", .arr [.nat stretch.1, .nat stretch.2])]
  let signature : Json := .obj ([("label", .str s.label)] ++
    Json.member? "documentation" (s.documentation.map .str) ++
      [("parameters", .arr (s.parameters.map parameter)),
      ("activeParameter", .nat s.activeParameter)])
  .obj [("signatures", .arr [signature]), ("activeSignature", .nat 0),
    ("activeParameter", .nat s.activeParameter)]

/-- A range in a document. -/
def Range.locationJson (r : Range) (uri : String) : Json :=
  .obj [("uri", .str uri), ("range", r.toJson)]

/-- A text in Markdown. -/
def Json.markdown (text : String) : Json :=
  .obj [("contents", .obj [("kind", .str "markdown"), ("value", .str text)])]

end Vyper
