import Vyper.Editor.LineCursor
import Vyper.Editor.Query

/-!
# Signature help

The parameters of the function, or the fields of the struct, whose call a cursor stands in, with the
stretch of the label each of them takes up.
-/

namespace Vyper

structure SignatureHelp where
  label : String
  documentation : Option String
  /-- Where each parameter stands in the label, in characters. -/
  parameters : List (Nat × Nat)
  activeParameter : Nat
deriving DecidableEq

/-- A label as far as it is written, with the stretches of its parameters. -/
structure LabelDraft where
  text : String
  parameters : List (Nat × Nat) := []

/-- Writes one more parameter, behind a comma unless it is the first. -/
def LabelDraft.add (draft : LabelDraft) (m : Member) : LabelDraft :=
  let text := if draft.parameters.isEmpty then draft.text else draft.text ++ ", "
  let longer := text ++ m.text
  ⟨longer, draft.parameters ++ [(text.length, longer.length)]⟩

/-- The label up to its last parameter. -/
def LabelDraft.of (name : String) (params : List Member) : LabelDraft :=
  params.foldl add { text := name ++ "(" }

/-- Help on a call of something with these parameters. -/
def SignatureHelp.of (name : String) (params : List Member) (returns documentation : Option String)
    (activeParameter : Nat) : SignatureHelp :=
  let draft := LabelDraft.of name params
  let label := draft.text ++ ")"
  { label := match returns with
      | some type => label ++ " -> " ++ type
      | none => label
    documentation
    parameters := draft.parameters
    activeParameter }

def trimText (s : String) : String := String.ofList (CharClass.trim s.toList)

namespace Analysis

open LineCursor

/-- Help on a function of the module. -/
def localFunctionHelp? (a : Analysis) (name : String) (active : Nat) : Option SignatureHelp := do
  let site ← a.best.functionDeclaration? name
  match site.node with
  | .function f =>
    let text := a.best.text
    let params := f.params.params.map fun p => (⟨p.name, p.type.typeText text⟩ : Member)
    return .of name params (f.returns.map (·.typeText text)) (f.doc.map trimText) active
  | _ => none

/-- Help on a function of an imported module. -/
def moduleFunctionHelp? (a : Analysis) (moduleName name : String) (active : Nat) :
    Option SignatureHelp := do
  let imported ← a.tables.import? moduleName
  let f ← imported.function? name
  return .of f.name f.params f.returns (f.doc.map trimText) active

/-- Help on the construction of a struct. -/
def structHelp? (a : Analysis) (name : String) (active : Nat) : Option SignatureHelp := do
  let type ← a.tables.struct? name
  return .of name type.fields none none active

def signatureHelp? (a : Analysis) (d : Document) (p : Position) : Option SignatureHelp := do
  let (line, index) ← d.cursor? p
  let context ← callContext line index
  if isWord context.callee then
    a.structHelp? (String.ofList context.callee) context.activeParameter
  else
    let (receiver, name) ← parseCall context.callee
    let receiver := String.ofList receiver
    let name := String.ofList name
    if receiver = "self" then a.localFunctionHelp? name context.activeParameter
    else a.moduleFunctionHelp? receiver name context.activeParameter

end Analysis

end Vyper
