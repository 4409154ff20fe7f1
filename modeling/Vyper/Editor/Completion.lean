import Vyper.Editor.LineCursor
import Vyper.Editor.Query

/-!
# Completion

What can follow a character that was just typed: members after a dot, decorators after an at sign,
types after a colon.
-/

namespace Vyper

open LineCursor

inductive CompletionKind where
  | function | field | var | keyword | enumMember | struct | typeParameter
deriving DecidableEq

/-- The number of a kind in messages to the editor. -/
def CompletionKind.code : CompletionKind → Nat
  | .function => 3 | .field => 5 | .var => 6 | .keyword => 14 | .enumMember => 20 | .struct => 22
  | .typeParameter => 25

structure CompletionItem where
  label : String
  kind : CompletionKind
  insertText : Option String := none
  documentation : Option String := none
  detail : Option String := none
deriving DecidableEq

/-- Which functions of an imported module can be named. -/
inductive MemberScope where
  /-- In a function: internal functions and constructors. -/
  | function
  /-- In an export: external functions. -/
  | exports
  /-- Elsewhere: none. -/
  | module
deriving DecidableEq

def MemberScope.admits (scope : MemberScope) (f : FunctionType) : Bool :=
  match scope with
  | .function => f.isInternal || f.isDeploy
  | .exports => f.isExternal
  | .module => false

namespace Completion

def decorators : List String :=
  ["payable", "nonpayable", "view", "pure", "external", "internal", "deploy"]

/-- Words whose line ends in a colon that no type follows. -/
def declarationWords : List String := ["flag", "struct", "event", "enum", "interface"]

/-- Whether a text starts with a whole word. -/
def startsWithWord (text : List Char) (word : String) : Bool :=
  match Search.dropFront? word.toList text with
  | some rest => rest.head?.all CharClass.isBlank
  | none => false

/-- Whether a colon at an index of a line opens a body. -/
def isDeclarationColon (line : List Char) (index : Nat) : Bool :=
  let text := line.dropWhile CharClass.isBlank
  declarationWords.any (startsWithWord text) ||
    (startsWithWord text "def" && !inParentheses line index)

/-- The dotted expression at the end of a text. -/
def trailingExpression (text : List Char) : List Char :=
  (text.reverse.takeWhile fun c => isWordChar c || c == '.').reverse

/-- What stands before the dot that was typed. The cursor is right behind it, or else the line ends
in it. -/
def receiverText (line : List Char) (index : Nat) : String :=
  let text := match Search.dropEnd? ['.'] (line.take index) with
    | some text => text
    | none => ((CharClass.trimEnd line).reverse.dropWhile (· == '.')).reverse
  String.ofList (trailingExpression text)

def item (kind : CompletionKind) (label : String) : CompletionItem := { label, kind }

end Completion

namespace Analysis

open Completion

/-- The types of the module, then the primitive ones. -/
def typeItems (a : Analysis) (leadingSpace : Bool) : List CompletionItem :=
  (a.userTypes.map (item .struct) ++ BaseType.catalogue.map (item .typeParameter)).map fun i =>
    { i with insertText := if leadingSpace then some (" " ++ i.label) else none }

/-- What `self` has: internal functions and stored variables. -/
def selfItems (a : Analysis) : List CompletionItem :=
  a.internalFunctions.map (item .function) ++
    a.unfolded.body.filterMap fun s =>
      match s.node with
      | .var v =>
        if v.modifiers.isConstant || v.modifiers.isImmutable then none
        else v.target.id?.map (item .var)
      | _ => none

/-- What an imported module offers in a scope. -/
def moduleItems (a : Analysis) (moduleName : String) (scope : MemberScope) : List CompletionItem :=
  match a.tables.import? moduleName with
  | none => []
  | some m =>
    (m.functions.filter scope.admits).map (fun f =>
      { label := f.name
        kind := .function
        documentation := some (f.signature ++ "\n" ++ f.doc.getD "")
        detail := some f.signature }) ++
    m.vars.map fun v =>
      { label := v.name, kind := .var, documentation := some s!"Variable: {v.name}" }

def fieldItems (a : Analysis) (struct : String) : List CompletionItem :=
  (a.best.structFields struct).map (item .field)

/-- The struct a declaration has as its type. -/
def structTypeOf? (a : Analysis) (s : Site) : Option String := do
  let type ← s.node.declaredType?
  let name ← type.unwrap.id?
  if a.structs.contains name then some name else none

/-- The fields of the struct that a parameter or a typed local is. -/
def localItems (a : Analysis) (function : Site) (name : String) : List CompletionItem :=
  let declaration := function.descendants.find? fun s =>
    (s.kind == .param || s.kind == .declare) && s.node.boundName? == some name
  ((declaration.bind a.structTypeOf?).map a.fieldItems).getD []

/-- What is known to follow a receiver and a dot. -/
def receiverItems (a : Analysis) (receiver : String) (scope : MemberScope) : List CompletionItem :=
  if receiver = "self" then a.selfItems
  else
    match Search.dropFront? "self.".toList receiver.toList with
    | some name =>
      let type := (a.variableDeclaration? (String.ofList name)).bind a.structTypeOf?
      (type.map a.fieldItems).getD []
    | none =>
      if (a.tables.import? receiver).isSome then a.moduleItems receiver scope
      else if (a.tables.flag? receiver).isSome then
        (a.best.enumVariants receiver).map (item .enumMember)
      else []

/-- The scope a line lies in; `top` is the declaration around it. -/
def memberScope (line : List Char) (top : Option Site) : MemberScope :=
  if "exports:".toList.isPrefixOf (line.dropWhile CharClass.isBlank) then .exports
  else
    match top.map Site.kind with
    | some .function => .function
    | some .exports => .exports
    | _ => .module

def dotItems (a : Analysis) (line : List Char) (index lineNumber : Nat) : List CompletionItem :=
  let receiver := receiverText line index
  if receiver.isEmpty then []
  else
    let top := a.best.topLevelOn? (lineNumber + 1)
    let ofLocal := match top with
      | some s => if s.kind = .function then a.localItems s receiver else []
      | none => []
    let items := a.receiverItems receiver (memberScope line top) ++ ofLocal
    if items.isEmpty then (a.best.attributesOf receiver).map (item .field) else items

/-- Completions for a character typed at a position. Without one there are none. -/
def completions (a : Analysis) (d : Document) (p : Position) (trigger : Option String) :
    List CompletionItem :=
  match d.cursor? p, trigger with
  | some (line, index), some "." => a.dotItems line index p.line
  | some _, some "@" => decorators.map (item .keyword)
  | some (line, index), some ":" =>
    if isDeclarationColon line index then [] else a.typeItems ((line.drop index).head? != some ' ')
  | some (line, index), some " " =>
    if (CharClass.trimEnd (line.take index)).getLast? = some ':' &&
      !isDeclarationColon line index then
      a.typeItems false
    else []
  | _, _ => []

end Analysis

end Vyper
