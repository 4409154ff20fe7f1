import Vyper.Syntax.Site
import Vyper.Text.CharClass
import Vyper.Typing.BaseType
import Vyper.Typing.Tables
import Vyper.Typing.TypeText

/-!
# Annotation

Annotating a module claims the name of every declaration, records each declaration in its table,
checks the declared types and the accesses through `self`, and writes the types it found into the
tree. The first thing that is wrong is the error. Where imported modules come from is a parameter.
-/

namespace Vyper

/-- A module asked for by an import. -/
structure ImportRequest where
  dotted : String
  /-- The number of leading dots. -/
  level : Nat
  span : Span

/-- Finds the module an import asks for. -/
abbrev Importer := ImportRequest → Except CompileError ModuleType

/-- Takes every import at its word: the module has the name asked for and is otherwise unknown. -/
def Importer.named : Importer := fun request => .ok { name := request.dotted }

/-- The part of a dotted name after its last dot. -/
def lastSegment (dotted : String) : String :=
  String.ofList (dotted.toList.reverse.takeWhile (· ≠ '.')).reverse

/-- The name an import goes by. -/
def Import.localName (i : Import) : String := i.asName.getD (lastSegment i.name)

def Import.request (i : Import) : ImportRequest := ⟨i.name, 0, i.span⟩

/-- The name an import goes by. -/
def ImportFrom.localName (i : ImportFrom) : String := i.asName.getD i.name

def ImportFrom.dotted (i : ImportFrom) : String :=
  if i.package.isEmpty then i.name else s!"{i.package}.{i.name}"

def ImportFrom.request (i : ImportFrom) : ImportRequest := ⟨i.dotted, i.level, i.span⟩

def VariableDef.name (v : VariableDef) : String := v.target.id?.getD ""

namespace Declaration

/-- The name a declaration takes for itself in the module. -/
def claim? : Declaration → Option String
  | .function f => some f.name
  | .var v => some v.name
  | .members d => some d.name
  | .interface i => some i.name
  | .importing i => some i.localName
  | .importFrom i => some i.localName
  | .clause _ | .stmt _ => none

def span (d : Declaration) : Span := d.toNode.span

/-- The module an import declaration asks for. -/
def request? : Declaration → Option ImportRequest
  | .importing i => some i.request
  | .importFrom i => some i.request
  | _ => none

end Declaration

/-- The typed members of a struct or an event. -/
def MemberDef.fields (text : List Char) (d : MemberDef) : List Member :=
  d.body.filterMap fun
    | .declare _ target type _ _ => some ⟨target.id?.getD "", type.unwrap.typeText text⟩
    | _ => none

/-- The variants of a flag. -/
def MemberDef.variants (d : MemberDef) : List String :=
  d.body.filterMap fun s => s.value?.bind Expr.id?

/-- The functions an interface lists. -/
def InterfaceDef.functions (i : InterfaceDef) : List String :=
  i.body.filterMap fun
    | .function f => some f.name
    | .stmt _ => none

namespace Annotate

/-- What decorators say about a function. -/
structure Decoration where
  visibility : Option Visibility := none
  mutability : Mutability := .nonpayable

/-- The name of a decorator, with or without arguments. -/
def decoratorName? : Expr → Option String
  | .name _ id => some id
  | .call _ func _ _ => func.id?
  | _ => none

/-- Takes in one more decorator; of two that contradict each other the later one holds. -/
def decorate (d : Decoration) (decorator : Expr) : Except CompileError Decoration :=
  match decoratorName? decorator with
  | some "external" => .ok { d with visibility := some .external }
  | some "internal" => .ok { d with visibility := some .internal }
  | some "deploy" => .ok { d with visibility := some .deploy }
  | some "view" => .ok { d with mutability := .view }
  | some "pure" => .ok { d with mutability := .pure }
  | some "payable" => .ok { d with mutability := .payable }
  | some "nonpayable" => .ok { d with mutability := .nonpayable }
  | some "nonreentrant" | some "raw_return" => .ok d
  | some other => .error (.located (.unknownDecorator other) decorator.span)
  | none => .error (.located .invalidDecorator decorator.span)

/-- The type of a function. A constructor runs at deployment unless its decorators differ. -/
def functionType (text : List Char) (f : FunctionDef) : Except CompileError FunctionType := do
  let decoration ← f.decorators.foldlM decorate {}
  return {
    name := f.name
    visibility := decoration.visibility.getD (if f.name = "__init__" then .deploy else .internal)
    mutability := decoration.mutability
    params := f.params.params.map fun p => ⟨p.name, p.type.typeText text⟩
    returns := f.returns.map (·.typeText text)
    doc := f.doc.map fun doc => String.ofList (CharClass.trim doc.toList)
  }

def variableType (text : List Char) (v : VariableDef) : VariableType :=
  ⟨v.name, v.type.unwrap.typeText text, v.modifiers⟩

/-- Enters a declaration into its table. -/
def record (importer : Importer) (text : List Char) (m : ModuleType) :
    Declaration → Except CompileError ModuleType
  | .importing i => do
    let imported ← importer i.request
    return { m with imports := m.imports ++ [(i.localName, imported)] }
  | .importFrom i => do
    let imported ← importer i.request
    return { m with imports := m.imports ++ [(i.localName, imported)] }
  | .members d =>
    match d.kind with
    | .struct => .ok { m with structs := m.structs ++ [⟨d.name, d.fields text⟩] }
    | .event => .ok { m with events := m.events ++ [⟨d.name, d.fields text⟩] }
    | .flag => .ok { m with flags := m.flags ++ [⟨d.name, d.variants⟩] }
  | .interface i => .ok { m with interfaces := m.interfaces ++ [⟨i.name, i.functions⟩] }
  | .var v => .ok { m with vars := m.vars ++ [variableType text v] }
  | .function f => do
    let type ← functionType text f
    return { m with functions := m.functions ++ [type] }
  | .clause _ | .stmt _ => .ok m

/-- The names taken so far, with the spans of their declarations, and the tables. -/
structure Draft where
  claims : List (String × Span) := []
  tables : ModuleType

/-- Takes a name, unless an earlier declaration has it. -/
def Draft.claim (d : Draft) (name : String) (span : Span) : Except CompileError Draft :=
  match d.claims.find? (·.1 == name) with
  | some (_, earlier) =>
      .error { fault := .redeclared name, span := some span, related := [earlier] }
  | none => .ok { d with claims := d.claims ++ [(name, span)] }

def declare (importer : Importer) (text : List Char) (d : Draft) (decl : Declaration) :
    Except CompileError Draft := do
  let d ← match decl.claim? with
    | some name => d.claim name decl.span
    | none => .ok d
  return { d with tables := ← record importer text d.tables decl }

/-- The type constructors of the language. -/
def constructors : List String := ["String", "Bytes", "HashMap", "DynArray"]

def knowsType (m : ModuleType) (name : String) : Bool :=
  BaseType.isName name || constructors.contains name || (m.struct? name).isSome ||
    (m.flag? name).isSome || (m.interface? name).isSome || (m.import? name).isSome

mutual

/-- Checks that the names in a type are those of types. Sizes and values are not looked at. -/
def checkType (m : ModuleType) (text : List Char) : Expr → Except CompileError Unit
  | .name span id => if knowsType m id then .ok () else .error (.located (.unknownType id) span)
  | .subscript _ value (.tuple _ params) =>
    match value.id? with
    | some "HashMap" => checkFirst m text 2 params
    | some "DynArray" => checkFirst m text 1 params
    | some "String" | some "Bytes" => .ok ()
    | _ => checkType m text value
  | .subscript _ value param =>
    match value.id? with
    | some "HashMap" | some "DynArray" => checkType m text param
    | some "String" | some "Bytes" => .ok ()
    | _ => checkType m text value
  | .member span value attr =>
    if (value.id?.bind m.import?).isSome then .ok ()
    else .error (.located (.unknownType ((Expr.member span value attr).typeText text)) span)
  | .tuple _ elements => checkFirst m text elements.length elements
  | .call _ (.name _ word) (inner :: _) _ =>
    if Expr.wrappers.contains word then checkType m text inner else .ok ()
  | _ => .ok ()

/-- Checks the first `n` types of a list. -/
def checkFirst (m : ModuleType) (text : List Char) : Nat → List Expr → Except CompileError Unit
  | n + 1, e :: es => do
    checkType m text e
    checkFirst m text n es
  | _, _ => .ok ()

end

mutual

/-- The types of the names a statement declares, in the order of the text. -/
def localTypes : Stmt → List Expr
  | .declare _ _ type _ _ => [type]
  | .branch _ _ body orelse => localTypesOf body ++ localTypesOf orelse
  | .loop _ (.typed _ _ type _) _ body => type :: localTypesOf body
  | .loop _ _ _ body => localTypesOf body
  | _ => []

def localTypesOf : List Stmt → List Expr
  | [] => []
  | s :: ss => localTypes s ++ localTypesOf ss

end

/-- The types a declaration mentions, in the order they are checked. -/
def declaredTypes : Declaration → List Expr
  | .var v => [v.type]
  | .members d =>
    match d.kind with
    | .flag => []
    | _ => localTypesOf d.body
  | .function f => f.params.params.map (·.type) ++ f.returns.toList ++ localTypesOf f.body
  | _ => []

/-- What every contract has without declaring it. -/
def selfMembers : List String := ["balance", "codehash", "codesize", "is_contract", "code"]

/-- Whether `self` has a member: a function where it is called, else something stored. -/
def hasSelfMember (m : ModuleType) (called : Bool) (name : String) : Bool :=
  if called then (m.function? name).isSome
  else (m.var? name).any (!·.modifiers.isConstant) || selfMembers.contains name

/-- The member of `self` a site reads or calls. -/
def selfAccess? (s : Site) : Option String :=
  match s.node with
  | .expr e => e.selfMember?
  | _ => none

def checkSelf (m : ModuleType) (f : FunctionDef) : Except CompileError Unit :=
  ({ node := .function f } : Site).descendants.forM fun s =>
    match selfAccess? s with
    | some name =>
      if hasSelfMember m (s.isField .call "func") name then .ok ()
      else .error (.located (.undeclared name) s.span)
    | none => .ok ()

mutual

/-- A statement with the types of the names it declares written in. -/
def typeStmt (text : List Char) : Stmt → Stmt
  | .declare span target type value _ => .declare span target type value (some (type.typeText text))
  | .branch span test body orelse => .branch span test (typeStmts text body) (typeStmts text orelse)
  | .loop span (.typed place target type _) iter body =>
    .loop span (.typed place target type (some (type.typeText text))) iter (typeStmts text body)
  | .loop span target iter body => .loop span target iter (typeStmts text body)
  | s => s

def typeStmts (text : List Char) : List Stmt → List Stmt
  | [] => []
  | s :: ss => typeStmt text s :: typeStmts text ss

end

def typeParams (text : List Char) (p : Params) : Params :=
  { p with params := p.params.map fun p => { p with resolved := some (p.type.typeText text) } }

/-- A declaration with the types of variables, parameters and locals written in. -/
def typeDeclaration (text : List Char) : Declaration → Declaration
  | .var v => .var { v with resolved := some (v.type.unwrap.typeText text) }
  | .function f => .function
      { f with params := typeParams text f.params, body := typeStmts text f.body }
  | d => d

end Annotate

namespace Module

/-- The functions declared at the top of a module. -/
def functions (m : Module) : List FunctionDef :=
  m.body.filterMap fun
    | .function f => some f
    | _ => none

open Annotate in
/-- The symbol tables of a module, with the tree that carries the types found. -/
def annotate (m : Module) (text : List Char) (path : Option Path) (importer : Importer) :
    Except CompileError ModuleType := do
  let start : ModuleType := { name := (path.bind Path.stem?).getD "", path }
  let draft ← m.body.foldlM (declare importer text) { tables := start }
  m.body.forM fun d => (declaredTypes d).forM (checkType draft.tables text)
  m.functions.forM (checkSelf draft.tables)
  return { draft.tables with tree := some { m with body := m.body.map (typeDeclaration text) } }

end Module

end Vyper
