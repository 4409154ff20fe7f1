import Vyper.Editor.Analysis
import Vyper.Editor.Filter

/-!
# Declarations and uses

Where something is declared and where it is used. Names are not unique across scopes, so every
question is about one shape of source: an access through `self`, a bare name, a declared type.
Answers come in the order of the text, shape after shape where a question covers several.
-/

namespace Vyper

namespace Node

/-- The name a declaration of a type has. -/
def typeName? : Node → Option String
  | .members d => some d.name
  | _ => none

/-- The name a parameter, a typed local or a variable of the module binds. -/
def boundName? : Node → Option String
  | .param p => some p.name
  | .stmt (.declare _ target ..) => target.id?
  | .var v => v.target.id?
  | _ => none

/-- The declared type of a parameter, a typed local or a variable of the module. -/
def declaredType? : Node → Option Expr
  | .param p => some p.type
  | .stmt (.declare _ _ type ..) => some type
  | .var v => some v.type
  | _ => none

/-- The variant a line of a flag adds. -/
def variant? : Node → Option String
  | .stmt (.eval _ value) => value.id?
  | _ => none

/-- The identifier of a bare name. -/
def bareName? : Node → Option String
  | .expr e => e.id?
  | _ => none

/-- The member of `self` that is read. -/
def selfMember? : Node → Option String
  | .expr e => e.selfMember?
  | _ => none

/-- The member of `self` that is called. -/
def selfCall? : Node → Option String
  | .expr (.call _ func ..) => func.selfMember?
  | _ => none

/-- The name that is called. -/
def calledName? : Node → Option String
  | .expr (.call _ func ..) => func.id?
  | _ => none

/-- The name a member is taken of, and the member. -/
def memberOf? : Node → Option (String × String)
  | .expr (.member _ value attr) => value.id?.map (·, attr)
  | _ => none

/-- Whether a function is decorated with a bare word. -/
def hasDecorator (word : String) : Node → Bool
  | .function f => f.decorators.any (·.id? == some word)
  | _ => false

/-- The span of a declaration with its decorators. -/
def fullSpan : Node → Span
  | .function f => f.decorators.foldl (fun span d => span.cover d.span) f.span
  | n => n.span

/-- The canonical spelling of a type; anything else is spelled as it is written. -/
def typeText (text : List Char) : Node → String
  | .expr e => e.typeText text
  | n => String.ofList (Rows.slice text n.span)

/-- The type inside its wrappers. -/
def unwrap : Node → Node
  | .expr e => .expr e.unwrap
  | n => n

end Node

namespace Tree

/-- The nodes of a kind with a property. -/
def selectKind (t : Tree) (kind : Kind) (p : Node → Bool) : List Site :=
  t.sites.filter fun s => s.kind == kind && p s.node

/-- The nodes with a property. -/
def selectBy (t : Tree) (p : Node → Bool) : List Site := t.sites.filter fun s => p s.node

def events (t : Tree) : List String :=
  (t.selectKind .event fun _ => true).filterMap (·.node.typeName?)

/-- Structs and flags. -/
def userTypes (t : Tree) : List String :=
  (t.selectBy fun n => n.kind == .struct || n.kind == .flag).filterMap (·.node.typeName?)

/-- The constants of a module body. -/
def constants (t : Tree) : List String :=
  t.body.filterMap fun s =>
    match s.node with
    | .var v => if v.modifiers.isConstant then v.target.id? else none
    | _ => none

/-- Every variable of the module, constants and immutables too. -/
def stateVariables (t : Tree) : List String :=
  (t.selectKind .var fun _ => true).filterMap (·.node.boundName?)

/-- The line of a flag that adds a variant. -/
def variantSite? (flag : Site) (variant : String) : Option Site :=
  flag.children.find? fun c => c.node.variant? == some variant

/-- The struct, flag or event of a name, or the line of a flag that adds a variant of that name. -/
def typeDeclaration? (t : Tree) (symbol : String) : Option Site :=
  t.sites.findSome? fun s =>
    match s.kind with
    | .struct | .event => if s.node.typeName? = some symbol then some s else none
    | .flag => if s.node.typeName? = some symbol then some s else variantSite? s symbol
    | _ => none

/-- The variants of a flag. -/
def enumVariants (t : Tree) (name : String) : List String :=
  ((t.typeDeclaration? name).map (·.children)).getD [] |>.filterMap (·.node.variant?)

/-- The fields of a struct or an event. -/
def structFields (t : Tree) (name : String) : List String :=
  (((t.typeDeclaration? name).map (·.children)).getD []).filterMap fun c =>
    if c.kind = .declare then c.node.boundName? else none

/-- The fields of a struct, the variants of a flag. -/
def attributesOf (t : Tree) (symbol : String) : List String :=
  match (t.typeDeclaration? symbol).map Site.kind with
  | some .struct => t.structFields symbol
  | some .flag => t.enumVariants symbol
  | _ => []

def internalFunctionNodes (t : Tree) : List Site :=
  t.selectKind .function (·.hasDecorator "internal")

/-- The calls of a function through `self`. -/
def callsOf (t : Tree) (function : String) : List Site :=
  t.selectBy (·.selfCall? == some function)

/-- The accesses of a variable through `self`. -/
def accessesOf (t : Tree) (var : String) : List Site := t.selectBy (·.selfMember? == some var)

/-- The bare uses of a constant outside the heads of variable declarations. -/
def usesOfConstant (t : Tree) (constant : String) : List Site :=
  (t.selectBy (·.bareName? == some constant)).filter fun s => !s.parent?.any (·.kind == .var)

/-- The typed locals of exactly a type. -/
def localsOfType (t : Tree) (name : String) : List Site :=
  t.selectKind .declare fun n => n.declaredType?.bind Expr.id? == some name

/-- Whether a declaration has a type, perhaps in wrappers. -/
def declaresType (name : String) (n : Node) : Bool :=
  n.declaredType?.bind (·.unwrap.id?) == some name

/-- The variables, the parameters and the functions that mention a type in their headers. -/
def headersWithType (t : Tree) (name : String) : List Site :=
  t.selectKind .var (declaresType name) ++ t.selectKind .param (declaresType name) ++
    t.selectBy fun
      | .function f => f.returns.bind Expr.id? == some name
      | _ => false

/-- The uses of a flag: typed locals, variants taken of it, then headers. -/
def usesOfEnum (t : Tree) (name : String) : List Site :=
  t.localsOfType name ++ t.selectBy (fun n => n.memberOf?.any (·.1 == name)) ++
    t.headersWithType name

/-- The places a variant of a flag is taken. -/
def usesOfVariant (t : Tree) (name variant : String) : List Site :=
  t.selectBy (·.memberOf? == some (name, variant))

/-- The uses of a struct or an event: typed locals, constructions, then headers. -/
def usesOfStruct (t : Tree) (name : String) : List Site :=
  t.localsOfType name ++ t.selectBy (·.calledName? == some name) ++ t.headersWithType name

/-- The function of a name outside any interface. -/
def functionDeclaration? (t : Tree) (name : String) : Option Site :=
  t.sites.find? fun s =>
    s.kind == .function && s.node.name? == some name && !s.parent?.any (·.kind == .interface)

/-- The variable of the module of a name. -/
def variableDeclaration? (t : Tree) (name : String) : Option Site :=
  t.sites.find? fun s => s.kind == .var && s.node.boundName? == some name

/-- The declaration on a line, else the last one that starts above it. -/
def topLevelOn? (t : Tree) (line : Nat) : Option Site :=
  (t.body.find? fun s => s.node.fullSpan.containsLine line).or
    (t.body.filter fun s => s.node.fullSpan.start.line ≤ line).getLast?

/-- The declaration at a line that a client counts from zero, in 32 bits: counting from one instead
takes the last number to zero. No line of a document has that number, so where a document has the
line of a cursor, what follows asks `topLevelOn?`. -/
def topLevelAt? (t : Tree) (line : Nat) : Option Site := t.topLevelOn? ((line + 1) % UInt32.size)

/-- The bare uses of a name, but for keys of dictionaries and targets of typed declarations. -/
def usesOfSymbol (t : Tree) (symbol : String) : List Site :=
  (t.selectBy (·.bareName? == some symbol)).filter fun s =>
    !(s.isField .dict "keys" || s.isField .declare "target")

/-- What binds a name first: a parameter, a typed local or a variable of the module. -/
def symbolDeclaration? (t : Tree) (symbol : String) : Option Site :=
  t.sites.find? fun s => s.node.boundName? == some symbol

end Tree

namespace Analysis

def enums (a : Analysis) : List String := a.tables.flags.map (·.name)

def structs (a : Analysis) : List String := a.tables.structs.map (·.name)

def events (a : Analysis) : List String := a.best.events

def userTypes (a : Analysis) : List String := a.best.userTypes

def constants (a : Analysis) : List String := a.unfolded.constants

def stateVariables (a : Analysis) : List String := a.unfolded.stateVariables

def internalFunctions (a : Analysis) : List String :=
  (a.tables.functions.filter (·.isInternal)).map (·.name)

def variableDeclaration? (a : Analysis) (name : String) : Option Site :=
  a.unfolded.variableDeclaration? name

end Analysis

end Vyper
