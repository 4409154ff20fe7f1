import Vyper.Syntax.Tree

/-!
# Nodes

One view of every part of a module tree: its kind, its span and its named fields. Questions about a
tree are asked of nodes; the field names are those of filters and of a tree that is written out.
The parts of a node are smaller than the node (`sizeOf_lt_of_mem_parts`), so a walk down ends.
-/

namespace Vyper

inductive Kind where
  | module | function | params | param | var | struct | flag | event | interface | importing
  | importFrom | exports | implements | initializes | uses | declare | assign | update | ret | eval
  | pass | leave | next | branch | loop | log | assert | raise | call | keyword | member | subscript
  | name | int | hex | decimal | str | truth | binary | logical | compare | unary | tuple | list
  | dict
deriving DecidableEq

namespace Kind

/-- The word for a kind in answers. -/
def label : Kind → String
  | .module => "Module" | .function => "FunctionDef" | .params => "Arguments" | .param => "Arg"
  | .var => "VariableDecl" | .struct => "StructDef" | .flag => "FlagDef" | .event => "EventDef"
  | .interface => "InterfaceDef" | .importing => "Import" | .importFrom => "ImportFrom"
  | .exports => "ExportsDecl" | .implements => "ImplementsDecl" | .initializes => "InitializesDecl"
  | .uses => "UsesDecl" | .declare => "AnnAssign" | .assign => "Assign" | .update => "AugAssign"
  | .ret => "Return" | .eval => "Expr" | .pass => "Pass" | .leave => "Break" | .next => "Continue"
  | .branch => "If" | .loop => "For" | .log => "Log" | .assert => "Assert" | .raise => "Raise"
  | .call => "Call" | .keyword => "Keyword" | .member => "Attribute" | .subscript => "Subscript"
  | .name => "Name" | .int => "Int" | .hex => "Hex" | .decimal => "Decimal" | .str => "Str"
  | .truth => "NameConstant" | .binary => "BinOp" | .logical => "BoolOp" | .compare => "Compare"
  | .unary => "UnaryOp" | .tuple => "Tuple" | .list => "List" | .dict => "Dict"

def all : List Kind :=
  [.module, .function, .params, .param, .var, .struct, .flag, .event, .interface, .importing,
    .importFrom, .exports, .implements, .initializes, .uses, .declare, .assign, .update, .ret,
    .eval, .pass, .leave, .next, .branch, .loop, .log, .assert, .raise, .call, .keyword, .member,
    .subscript, .name, .int, .hex, .decimal, .str, .truth, .binary, .logical, .compare, .unary,
    .tuple, .list, .dict]

def ofLabel? (label : String) : Option Kind := all.find? (·.label == label)

/-- Whether nodes of the kind give a name to something in the module. -/
def isDeclaration : Kind → Bool
  | .function | .var | .struct | .flag | .event | .interface => true
  | _ => false

end Kind

/-- Any part of a module tree that has a kind and a span. -/
inductive Node where
  | module (m : Module)
  | function (f : FunctionDef)
  | params (p : Params)
  | param (p : Param)
  | var (v : VariableDef)
  | members (d : MemberDef)
  | interface (i : InterfaceDef)
  | importing (i : Import)
  | importFrom (i : ImportFrom)
  | clause (c : Clause)
  | stmt (s : Stmt)
  | expr (e : Expr)
  | keyword (k : Keyword)

/-- What a field of a node holds. -/
inductive FieldValue where
  | text (s : String)
  | flag (b : Bool)
  | node (n : Node)
  | nodes (ns : List Node)

def Declaration.toNode : Declaration → Node
  | .function f => .function f
  | .var v => .var v
  | .members d => .members d
  | .interface i => .interface i
  | .importing i => .importing i
  | .importFrom i => .importFrom i
  | .clause c => .clause c
  | .stmt s => .stmt s

def InterfaceItem.toNode : InterfaceItem → Node
  | .function f => .function f
  | .stmt s => .stmt s

/-- A loop variable with a type is a declaration of its own. -/
def LoopTarget.toNode : LoopTarget → Node
  | .bare target => .expr target
  | .typed span target type resolved => .stmt (.declare span target type none resolved)

def MemberKind.toKind : MemberKind → Kind
  | .struct => .struct | .event => .event | .flag => .flag

def ClauseKind.toKind : ClauseKind → Kind
  | .exports => .exports | .implements => .implements | .initializes => .initializes
  | .uses => .uses

def Numeral.toKind : Numeral → Kind
  | .int => .int | .hex => .hex | .decimal => .decimal

def Expr.kind : Expr → Kind
  | .name .. => .name | .numeral _ form _ => form.toKind | .str .. => .str | .truth .. => .truth
  | .member .. => .member | .call .. => .call | .subscript .. => .subscript
  | .binary .. => .binary | .compare .. => .compare | .logical .. => .logical
  | .unary .. => .unary | .tuple .. => .tuple | .list .. => .list | .dict .. => .dict

def Stmt.kind : Stmt → Kind
  | .declare .. => .declare | .assign .. => .assign | .update .. => .update | .ret .. => .ret
  | .eval .. => .eval | .pass .. => .pass | .leave .. => .leave | .next .. => .next
  | .log .. => .log | .assert .. => .assert | .raise .. => .raise | .branch .. => .branch
  | .loop .. => .loop

namespace Node

def kind : Node → Kind
  | .module _ => .module
  | .function _ => .function
  | .params _ => .params
  | .param _ => .param
  | .var _ => .var
  | .members d => d.kind.toKind
  | .interface _ => .interface
  | .importing _ => .importing
  | .importFrom _ => .importFrom
  | .clause c => c.kind.toKind
  | .stmt s => s.kind
  | .expr e => e.kind
  | .keyword _ => .keyword

def span : Node → Span
  | .module m => m.span
  | .function f => f.span
  | .params p => p.span
  | .param p => p.span
  | .var v => v.span
  | .members d => d.span
  | .interface i => i.span
  | .importing i => i.span
  | .importFrom i => i.span
  | .clause c => c.span
  | .stmt s => s.span
  | .expr e => e.span
  | .keyword k => k.span

/-- The kind and place of a node in one word. -/
def brief (n : Node) : String :=
  let s := n.span
  s!"{n.kind.label}@{s.start.line}:{s.start.col}-{s.stop.line}:{s.stop.col}"

end Node

namespace FieldValue

def exprs (es : List Expr) : FieldValue := .nodes (es.map .expr)

def stmts (ss : List Stmt) : FieldValue := .nodes (ss.map .stmt)

/-- A field that is absent when it has no text. -/
def text? (label : String) (s : Option String) : List (String × FieldValue) :=
  (s.map fun s => (label, .text s)).toList

/-- A field that is absent when it has no expression. -/
def expr? (label : String) (e : Option Expr) : List (String × FieldValue) :=
  (e.map fun e => (label, .node (.expr e))).toList

end FieldValue

def Expr.fields : Expr → List (String × FieldValue)
  | .name _ id => [("id", .text id)]
  | .numeral _ _ text => [("value", .text text)]
  | .str _ value => [("value", .text value)]
  | .truth _ value => [("value", .text (if value then "True" else "False"))]
  | .member _ value attr => [("value", .node (.expr value)), ("attr", .text attr)]
  | .call _ func args keywords =>
    [("func", .node (.expr func)), ("args", .exprs args),
      ("keywords", .nodes (keywords.map .keyword))]
  | .subscript _ value slice => [("value", .node (.expr value)), ("slice", .node (.expr slice))]
  | .binary _ left op right =>
    [("left", .node (.expr left)), ("op", .text op.text), ("right", .node (.expr right))]
  | .compare _ left op right =>
    [("left", .node (.expr left)), ("op", .text op.text), ("right", .node (.expr right))]
  | .logical _ op values => [("op", .text op.text), ("values", .exprs values)]
  | .unary _ op operand => [("op", .text op.text), ("operand", .node (.expr operand))]
  | .tuple _ elements => [("elements", .exprs elements)]
  | .list _ elements => [("elements", .exprs elements)]
  | .dict _ entries => [("keys", .exprs (entries.map (·.key))),
      ("values", .exprs (entries.map (·.value)))]

def Stmt.fields : Stmt → List (String × FieldValue)
  | .declare _ target type value resolved =>
    [("target", .node (.expr target)), ("annotation", .node (.expr type))] ++
      FieldValue.expr? "value" value ++ FieldValue.text? "type" resolved
  | .assign _ target value => [("target", .node (.expr target)), ("value", .node (.expr value))]
  | .update _ target op value =>
    [("target", .node (.expr target)), ("op", .text op.text), ("value", .node (.expr value))]
  | .ret _ value => FieldValue.expr? "value" value
  | .eval _ value | .log _ value => [("value", .node (.expr value))]
  | .pass _ | .leave _ | .next _ => []
  | .assert _ test message => ("test", .node (.expr test)) :: FieldValue.expr? "msg" message
  | .raise _ error => FieldValue.expr? "exc" error
  | .branch _ test body orelse =>
    [("test", .node (.expr test)), ("body", .stmts body), ("orelse", .stmts orelse)]
  | .loop _ target iter body =>
    [("target", .node target.toNode), ("iter", .node (.expr iter)), ("body", .stmts body)]

namespace Node

/-- The fields of a node in the order they are written out. -/
def fields : Node → List (String × FieldValue)
  | .module m => ("body", .nodes (m.body.map (·.toNode))) :: FieldValue.text? "doc_string" m.doc
  | .function f =>
    [("decorator_list", .exprs f.decorators), ("name", .text f.name),
      ("args", .node (.params f.params))] ++
        FieldValue.expr? "returns" f.returns ++ [("body", .stmts f.body)] ++
          FieldValue.text? "doc_string" f.doc
  | .params p => [("args", .nodes (p.params.map .param)), ("defaults", .exprs p.defaults)]
  | .param p =>
    [("arg", .text p.name), ("annotation", .node (.expr p.type))] ++
      FieldValue.text? "type" p.resolved
  | .var v =>
    [("target", .node (.expr v.target)), ("annotation", .node (.expr v.type))] ++
      FieldValue.expr? "value" v.value ++
      [("is_public", .flag v.modifiers.isPublic), ("is_constant", .flag v.modifiers.isConstant),
        ("is_immutable", .flag v.modifiers.isImmutable),
        ("is_transient", .flag v.modifiers.isTransient)] ++
      FieldValue.text? "type" v.resolved
  | .members d => [("name", .text d.name), ("body", .stmts d.body)]
  | .interface i => [("name", .text i.name), ("body", .nodes (i.body.map (·.toNode)))]
  | .importing i => ("name", .text i.name) :: FieldValue.text? "alias" i.asName
  | .importFrom i =>
    [("module", .text i.package), ("name", .text i.name), ("level", .text (toString i.level))] ++
      FieldValue.text? "alias" i.asName
  | .clause c => [("annotation", .node (.expr c.subject))]
  | .stmt s => s.fields
  | .expr e => e.fields
  | .keyword k => [("arg", .text k.name), ("value", .node (.expr k.value))]

def field? (n : Node) (label : String) : Option FieldValue :=
  (n.fields.find? (·.1 == label)).map (·.2)

def text? (n : Node) (label : String) : Option String :=
  match n.field? label with
  | some (.text s) => some s
  | _ => none

/-- The name a node declares or is. -/
def name? (n : Node) : Option String := (n.text? "name").or (n.text? "id")

/-- The value at the end of a path of field names; every name but the last leads to one node. -/
def get? (n : Node) : List String → Option FieldValue
  | [] => none
  | [last] => n.field? last
  | label :: path =>
    match n.field? label with
    | some (.node child) => child.get? path
    | _ => none

/-- The nodes a field holds. -/
def partsOf (label : String) : FieldValue → List (String × Node)
  | .node n => [(label, n)]
  | .nodes ns => ns.map (label, ·)
  | .text _ | .flag _ => []

/-- The nodes one step below, with the names of their fields. -/
def parts (n : Node) : List (String × Node) := n.fields.flatMap fun (label, v) => partsOf label v

theorem sizeOf_lt_of_mem_parts_expr {e : Expr} {p : String × Node} (h : p ∈ (expr e).parts) :
    sizeOf p.2 < sizeOf (expr e) := by
  cases e with
  | dict span entries =>
    simp only [parts, fields, Expr.fields, partsOf, FieldValue.exprs, List.flatMap_cons,
      List.flatMap_nil, List.append_nil, List.mem_append, List.mem_map, List.map_map] at h
    rcases h with ⟨⟨key, value⟩, hmem, rfl⟩ | ⟨⟨key, value⟩, hmem, rfl⟩
    all_goals
      have := List.sizeOf_lt_of_mem hmem
      simp [Entry.key, Entry.value] at *
      omega
  | _ =>
    simp [parts, fields, Expr.fields, partsOf, FieldValue.exprs] at h <;>
      grind [→ List.sizeOf_lt_of_mem]

theorem sizeOf_lt_of_mem_parts_stmt {s : Stmt} {p : String × Node} (h : p ∈ (stmt s).parts) :
    sizeOf p.2 < sizeOf (stmt s) := by
  cases s with
  | loop span target iter body =>
    have hiter : 0 < sizeOf iter := by cases iter <;> simp +arith
    cases target <;>
      simp [parts, fields, Stmt.fields, partsOf, FieldValue.stmts, LoopTarget.toNode] at h <;>
      grind [→ List.sizeOf_lt_of_mem]
  | declare span target type value resolved =>
    cases value <;> cases resolved <;>
      simp [parts, fields, Stmt.fields, partsOf, FieldValue.expr?, FieldValue.text?] at h <;> grind
  | ret span value =>
    cases value <;> simp [parts, fields, Stmt.fields, partsOf, FieldValue.expr?] at h
    grind
  | raise span error =>
    cases error <;> simp [parts, fields, Stmt.fields, partsOf, FieldValue.expr?] at h
    grind
  | assert span test message =>
    cases message <;> simp [parts, fields, Stmt.fields, partsOf, FieldValue.expr?] at h <;> grind
  | _ =>
    simp [parts, fields, Stmt.fields, partsOf, FieldValue.stmts] at h <;>
      grind [→ List.sizeOf_lt_of_mem]

/-- A node is larger than its parts. -/
theorem sizeOf_lt_of_mem_parts {n : Node} {p : String × Node} (h : p ∈ n.parts) :
    sizeOf p.2 < sizeOf n := by
  cases n with
  | expr e => exact sizeOf_lt_of_mem_parts_expr h
  | stmt s => exact sizeOf_lt_of_mem_parts_stmt h
  | module m =>
    obtain ⟨span, body, doc⟩ := m
    have hd : ∀ d : Declaration, sizeOf d.toNode = sizeOf d := by intro d; cases d <;> rfl
    cases doc <;> simp [parts, fields, partsOf, FieldValue.text?] at h <;>
      grind [→ List.sizeOf_lt_of_mem]
  | interface i =>
    obtain ⟨span, name, body⟩ := i
    have hd : ∀ d : InterfaceItem, sizeOf d.toNode = sizeOf d := by intro d; cases d <;> rfl
    simp [parts, fields, partsOf] at h
    grind [→ List.sizeOf_lt_of_mem]
  | function f =>
    obtain ⟨span, decorators, name, params, returns, body, doc⟩ := f
    cases returns <;> cases doc <;>
      simp [parts, fields, partsOf, FieldValue.exprs, FieldValue.stmts, FieldValue.expr?,
        FieldValue.text?] at h <;>
      grind [→ List.sizeOf_lt_of_mem]
  | var v =>
    obtain ⟨span, target, type, value, modifiers, resolved⟩ := v
    cases value <;> cases resolved <;>
      simp [parts, fields, partsOf, FieldValue.expr?, FieldValue.text?] at h <;> grind
  | param p =>
    obtain ⟨span, name, type, resolved⟩ := p
    cases resolved <;> simp [parts, fields, partsOf, FieldValue.text?] at h <;> grind
  | params p =>
    obtain ⟨span, params, defaults⟩ := p
    simp [parts, fields, partsOf, FieldValue.exprs] at h
    grind [→ List.sizeOf_lt_of_mem]
  | members d =>
    obtain ⟨kind, span, name, body⟩ := d
    simp [parts, fields, partsOf, FieldValue.stmts] at h
    grind [→ List.sizeOf_lt_of_mem]
  | importing i =>
    obtain ⟨span, name, asName⟩ := i
    cases asName <;> simp [parts, fields, partsOf, FieldValue.text?] at h
  | importFrom i =>
    obtain ⟨span, package, name, level, asName⟩ := i
    cases asName <;> simp [parts, fields, partsOf, FieldValue.text?] at h
  | clause c =>
    obtain ⟨kind, span, subject⟩ := c
    simp [parts, fields, partsOf] at h
    grind
  | keyword k =>
    obtain ⟨span, name, value⟩ := k
    simp [parts, fields, partsOf, Keyword.value] at h
    grind

end Node

end Vyper
