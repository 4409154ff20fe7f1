import Vyper.Editor.Query
import Vyper.Proofs.Paths
import Mathlib.Data.List.Basic

/-!
# Trees without the types written in

`untyped` takes out of a tree what annotation writes into it, the `type` fields. Everything else
stays, so the sites of the tree are those of the tree with types (`Tree.sites_untyped`), and every
question that does not ask for a `type` is answered by the same sites (`Lookup.sites_untyped`).
-/

namespace Vyper

def LoopTarget.untyped : LoopTarget → LoopTarget
  | .bare target => .bare target
  | .typed span target type _ => .typed span target type none

mutual

/-- A statement without the types of the names it declares. -/
def Stmt.untyped : Stmt → Stmt
  | .declare span target type value _ => .declare span target type value none
  | .branch span test body orelse =>
    .branch span test (Stmt.untypedAll body) (Stmt.untypedAll orelse)
  | .loop span target iter body => .loop span target.untyped iter (Stmt.untypedAll body)
  | s => s

def Stmt.untypedAll : List Stmt → List Stmt
  | [] => []
  | s :: ss => s.untyped :: Stmt.untypedAll ss

end

def Param.untyped (p : Param) : Param := { p with resolved := none }

def Params.untyped (p : Params) : Params := { p with params := p.params.map Param.untyped }

def FunctionDef.untyped (f : FunctionDef) : FunctionDef :=
  { f with params := f.params.untyped, body := Stmt.untypedAll f.body }

def InterfaceItem.untyped : InterfaceItem → InterfaceItem
  | .function f => .function f.untyped
  | .stmt s => .stmt s.untyped

def Declaration.untyped : Declaration → Declaration
  | .function f => .function f.untyped
  | .var v => .var { v with resolved := none }
  | .members d => .members { d with body := Stmt.untypedAll d.body }
  | .interface i => .interface { i with body := i.body.map InterfaceItem.untyped }
  | .stmt s => .stmt s.untyped
  | d => d

/-- A module without the types written in. -/
def Module.untyped (m : Module) : Module := { m with body := m.body.map Declaration.untyped }

/-- A node without the types written in. -/
def Node.untyped : Node → Node
  | .module m => .module m.untyped
  | .function f => .function f.untyped
  | .params p => .params p.untyped
  | .param p => .param p.untyped
  | .var v => .var { v with resolved := none }
  | .members d => .members { d with body := Stmt.untypedAll d.body }
  | .interface i => .interface { i with body := i.body.map InterfaceItem.untyped }
  | .stmt s => .stmt s.untyped
  | n => n

def FieldValue.untyped : FieldValue → FieldValue
  | .text s => .text s
  | .flag b => .flag b
  | .node n => .node n.untyped
  | .nodes ns => .nodes (ns.map Node.untyped)

theorem Stmt.untypedAll_eq (ss : List Stmt) : Stmt.untypedAll ss = ss.map Stmt.untyped := by
  induction ss with
  | nil => rw [Stmt.untypedAll, List.map_nil]
  | cons s ss ih => rw [Stmt.untypedAll, ih, List.map_cons]

namespace FieldValue

@[simp] theorem untyped_text (s : String) : (text s).untyped = .text s := rfl

@[simp] theorem untyped_flag (b : Bool) : (flag b).untyped = .flag b := rfl

@[simp] theorem untyped_node (n : Node) : (node n).untyped = .node n.untyped := rfl

@[simp] theorem untyped_nodes (ns : List Node) :
    (nodes ns).untyped = .nodes (ns.map Node.untyped) := rfl

@[simp] theorem untyped_exprs (es : List Expr) : (exprs es).untyped = .exprs es := by
  simp [exprs, Node.untyped, Function.comp_def]

@[simp] theorem untyped_stmts (ss : List Stmt) :
    (stmts ss).untyped = .stmts (Stmt.untypedAll ss) := by
  simp [stmts, Node.untyped, Stmt.untypedAll_eq, Function.comp_def]

end FieldValue

namespace Node

theorem untyped_declaration (d : Declaration) : d.untyped.toNode = d.toNode.untyped := by
  cases d <;> rfl

theorem untyped_item (i : InterfaceItem) : i.untyped.toNode = i.toNode.untyped := by
  cases i <;> rfl

theorem untyped_loopTarget (t : LoopTarget) : t.untyped.toNode = t.toNode.untyped := by
  cases t <;> rfl

@[simp] theorem kind_untyped (n : Node) : n.untyped.kind = n.kind := by
  cases n with
  | stmt s => cases s <;> rfl
  | _ => rfl

@[simp] theorem span_untyped (n : Node) : n.untyped.span = n.span := by
  cases n with
  | stmt s => cases s <;> rfl
  | _ => rfl

/-- The fields of a node but for its `type`. -/
def plainFields (n : Node) : List (String × FieldValue) := n.fields.filter (·.1 != "type")

theorem fields_untyped_stmt (s : Stmt) :
    (stmt s).untyped.fields = (stmt s).plainFields.map fun field => (field.1, field.2.untyped) := by
  cases s with
  | declare span target type value resolved =>
    cases value <;> cases resolved <;> rfl
  | ret span value => cases value <;> rfl
  | assert span test message => cases message <;> rfl
  | raise span error => cases error <;> rfl
  | branch span test body orelse =>
    simp [untyped, Stmt.untyped, plainFields, fields, Stmt.fields]
  | loop span target iter body =>
    simp [untyped, Stmt.untyped, plainFields, fields, Stmt.fields, untyped_loopTarget]
  | _ => rfl

theorem fields_untyped_expr (e : Expr) :
    (expr e).untyped.fields = (expr e).plainFields.map fun field => (field.1, field.2.untyped) := by
  cases e <;>
    simp [untyped, plainFields, fields, Expr.fields, Function.comp_def]

/-- Only the `type` of a node is taken out, and what its fields hold has lost its own. -/
theorem fields_untyped (n : Node) :
    n.untyped.fields = n.plainFields.map fun field => (field.1, field.2.untyped) := by
  cases n with
  | stmt s => exact fields_untyped_stmt s
  | expr e => exact fields_untyped_expr e
  | module m =>
    obtain ⟨span, body, doc⟩ := m
    cases doc <;>
      simp [untyped, Module.untyped, plainFields, fields, FieldValue.text?,
        untyped_declaration, Function.comp_def]
  | interface i =>
    simp [untyped, plainFields, fields, untyped_item, Function.comp_def]
  | function f =>
    obtain ⟨span, decorators, name, params, returns, body, doc⟩ := f
    change [("decorator_list", FieldValue.exprs decorators), ("name", .text name),
      ("args", .node (.params params.untyped))] ++ FieldValue.expr? "returns" returns ++
      [("body", FieldValue.stmts (Stmt.untypedAll body))] ++ FieldValue.text? "doc_string" doc = _
    rw [← FieldValue.untyped_stmts, ← FieldValue.untyped_exprs]
    cases returns <;> cases doc <;> rfl
  | params p =>
    simp [untyped, Params.untyped, plainFields, fields, Function.comp_def]
  | param p =>
    obtain ⟨span, name, type, resolved⟩ := p
    cases resolved <;> rfl
  | var v =>
    obtain ⟨span, target, type, value, modifiers, resolved⟩ := v
    cases value <;> cases resolved <;> rfl
  | members d =>
    simp [untyped, plainFields, fields]
  | importing i =>
    obtain ⟨span, name, asName⟩ := i
    cases asName <;> rfl
  | importFrom i =>
    obtain ⟨span, package, name, level, asName⟩ := i
    cases asName <;> rfl
  | clause c => rfl
  | keyword k => rfl

/-- A `type` is a text. -/
theorem exists_text_of_type {n : Node} {field : String × FieldValue} (h : field ∈ n.fields)
    (htype : field.1 = "type") : ∃ text, field.2 = .text text := by
  obtain ⟨label, v⟩ := field
  subst htype
  cases n with
  | stmt s =>
    cases s with
    | declare span target type value resolved =>
      simp [fields, Stmt.fields, FieldValue.expr?, FieldValue.text?] at h
      obtain ⟨text, -, htext⟩ := h
      exact ⟨text, htext.symm⟩
    | _ => simp [fields, Stmt.fields, FieldValue.expr?] at h
  | expr e => cases e <;> simp [fields, Expr.fields] at h
  | param p =>
    simp [fields, FieldValue.text?] at h
    obtain ⟨text, -, htext⟩ := h
    exact ⟨text, htext.symm⟩
  | var v =>
    simp [fields, FieldValue.expr?, FieldValue.text?] at h
    obtain ⟨text, -, htext⟩ := h
    exact ⟨text, htext.symm⟩
  | _ => simp [fields, FieldValue.expr?, FieldValue.text?] at h

theorem partsOf_untyped (label : String) (v : FieldValue) :
    partsOf label v.untyped = (partsOf label v).map fun part => (part.1, part.2.untyped) := by
  cases v <;> simp [partsOf, Function.comp_def]

theorem flatMap_partsOf_untyped {l : List (String × FieldValue)}
    (hl : ∀ field ∈ l, field.1 = "type" → ∃ text, field.2 = .text text) :
    ((l.filter (·.1 != "type")).map fun field => (field.1, field.2.untyped)).flatMap
        (fun field => partsOf field.1 field.2) =
      (l.flatMap fun field => partsOf field.1 field.2).map fun part =>
        (part.1, part.2.untyped) := by
  induction l with
  | nil => rfl
  | cons field l ih =>
    obtain ⟨hfield, hl⟩ := List.forall_mem_cons.mp hl
    by_cases htype : field.1 = "type"
    · obtain ⟨text, htext⟩ := hfield htype
      simpa [htype, htext, partsOf] using ih hl
    · simpa [htype, partsOf_untyped] using ih hl

/-- The parts of a node without its types are its parts without theirs. -/
theorem parts_untyped (n : Node) :
    n.untyped.parts = n.parts.map fun part => (part.1, part.2.untyped) := by
  rw [parts, fields_untyped]
  exact flatMap_partsOf_untyped fun _ => exists_text_of_type

theorem field?_untyped (n : Node) {label : String} (hlabel : label ≠ "type") :
    n.untyped.field? label = (n.field? label).map FieldValue.untyped := by
  have hfind : (n.plainFields.find? fun field => field.1 == label) =
      n.fields.find? fun field => field.1 == label := by
    rw [plainFields, List.find?_filter]
    refine congrArg (fun p => List.find? p n.fields) (funext fun field => ?_)
    by_cases h : field.1 = label
    · simp [h, hlabel]
    · simp [h]
  rw [field?, field?, fields_untyped, List.find?_map]
  change ((n.plainFields.find? fun field => field.1 == label).map _).map _ = _
  rw [hfind, Option.map_map, Option.map_map]
  rfl

/-- What a path leads to is found without types too, unless the path asks for one. -/
theorem get?_untyped (n : Node) {path : List String} (hpath : "type" ∉ path) :
    n.untyped.get? path = (n.get? path).map FieldValue.untyped := by
  induction path generalizing n with
  | nil => rfl
  | cons label path ih =>
    have hlabel := List.ne_of_not_mem_cons hpath
    have hrest := List.not_mem_of_not_mem_cons hpath
    have hfield := field?_untyped n (Ne.symm hlabel)
    cases path with
    | nil => exact hfield
    | cons next path =>
      simp only [get?, hfield]
      cases n.field? label with
      | none => rfl
      | some v =>
        cases v with
        | node child => exact ih child hrest
        | _ => rfl

@[simp] theorem name?_untyped (n : Node) : n.untyped.name? = n.name? := by
  have htext : ∀ label, label ≠ "type" → n.untyped.text? label = n.text? label := by
    intro label hlabel
    rw [text?, text?, field?_untyped n hlabel]
    cases n.field? label with
    | none => rfl
    | some v => cases v <;> rfl
  rw [name?, name?, htext "name" (by decide), htext "id" (by decide)]

/-- Whatever else questions read off a node does not depend on types. -/
@[simp] theorem readings_untyped (n : Node) :
    n.untyped.typeName? = n.typeName? ∧ n.untyped.boundName? = n.boundName? ∧
      n.untyped.declaredType? = n.declaredType? ∧ n.untyped.variant? = n.variant? ∧
      n.untyped.bareName? = n.bareName? ∧ n.untyped.selfMember? = n.selfMember? ∧
      n.untyped.selfCall? = n.selfCall? ∧ n.untyped.calledName? = n.calledName? ∧
      n.untyped.memberOf? = n.memberOf? ∧ n.untyped.fullSpan = n.fullSpan ∧
      ∀ word, n.untyped.hasDecorator word = n.hasDecorator word := by
  cases n with
  | stmt s => cases s <;> exact ⟨rfl, rfl, rfl, rfl, rfl, rfl, rfl, rfl, rfl, rfl, fun _ => rfl⟩
  | _ => exact ⟨rfl, rfl, rfl, rfl, rfl, rfl, rfl, rfl, rfl, rfl, fun _ => rfl⟩

end Node

namespace Site

/-- A site without the types written in, in it or around it. -/
def untyped (s : Site) : Site :=
  { node := s.node.untyped, field := s.field, above := s.above.map Node.untyped }

@[simp] theorem node_untyped (s : Site) : s.untyped.node = s.node.untyped := rfl

@[simp] theorem kind_untyped (s : Site) : s.untyped.kind = s.kind := s.node.kind_untyped

@[simp] theorem span_untyped (s : Site) : s.untyped.span = s.span := s.node.span_untyped

theorem parts_untyped (s : Site) : s.untyped.parts = s.parts.map untyped := by
  rw [parts, parts, node_untyped, Node.parts_untyped, List.map_map, List.map_map]
  rfl

theorem children_untyped (s : Site) : s.untyped.children = s.children.map untyped := by
  rw [children, children, parts_untyped]
  refine (List.map_mergeSort fun a _ b _ => ?_).symm
  rw [span_untyped, span_untyped]

theorem descendants_untyped (s : Site) : s.untyped.descendants = s.descendants.map untyped := by
  rw [descendants_eq, descendants_eq, children_untyped, List.flatMap_map, List.map_flatMap]
  refine List.flatMap_congr fun c hc => ?_
  have hlt := sizeOf_node_lt_of_mem_children hc
  rw [descendants_untyped c, List.map_cons]
termination_by sizeOf s.node

@[simp] theorem parent?_untyped (s : Site) : s.untyped.parent? = s.parent?.map Node.untyped :=
  List.head?_map

@[simp] theorem isField_untyped (s : Site) (kind : Kind) (field : String) :
    s.untyped.isField kind field = s.isField kind field := by
  rw [isField, isField, parent?_untyped]
  cases s.parent? <;> simp [untyped]

theorem inField_untyped (s : Site) (field : String) :
    s.untyped.inField field = (s.inField field).map untyped := by
  rw [inField, inField, parts_untyped, List.filter_map]
  rfl

end Site

/-! ### Questions -/

theorem Constraint.holds_untyped {c : Constraint} (hc : "type" ∉ c.path) (n : Node) :
    c.holds n.untyped = c.holds n := by
  rw [holds, holds, Node.get?_untyped n hc]
  cases n.get? c.path with
  | none => rfl
  | some v => cases v <;> rfl

theorem Filter.admits_untyped {f : Filter} (hf : ∀ c ∈ f, "type" ∉ c.path) (n : Node) :
    f.admits n.untyped = f.admits n := by
  rw [Bool.eq_iff_iff, admits, admits, List.all_eq_true, List.all_eq_true]
  refine forall₂_congr fun c hc => ?_
  rw [Constraint.holds_untyped (hf c hc) n]

namespace Tree

/-- A tree without the types written in. -/
def untyped (t : Tree) : Tree where
  root := t.root.untyped
  text := t.text

variable (t : Tree)

theorem sites_untyped : t.untyped.sites = t.sites.map Site.untyped := by
  rw [sites_eq, sites_eq]
  exact t.root.descendants_untyped

theorem scopedTo_untyped (s : Site) : t.untyped.scopedTo s.untyped = (t.scopedTo s).untyped := rfl

theorem body_untyped : t.untyped.body = t.body.map Site.untyped := t.root.inField_untyped "body"

/-- The sites with a property that does not depend on types. -/
theorem filter_untyped {p : Site → Bool} (hp : ∀ s : Site, p s.untyped = p s) (l : List Site) :
    (l.map Site.untyped).filter p = (l.filter p).map Site.untyped := by
  rw [List.filter_map]
  exact congrArg _ (congrArg (List.filter · l) (funext hp))

theorem find?_untyped {p : Site → Bool} (hp : ∀ s : Site, p s.untyped = p s) (l : List Site) :
    (l.map Site.untyped).find? p = (l.find? p).map Site.untyped := by
  rw [List.find?_map]
  exact congrArg _ (congrArg (List.find? · l) (funext hp))

theorem selectBy_untyped {p : Node → Bool} (hp : ∀ n : Node, p n.untyped = p n) :
    t.untyped.selectBy p = (t.selectBy p).map Site.untyped := by
  rw [selectBy, selectBy, sites_untyped]
  exact filter_untyped (fun s => hp s.node) _

theorem selectKind_untyped (kind : Kind) {p : Node → Bool} (hp : ∀ n : Node, p n.untyped = p n) :
    t.untyped.selectKind kind p = (t.selectKind kind p).map Site.untyped := by
  rw [selectKind, selectKind, sites_untyped]
  exact filter_untyped (fun s => by rw [Site.kind_untyped, Site.node_untyped, hp]) _

theorem events_untyped : t.untyped.events = t.events := by
  rw [events, events, t.selectKind_untyped .event fun n => rfl, List.filterMap_map]
  simp [Function.comp_def]

theorem userTypes_untyped : t.untyped.userTypes = t.userTypes := by
  rw [userTypes, userTypes, t.selectBy_untyped fun n => by simp, List.filterMap_map]
  simp [Function.comp_def]

theorem variantSite?_untyped (flag : Site) (variant : String) :
    variantSite? flag.untyped variant = (variantSite? flag variant).map Site.untyped := by
  rw [variantSite?, variantSite?, Site.children_untyped]
  exact find?_untyped (fun s => by simp) _

theorem typeDeclaration?_untyped (symbol : String) :
    t.untyped.typeDeclaration? symbol = (t.typeDeclaration? symbol).map Site.untyped := by
  rw [typeDeclaration?, typeDeclaration?, sites_untyped, List.findSome?_map, List.map_findSome?]
  refine congrArg (List.findSome? · t.sites) (funext fun s => ?_)
  rw [Function.comp_apply, Function.comp_apply, Site.kind_untyped, Site.node_untyped,
    (Node.readings_untyped s.node).1, variantSite?_untyped]
  split <;> try split
  all_goals rfl

theorem enumVariants_untyped (name : String) :
    t.untyped.enumVariants name = t.enumVariants name := by
  rw [enumVariants, enumVariants, typeDeclaration?_untyped]
  cases t.typeDeclaration? name with
  | none => rfl
  | some s => simp [Site.children_untyped, List.filterMap_map, Function.comp_def]

theorem localsOfType_untyped (name : String) :
    t.untyped.localsOfType name = (t.localsOfType name).map Site.untyped :=
  t.selectKind_untyped .declare fun n => by simp

theorem headersWithType_untyped (name : String) :
    t.untyped.headersWithType name = (t.headersWithType name).map Site.untyped := by
  have hdeclares : ∀ n : Node, declaresType name n.untyped = declaresType name n := by
    intro n
    simp [declaresType]
  rw [headersWithType, headersWithType, selectKind_untyped t .var hdeclares,
    selectKind_untyped t .param hdeclares, selectBy_untyped, List.map_append, List.map_append]
  intro n
  cases n <;> rfl

theorem functionDeclaration?_untyped (name : String) :
    t.untyped.functionDeclaration? name = (t.functionDeclaration? name).map Site.untyped := by
  rw [functionDeclaration?, functionDeclaration?, sites_untyped]
  refine find?_untyped (fun s => ?_) _
  cases hparent : s.parent? <;> simp [hparent]

theorem variableDeclaration?_untyped (name : String) :
    t.untyped.variableDeclaration? name = (t.variableDeclaration? name).map Site.untyped := by
  rw [variableDeclaration?, variableDeclaration?, sites_untyped]
  exact find?_untyped (fun s => by simp) _

theorem symbolDeclaration?_untyped (symbol : String) :
    t.untyped.symbolDeclaration? symbol = (t.symbolDeclaration? symbol).map Site.untyped := by
  rw [symbolDeclaration?, symbolDeclaration?, sites_untyped]
  exact find?_untyped (fun s => by simp) _

theorem topLevelOn?_untyped (line : Nat) :
    t.untyped.topLevelOn? line = (t.topLevelOn? line).map Site.untyped := by
  rw [topLevelOn?, topLevelOn?, body_untyped, find?_untyped, filter_untyped, List.getLast?_map]
  · exact Option.map_or.symm
  · simp
  · simp

end Tree

/-- A question about a tree that sites answer. -/
inductive Lookup where
  | nodes (kinds : List Kind) (filter : Filter)
  | topLevel
  | topLevelAt (line : Nat)
  | internalFunctions
  | functionDeclaration (name : String)
  | variableDeclaration (name : String)
  | typeDeclaration (symbol : String)
  | symbolDeclaration (symbol : String)
  | callsOf (function : String)
  | accessesOf (var : String)
  | usesOfConstant (constant : String)
  | usesOfEnum (name : String)
  | usesOfVariant (name variant : String)
  | usesOfStruct (name : String)
  | usesOfSymbol (symbol : String)
  /-- A question about what lies below the first answer to another one. -/
  | within (scope lookup : Lookup)

namespace Lookup

/-- The sites that answer a question. -/
def sites : Lookup → Tree → List Site
  | .nodes kinds filter, t => t.select kinds filter
  | .topLevel, t => t.body
  | .topLevelAt line, t => (t.topLevelAt? line).toList
  | .internalFunctions, t => t.internalFunctionNodes
  | .functionDeclaration name, t => (t.functionDeclaration? name).toList
  | .variableDeclaration name, t => (t.variableDeclaration? name).toList
  | .typeDeclaration symbol, t => (t.typeDeclaration? symbol).toList
  | .symbolDeclaration symbol, t => (t.symbolDeclaration? symbol).toList
  | .callsOf function, t => t.callsOf function
  | .accessesOf var, t => t.accessesOf var
  | .usesOfConstant constant, t => t.usesOfConstant constant
  | .usesOfEnum name, t => t.usesOfEnum name
  | .usesOfVariant name variant, t => t.usesOfVariant name variant
  | .usesOfStruct name, t => t.usesOfStruct name
  | .usesOfSymbol symbol, t => t.usesOfSymbol symbol
  | .within scope lookup, t =>
    match (scope.sites t).head? with
    | some s => lookup.sites (t.scopedTo s)
    | none => []

/-- Whether a question asks for a `type`. -/
def asksType : Lookup → Bool
  | .nodes _ filter => filter.any (·.path.contains "type")
  | .within scope lookup => scope.asksType || lookup.asksType
  | _ => false

/-- A question that does not ask for a `type` has the same answers without types. -/
theorem sites_untyped (q : Lookup) (hq : q.asksType = false) (t : Tree) :
    q.sites t.untyped = (q.sites t).map Site.untyped := by
  induction q generalizing t with
  | nodes kinds filter =>
    have hfilter : ∀ c ∈ filter, "type" ∉ c.path := by
      simpa [asksType] using hq
    rw [sites, sites, Tree.select, Tree.select, Tree.sites_untyped]
    refine Tree.filter_untyped (fun s => ?_) _
    rw [Site.kind_untyped, Site.node_untyped, Filter.admits_untyped hfilter]
  | topLevel => exact t.body_untyped
  | topLevelAt line =>
    rw [sites, sites, Tree.topLevelAt?, Tree.topLevelAt?, Tree.topLevelOn?_untyped,
      Option.toList_map]
  | internalFunctions => exact t.selectKind_untyped .function fun n => by simp
  | functionDeclaration name =>
    rw [sites, sites, Tree.functionDeclaration?_untyped, Option.toList_map]
  | variableDeclaration name =>
    rw [sites, sites, Tree.variableDeclaration?_untyped, Option.toList_map]
  | typeDeclaration symbol => rw [sites, sites, Tree.typeDeclaration?_untyped, Option.toList_map]
  | symbolDeclaration symbol =>
    rw [sites, sites, Tree.symbolDeclaration?_untyped, Option.toList_map]
  | callsOf function =>
    rw [sites, sites, Tree.callsOf, Tree.callsOf, t.selectBy_untyped fun n => by simp]
  | accessesOf var =>
    rw [sites, sites, Tree.accessesOf, Tree.accessesOf, t.selectBy_untyped fun n => by simp]
  | usesOfConstant constant =>
    rw [sites, sites, Tree.usesOfConstant, Tree.usesOfConstant, t.selectBy_untyped fun n => by simp]
    exact Tree.filter_untyped (fun s => by cases hparent : s.parent? <;> simp [hparent]) _
  | usesOfEnum name =>
    rw [sites, sites, Tree.usesOfEnum, Tree.usesOfEnum, Tree.localsOfType_untyped,
      Tree.headersWithType_untyped, t.selectBy_untyped fun n => by simp, List.map_append,
      List.map_append]
  | usesOfVariant name variant =>
    rw [sites, sites, Tree.usesOfVariant, Tree.usesOfVariant, t.selectBy_untyped fun n => by simp]
  | usesOfStruct name =>
    rw [sites, sites, Tree.usesOfStruct, Tree.usesOfStruct, Tree.localsOfType_untyped,
      Tree.headersWithType_untyped, t.selectBy_untyped fun n => by simp, List.map_append,
      List.map_append]
  | usesOfSymbol symbol =>
    rw [sites, sites, Tree.usesOfSymbol, Tree.usesOfSymbol, t.selectBy_untyped fun n => by simp]
    exact Tree.filter_untyped (fun s => by simp) _
  | within scope lookup ihscope ihlookup =>
    obtain ⟨hscope, hlookup⟩ := Bool.or_eq_false_iff.mp hq
    rw [sites, sites, ihscope hscope, List.head?_map]
    cases (scope.sites t).head? with
    | none => rfl
    | some s => exact ihlookup hlookup (t.scopedTo s)

end Lookup

end Vyper
