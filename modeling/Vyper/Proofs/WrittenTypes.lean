import Vyper.Editor.Navigation
import Vyper.Proofs.ErasedTypes
import Vyper.Proofs.MemberQueries

/-!
# The types annotation writes

Annotation writes a type on the variables of a module and, in its functions, on the parameters and
the declarations. It changes nothing else (`Module.untyped_typed`): a module that was read has no
types, so with the types taken out it is the module that was read. Where the annotated tree is
missing, the tree as it was read gives the same answers (`Module.annotate_keeps_answers`).
-/

namespace Vyper

open Annotate

/-! ### Writing and erasing -/

mutual

theorem Stmt.untyped_typeStmt (text : List Char) (s : Stmt) :
    (typeStmt text s).untyped = s.untyped := by
  cases s with
  | branch span test body orelse =>
    rw [typeStmt, Stmt.untyped, Stmt.untyped, Stmt.untypedAll_typeStmts text body,
      Stmt.untypedAll_typeStmts text orelse]
  | loop span target iter body =>
    cases target with
    | bare target =>
      rw [typeStmt, Stmt.untyped, Stmt.untyped, Stmt.untypedAll_typeStmts text body]
      exact nofun
    | typed place target type resolved =>
      rw [typeStmt, Stmt.untyped, Stmt.untyped, Stmt.untypedAll_typeStmts text body]
      rfl
  | _ => rfl

theorem Stmt.untypedAll_typeStmts (text : List Char) (ss : List Stmt) :
    Stmt.untypedAll (typeStmts text ss) = Stmt.untypedAll ss := by
  cases ss with
  | nil => rfl
  | cons s ss =>
    rw [typeStmts, Stmt.untypedAll, Stmt.untypedAll, Stmt.untyped_typeStmt text s,
      Stmt.untypedAll_typeStmts text ss]

end

theorem Declaration.untyped_typeDeclaration (text : List Char) (d : Declaration) :
    (typeDeclaration text d).untyped = d.untyped := by
  cases d with
  | function f =>
    simp [typeDeclaration, typeParams, Declaration.untyped, FunctionDef.untyped, Params.untyped,
      Param.untyped, Stmt.untypedAll_typeStmts, Function.comp_def]
  | _ => rfl

theorem map_eq_self {α : Type} {f : α → α} {l : List α} (h : ∀ a ∈ l, f a = a) : l.map f = l :=
  (List.map_congr_left (g := id) h).trans (List.map_id l)

mutual

/-- A statement that was read has no types. -/
theorem Stmt.untyped_eq_self (s : Stmt) (h : (Node.stmt s).Throughout Node.Regular) :
    s.untyped = s := by
  cases s with
  | declare span target type value resolved =>
    have hnone : resolved = none := h.self.2
    rw [Stmt.untyped, hnone]
  | branch span test body orelse =>
    have hbody := h.stmts (List.mem_cons_of_mem _ List.mem_cons_self)
    have horelse := h.stmts (List.mem_cons_of_mem _ (List.mem_cons_of_mem _ List.mem_cons_self))
    rw [Stmt.untyped, Stmt.untypedAll_eq_self body hbody, Stmt.untypedAll_eq_self orelse horelse]
  | loop span target iter body =>
    obtain ⟨place, id, rfl⟩ : ∃ place id, target = .bare (.name place id) := h.self
    have hbody := h.stmts (List.mem_cons_of_mem _ (List.mem_cons_of_mem _ List.mem_cons_self))
    rw [Stmt.untyped, Stmt.untypedAll_eq_self body hbody]
    rfl
  | _ => rfl

theorem Stmt.untypedAll_eq_self (ss : List Stmt)
    (h : ∀ s ∈ ss, (Node.stmt s).Throughout Node.Regular) : Stmt.untypedAll ss = ss := by
  cases ss with
  | nil => rfl
  | cons s ss =>
    obtain ⟨hs, hss⟩ := List.forall_mem_cons.mp h
    rw [Stmt.untypedAll, Stmt.untyped_eq_self s hs, Stmt.untypedAll_eq_self ss hss]

end

theorem FunctionDef.untyped_eq_self {f : FunctionDef}
    (h : (Node.function f).Throughout Node.Regular) : f.untyped = f := by
  have hbody := @Node.Throughout.stmts _ _ h "body" f.body (by simp [Node.fields])
  have hargs := @Node.Throughout.node _ _ h "args" (.params f.params) (by simp [Node.fields])
  have hparams : ∀ p ∈ f.params.params, p.untyped = p := by
    intro p hp
    have hnone : p.resolved = none :=
      (hargs.nodes List.mem_cons_self _ (List.mem_map_of_mem hp)).self
    rw [Param.untyped, ← hnone]
  rw [FunctionDef.untyped, Params.untyped, Stmt.untypedAll_eq_self _ hbody, map_eq_self hparams]

/-- A declaration that was read has no types. -/
theorem Declaration.untyped_eq_self {d : Declaration} (h : d.toNode.Throughout Node.Regular) :
    d.untyped = d := by
  cases d with
  | function f => rw [Declaration.untyped, FunctionDef.untyped_eq_self h]
  | var v =>
    have hnone : v.resolved = none := h.self.2
    rw [Declaration.untyped, ← hnone]
  | members d =>
    have hbody := h.stmts (List.mem_cons_of_mem _ List.mem_cons_self)
    rw [Declaration.untyped, Stmt.untypedAll_eq_self d.body hbody]
  | interface i =>
    have hbody : ∀ item ∈ i.body, item.untyped = item := by
      intro item hitem
      have hread := h.nodes (List.mem_cons_of_mem _ List.mem_cons_self) _
        (List.mem_map_of_mem hitem)
      cases item with
      | function f => rw [InterfaceItem.untyped, FunctionDef.untyped_eq_self hread]
      | stmt s => rw [InterfaceItem.untyped, Stmt.untyped_eq_self s hread]
    rw [Declaration.untyped, map_eq_self hbody]
  | stmt s => rw [Declaration.untyped, Stmt.untyped_eq_self s h]
  | _ => rfl

/-- Without the types that annotation writes, a module is the module that was read. -/
theorem Module.untyped_typed {text : List Char} {parsed : Parsed}
    (hparse : Module.parse text = .ok parsed) : (parsed.tree.typed text).untyped = parsed.tree := by
  have hbody : (parsed.tree.body.map (typeDeclaration text)).map Declaration.untyped =
      parsed.tree.body := by
    rw [List.map_map]
    refine map_eq_self fun d hd => ?_
    rw [Function.comp_apply, Declaration.untyped_typeDeclaration]
    exact Declaration.untyped_eq_self ((regular_of_parse hparse).module d hd)
  rw [Module.untyped, Module.typed, hbody]

/-! ### Where types are written -/

namespace Node

/-- The type written on a node. -/
def resolved? : Node → Option String
  | .param p => p.resolved
  | .var v => v.resolved
  | .stmt (.declare _ _ _ _ resolved) => resolved
  | _ => none

theorem field?_type (n : Node) : n.field? "type" = n.resolved?.map .text := by
  cases n with
  | stmt s =>
    cases s with
    | declare span target type value resolved => cases value <;> cases resolved <;> rfl
    | ret span value => cases value <;> rfl
    | assert span test message => cases message <;> rfl
    | raise span error => cases error <;> rfl
    | _ => rfl
  | expr e => cases e <;> rfl
  | module m => cases hdoc : m.doc <;> simp [field?, fields, FieldValue.text?, hdoc, resolved?]
  | function f =>
    obtain ⟨span, decorators, name, params, returns, body, doc⟩ := f
    cases returns <;> cases doc <;> rfl
  | param p =>
    obtain ⟨span, name, type, resolved⟩ := p
    cases resolved <;> rfl
  | var v =>
    obtain ⟨span, target, type, value, modifiers, resolved⟩ := v
    cases value <;> cases resolved <;> rfl
  | importing i =>
    obtain ⟨span, name, asName⟩ := i
    cases asName <;> rfl
  | importFrom i =>
    obtain ⟨span, package, name, level, asName⟩ := i
    cases asName <;> rfl
  | _ => rfl

theorem resolved?_of_regular {n : Node} (h : n.Regular) : n.resolved? = none := by
  cases n with
  | param p => exact h
  | var v => exact h.2
  | stmt s =>
    cases s with
    | declare span target type value resolved => exact h.2
    | _ => rfl
  | _ => rfl

/-- The nodes that take a type. -/
theorem isSome_resolved?_typed (text : List Char) (n : Node) :
    (n.typed text).resolved?.isSome = true ↔ n.kind = .param ∨ n.kind = .var ∨
    n.kind = .declare := by
  cases n with
  | stmt s =>
    cases s with
    | loop span target iter body =>
      cases target <;> simp [typed, typeStmt, resolved?, kind, Stmt.kind]
    | _ => simp [typed, typeStmt, resolved?, kind, Stmt.kind]
  | expr e =>
    cases e with
    | numeral span form digits =>
      cases form <;> simp [typed, resolved?, kind, Expr.kind, Numeral.toKind]
    | _ => simp [typed, resolved?, kind, Expr.kind]
  | members d => cases h : d.kind <;> simp [typed, resolved?, kind, h, MemberKind.toKind]
  | clause c => cases h : c.kind <;> simp [typed, resolved?, kind, h, ClauseKind.toKind]
  | _ => simp [typed, resolved?, kind]

theorem kind_typed (text : List Char) (n : Node) : (n.typed text).kind = n.kind := by
  cases n with
  | stmt s =>
    cases s with
    | loop span target iter body => cases target <;> rfl
    | _ => rfl
  | _ => rfl

theorem typed_of_isOperand (text : List Char) {n : Node} (h : n.IsOperand) : n.typed text = n := by
  cases n with
  | expr e => rfl
  | keyword k => rfl
  | _ => cases h

/-- Whatever stands in a node that takes types takes them too, or is part of an expression. -/
theorem takesTypes_parts {n : Node} {part : String × Node} (h : n.takesTypes = true)
    (hpart : part ∈ n.parts) : part.2.takesTypes = true ∨ part.2.IsOperand := by
  have hmodule : n.kind ≠ .module := by
    intro hkind
    cases n with
    | stmt s => cases s <;> cases hkind
    | function | params | param | var => cases hkind
    | _ => cases h
  have hinner := (isDeclaration_of_mem_parts hpart hmodule).1
  obtain ⟨field, c⟩ := part
  cases c with
  | function | params | param | stmt => exact .inl rfl
  | expr | keyword => exact .inr trivial
  | _ => cases hinner

/-- What stands in a node with types is what stands there without, with its types. -/
theorem at?_typed (text : List Char) {n : Node} (h : n.takesTypes = true ∨ n.IsOperand)
    (path : List Nat) : (n.typed text).at? path = (n.at? path).map (Node.typed text) := by
  induction path generalizing n with
  | nil => rfl
  | cons i path ih =>
    rcases h with htakes | hoperand
    · rw [at?, at?, parts_typed text htakes, List.getElem?_map, Option.map_bind]
      cases hpart : n.parts[i]? with
      | none => rfl
      | some part => exact ih (takesTypes_parts htakes (List.mem_of_getElem? hpart))
    · rw [typed_of_isOperand text hoperand]
      cases hc : n.at? (i :: path) with
      | none => rfl
      | some c =>
        exact congrArg some (typed_of_isOperand text (throughout_isOperand hoperand _ c hc)).symm

end Node

namespace Module

/-- Where annotation writes types: on the variables of a module, and on the parameters and the
declarations in its functions. -/
def TypedAt (m : Module) (path : List Nat) (c : Node) : Prop :=
  ∃ i below top, path = i :: below ∧ (Node.module m).at? [i] = some top ∧
    (top.kind = .var ∧ below = [] ∨ top.kind = .function ∧ (c.kind = .param ∨ c.kind = .declare))

theorem typedAt_cons {m : Module} {i : Nat} {below : List Nat} {c top : Node}
    (htop : (Node.module m).at? [i] = some top) :
    m.TypedAt (i :: below) c ↔
      top.kind = .var ∧ below = [] ∨ top.kind = .function ∧
      (c.kind = .param ∨ c.kind = .declare) := by
  constructor
  · rintro ⟨j, rest, found, heq, hfound, hkind⟩
    cases heq
    cases htop.symm.trans hfound
    exact hkind
  · exact fun hkind => ⟨i, below, top, rfl, htop, hkind⟩

/-- In a function every parameter and every declaration takes a type. -/
theorem type_typed_function_iff (text : List Char) {f : FunctionDef} {below : List Nat} {c : Node}
    (hc : ((Node.function f).typed text).at? below = some c) :
    c.resolved?.isSome = true ↔ c.kind = .param ∨ c.kind = .declare := by
  rw [Node.at?_typed text (.inl rfl)] at hc
  obtain ⟨raw, hraw, rfl⟩ := Option.map_eq_some_iff.mp hc
  have hvar : raw.kind ≠ .var := by
    cases below with
    | nil =>
      cases hraw
      simp [Node.kind]
    | cons i below =>
      have hmodule : (Node.function f).kind ≠ .module := by simp [Node.kind]
      have hkind := (Node.kind_of_isDeclaration (Node.isDeclaration_of_at? hmodule hraw).1).1
      intro h
      exact hkind (by simp [h])
  rw [Node.isSome_resolved?_typed, Node.kind_typed]
  tauto

/-- A variable takes a type, and nothing in it does. -/
theorem type_typed_var_iff (text : List Char) {v : VariableDef} {below : List Nat} {c : Node}
    (hc : ((Node.var v).typed text).at? below = some c) :
    c.resolved?.isSome = true ↔ below = [] := by
  cases below with
  | nil =>
    cases hc
    exact ⟨fun _ => rfl, fun _ => rfl⟩
  | cons i below =>
    obtain ⟨field, part, hpart, hc⟩ := Node.at?_cons_eq_some hc
    have hoperand : part.IsOperand := by
      have hmem := List.mem_of_getElem? hpart
      cases hvalue : v.value <;>
        simp [Node.typed, Node.parts, Node.fields, Node.partsOf, FieldValue.expr?, FieldValue.text?,
          hvalue] at hmem <;>
        grind [Node.IsOperand]
    have hc := Node.throughout_isOperand hoperand _ c hc
    cases c with
    | expr e => simp [Node.resolved?]
    | keyword k => simp [Node.resolved?]
    | _ => cases hc

/-- Annotation writes types there and nowhere else. -/
theorem type_typed_iff {m : Module} (hregular : (Node.module m).Throughout Node.Regular)
    (text : List Char) {path : List Nat} {c : Node}
    (hc : (Node.module (m.typed text)).at? path = some c) :
    (c.field? "type").isSome = true ↔ (m.typed text).TypedAt path c := by
  rw [Node.field?_type, Option.isSome_map]
  cases path with
  | nil =>
    cases hc
    constructor
    · intro h
      cases h
    · rintro ⟨i, below, top, heq, -⟩
      cases heq
  | cons i below =>
    obtain ⟨field, top, htop, hc⟩ := Node.at?_cons_eq_some hc
    have hfound : (Node.module (m.typed text)).at? [i] = some top := Node.at?_cons htop []
    rw [typedAt_cons hfound]
    rw [Node.parts_module, Module.typed, List.map_map, List.getElem?_map] at htop
    obtain ⟨d, hd, heq⟩ := Option.map_eq_some_iff.mp htop
    obtain ⟨-, rfl⟩ := Prod.mk.inj heq
    rcases Declaration.cases_typeDeclaration text d with
      ⟨f, rfl⟩ | ⟨v, rfl⟩ | ⟨hsame, hfunction, hvar⟩
    · rw [type_typed_function_iff text hc]
      simp [typeDeclaration, Declaration.toNode, Node.kind]
    · rw [type_typed_var_iff text hc]
      simp [typeDeclaration, Declaration.toNode, Node.kind]
    · have hpart : (Node.module m).parts[i]? = some ("body", d.toNode) := by
        rw [Node.parts_module, List.getElem?_map, hd]
        rfl
      rw [hsame] at hc ⊢
      have hnone : c.resolved? = none :=
        Node.resolved?_of_regular (hregular (i :: below) c ((Node.at?_cons hpart below).trans hc))
      simp [hnone, hvar, hfunction]

end Module

/-! ### Navigation without the annotated tree -/

@[simp] theorem Site.range_untyped (s : Site) : s.untyped.range = s.range := by
  rw [Site.range, Site.range, Site.span_untyped]

theorem Lookup.ranges_untyped (q : Lookup) (hq : q.asksType = false) (t : Tree) :
    (q.sites t.untyped).map Site.range = (q.sites t).map Site.range := by
  simp [q.sites_untyped hq, Function.comp_def]

theorem map_range_untyped (s : Option Site) :
    (s.map Site.untyped).map Site.range = s.map Site.range := by
  simp [Function.comp_def]

theorem apply_ite_congr {α β : Type} {f : α → β} {p : Prop} [Decidable p] {yes no yes' no' : α}
    (hyes : f yes' = f yes) (hno : f no' = f no) :
    f (if p then yes' else no') = f (if p then yes else no) := by
  split
  · exact hyes
  · exact hno

namespace Analysis

/-- An analysis that has lost its annotated tree. -/
def degraded (a : Analysis) : Analysis := { a with annotated := none }

variable {a : Analysis} {t : Tree} (hannotated : a.annotated = some t)
  (hraw : a.raw = some t.untyped)

include hannotated in
theorem best_of_annotated : a.best = t := by
  simp [best, bestVariant?, TreeVariant.preference, tree?, hannotated]

include hraw in
theorem best_degraded : a.degraded.best = t.untyped := by
  simp [best, bestVariant?, TreeVariant.preference, tree?, degraded, hraw]

include hannotated hraw

theorem events_degraded : a.degraded.events = a.events := by
  rw [events, events, best_degraded hraw, best_of_annotated hannotated, Tree.events_untyped]

theorem userTypes_degraded : a.degraded.userTypes = a.userTypes := by
  rw [userTypes, userTypes, best_degraded hraw, best_of_annotated hannotated,
    Tree.userTypes_untyped]

/-- The tables, and so what a cursor stands on, are those of the whole analysis. -/
theorem referenceSites_degraded (c : CursorContext) (line : Nat) :
    (a.degraded.referenceSites c line).map Site.range =
      (a.referenceSites c line).map Site.range := by
  unfold referenceSites
  dsimp only
  rw [events_degraded hannotated hraw, best_degraded hraw, best_of_annotated hannotated]
  refine apply_ite_congr rfl ?_
  refine apply_ite_congr ((Lookup.usesOfEnum c.word).ranges_untyped rfl t) ?_
  refine apply_ite_congr ((Lookup.usesOfStruct c.word).ranges_untyped rfl t) ?_
  refine apply_ite_congr ((Lookup.callsOf c.word).ranges_untyped rfl t) ?_
  refine apply_ite_congr ((Lookup.usesOfConstant c.word).ranges_untyped rfl t) ?_
  refine apply_ite_congr ((Lookup.accessesOf c.word).ranges_untyped rfl t) ?_
  rw [Tree.topLevelOn?_untyped]
  cases t.topLevelOn? (line + 1) with
  | none => rfl
  | some top =>
    rw [Option.map_some]
    dsimp only
    rw [Site.kind_untyped, Site.node_untyped, Node.name?_untyped]
    split
    · exact (Lookup.usesOfVariant _ c.word).ranges_untyped rfl t
    · exact (Lookup.usesOfSymbol c.word).ranges_untyped rfl (t.scopedTo top)
    · rfl

theorem variantOwner?_degraded (expression : List Char) :
    (a.degraded.variantOwner? expression).map Site.range =
      (a.variantOwner? expression).map Site.range := by
  unfold variantOwner?
  rw [best_degraded hraw, best_of_annotated hannotated]
  cases variantParts expression with
  | none => rfl
  | some parts =>
    change Option.map Site.range (if _ then _ else _) = Option.map Site.range (if _ then _ else _)
    rw [Tree.enumVariants_untyped, Tree.typeDeclaration?_untyped]
    exact apply_ite_congr (map_range_untyped _) rfl

theorem declarationSite?_degraded (c : CursorContext) (line : Nat) :
    (a.degraded.declarationSite? c line).map Site.range =
      (a.declarationSite? c line).map Site.range := by
  unfold declarationSite?
  dsimp only
  rw [userTypes_degraded hannotated hraw, events_degraded hannotated hraw, best_degraded hraw,
    best_of_annotated hannotated, Tree.functionDeclaration?_untyped, Tree.typeDeclaration?_untyped,
    Tree.topLevelOn?_untyped]
  refine apply_ite_congr rfl ?_
  refine apply_ite_congr (apply_ite_congr (map_range_untyped _) rfl) ?_
  refine apply_ite_congr (map_range_untyped _) ?_
  refine apply_ite_congr rfl ?_
  cases t.topLevelOn? (line + 1) with
  | none => rfl
  | some top =>
    rw [Option.map_some]
    dsimp only
    rw [Site.kind_untyped]
    refine apply_ite_congr ?_ rfl
    rw [Tree.scopedTo_untyped, Tree.symbolDeclaration?_untyped, Option.map_or, Option.map_or,
      map_range_untyped, variantOwner?_degraded hannotated hraw]

theorem implementationSite?_degraded (c : CursorContext) :
    (a.degraded.implementationSite? c).map Site.range =
      (a.implementationSite? c).map Site.range := by
  unfold implementationSite?
  rw [best_degraded hraw, best_of_annotated hannotated, Tree.functionDeclaration?_untyped]
  refine apply_ite_congr (apply_ite_congr (map_range_untyped _) rfl) ?_
  exact apply_ite_congr (map_range_untyped _) rfl

/-- Navigation needs the annotated tree for nothing. -/
theorem navigation_degraded (d : Document) (p : Position) :
    a.degraded.declaration? d p = a.declaration? d p ∧
      a.degraded.implementation? d p = a.implementation? d p ∧
      a.degraded.references d p = a.references d p := by
  have hshown : ∀ {found found' : Option Site}, found'.map Site.range = found.map Site.range →
      (do return d.utf16Range (← found').range : Option Range) =
        do return d.utf16Range (← found).range := by
    intro found found' h
    have hranges := congrArg (Option.map d.utf16Range) h
    cases found <;> cases found' <;> first | rfl | exact hranges
  cases hc : CursorContext.at? d p with
  | none => simp [declaration?, implementation?, references, hc]
  | some c =>
    refine ⟨?_, ?_, ?_⟩
    · rw [declaration?, declaration?, hc]
      exact hshown (declarationSite?_degraded hannotated hraw c p.line)
    · rw [implementation?, implementation?, hc]
      exact hshown (implementationSite?_degraded hannotated hraw c)
    · have h := congrArg (List.map d.utf16Range) (referenceSites_degraded hannotated hraw c p.line)
      rw [List.map_map, List.map_map] at h
      rw [references, references, hc]
      exact h

end Analysis

namespace Module

/-- Annotation adds types to the tree that was read, and every question that does not ask for a type
is answered from the same places with them and without them. So navigation gives the same answers
when the annotated tree is missing. -/
theorem annotate_keeps_answers {text : List Char} {parsed : Parsed}
    (hparse : Module.parse text = .ok parsed) {path : Option Path} {importer : Importer}
    {tables : ModuleType} (hannotate : parsed.tree.annotate text path importer = .ok tables) :
    ∃ m, tables.tree = some m ∧ m.untyped = parsed.tree ∧
      (∀ place c, (Node.module parsed.tree).at? place = some c → c.field? "type" = none) ∧
      (∀ place c, (Node.module m).at? place = some c →
        ((c.field? "type").isSome = true ↔ m.TypedAt place c)) ∧
      (∀ q : Lookup, q.asksType = false →
        (q.sites (.ofModule m text)).map (fun s => (s.kind, s.span)) =
          (q.sites (.ofModule parsed.tree text)).map fun s => (s.kind, s.span)) ∧
      ∀ a : Analysis, a.raw = some (.ofModule parsed.tree text) →
        a.annotated = some (.ofModule m text) → ∀ d p,
          a.degraded.declaration? d p = a.declaration? d p ∧
          a.degraded.implementation? d p = a.implementation? d p ∧
          a.degraded.references d p = a.references d p := by
  have hregular := regular_of_parse hparse
  have huntyped := untyped_typed hparse
  have htree : (Tree.ofModule (parsed.tree.typed text) text).untyped =
      .ofModule parsed.tree text := by
    rw [← congrArg (Tree.ofModule · text) huntyped]
    rfl
  refine ⟨parsed.tree.typed text, tree_of_annotate hannotate, huntyped, ?_, ?_, ?_, ?_⟩
  · intro place c hc
    rw [Node.field?_type, Node.resolved?_of_regular (hregular place c hc), Option.map_none]
  · exact fun place c hc => type_typed_iff hregular text hc
  · intro q hq
    rw [← htree, q.sites_untyped hq, List.map_map]
    refine List.map_congr_left fun s _ => ?_
    rw [Function.comp_apply, Site.kind_untyped, Site.span_untyped]
  · intro a hraw hannotated
    rw [← htree] at hraw
    exact Analysis.navigation_degraded hannotated hraw

/-- A struct declares a field, and a function a local in a branch. -/
def nestedLocal : Document :=
  .ofLines ["x: bool", "struct S:", " a: bool", "def f(y: bool):", " if y:", "  z: S = S(a=y)"]

theorem annotate_keeps_answers_nestedLocal :
    ∃ parsed tables m, Module.parse nestedLocal.text = .ok parsed ∧
      parsed.tree.annotate nestedLocal.text none
        (.fromFiles .empty (nestedLocal.searchPaths none)) = .ok tables ∧
      tables.tree = some m ∧
      (∃ field, (Node.module m).at? [1, 0] = some field ∧ field.kind = .declare ∧
        (field.field? "type").isSome = false) ∧
      (∃ place, (Node.module m).at? [2, 1, 1] = some place ∧ place.kind = .declare ∧
        (place.field? "type").isSome = true) ∧
      ∀ symbol, let q := Lookup.within (.functionDeclaration "f") (.symbolDeclaration symbol)
        (q.sites (.ofModule m nestedLocal.text)).map (fun s => (s.kind, s.span)) =
          (q.sites (.ofModule parsed.tree nestedLocal.text)).map fun s => (s.kind, s.span) := by
  have hready : (({} : Analysis).build (.builtIn .empty) nestedLocal none).1.state = .ready :=
    Analysis.ready_of_compiles (show Module.compiles _ _ 7 = true by decide +kernel)
  obtain ⟨parsed, tables, -, hparse, hannotate, -⟩ := Analysis.state_build_eq_ready.mp hready
  have hkinds : (Module.parse nestedLocal.text).toOption.map (fun parsed =>
      [[1], [1, 0], [2], [2, 1, 1]].map fun place =>
        ((Node.module (parsed.tree.typed nestedLocal.text)).at? place).map Node.kind) =
      some [some .struct, some .declare, some .function, some .declare] := by
    decide +kernel
  obtain ⟨m, htree, -, -, htypes, hanswers, -⟩ := annotate_keeps_answers hparse hannotate
  cases htree.symm.trans (tree_of_annotate hannotate)
  rw [hparse] at hkinds
  simp only [Except.toOption, Option.map_some, List.map_cons, List.map_nil, Option.some.injEq,
    List.cons.injEq, and_true, Option.map_eq_some_iff] at hkinds
  obtain ⟨⟨struct, hstruct, hstructKind⟩, ⟨field, hfield, hfieldKind⟩,
    ⟨function, hfunction, hfunctionKind⟩, place, hplace, hplaceKind⟩ := hkinds
  refine ⟨parsed, tables, _, hparse, hannotate, htree, ⟨field, hfield, hfieldKind, ?_⟩,
    ⟨place, hplace, hplaceKind, ?_⟩, fun symbol => hanswers _ rfl⟩
  · rw [Bool.eq_false_iff]
    intro htype
    have hat := (typedAt_cons hstruct).mp ((htypes _ field hfield).mp htype)
    simp [hstructKind] at hat
  · exact (htypes _ place hplace).mpr
      ((typedAt_cons hfunction).mpr (.inr ⟨hfunctionKind, .inr hplaceKind⟩))

end Module

end Vyper
