import Vyper.Proofs.Fallible
import Vyper.Proofs.Throughout
import Vyper.Typing.Import

/-!
# Symbol tables

Annotation goes through the body of a module once. `Annotate.Drafted` is what holds behind each
declaration: the names claimed so far are distinct, and every table lists the declarations of its
kind in their order. `Module.drafted_of_annotate` is the result for a module that annotates, and
`Module.annotate_eq_error` says where the error stands when a name is claimed twice.
-/

namespace Vyper

namespace Declaration

def function? : Declaration → Option FunctionDef
  | .function f => some f
  | _ => none

def var? : Declaration → Option VariableDef
  | .var v => some v
  | _ => none

def members? (kind : MemberKind) : Declaration → Option MemberDef
  | .members d => if d.kind = kind then some d else none
  | _ => none

def interface? : Declaration → Option InterfaceDef
  | .interface i => some i
  | _ => none

/-- The name an import goes by, and the module it asks for. -/
def import? : Declaration → Option (String × ImportRequest)
  | .importing i => some (i.localName, i.request)
  | .importFrom i => some (i.localName, i.request)
  | _ => none

/-- The name a declaration claims, with the place of the declaration. -/
def claimAt? (d : Declaration) : Option (String × Span) := d.claim?.map (·, d.span)

theorem claim?_typeDeclaration (text : List Char) (d : Declaration) :
    (Annotate.typeDeclaration text d).claim? = d.claim? := by
  cases d <;> rfl

end Declaration

/-- The names in all tables. -/
def ModuleType.keys (m : ModuleType) : List String :=
  m.functions.map (·.name) ++ m.vars.map (·.name) ++ m.flags.map (·.name) ++
    m.structs.map (·.name) ++ m.events.map (·.name) ++ m.interfaces.map (·.name) ++
    m.imports.map (·.1)

namespace Annotate

variable {importer : Importer} {text : List Char} {body : List Declaration}
  {tables tables' : ModuleType} {draft draft' : Draft} {d : Declaration} {e : CompileError}

/-- Every table lists the declarations of its kind, all of them and in their order. -/
structure Lists (importer : Importer) (text : List Char) (body : List Declaration)
    (tables : ModuleType) : Prop where
  functions : tables.functions.map .ok = (body.filterMap (·.function?)).map (functionType text)
  vars : tables.vars = (body.filterMap (·.var?)).map (variableType text)
  flags : tables.flags = (body.filterMap (·.members? .flag)).map fun d => ⟨d.name, d.variants⟩
  structs : tables.structs =
    (body.filterMap (·.members? .struct)).map fun d => ⟨d.name, d.fields text⟩
  events : tables.events = (body.filterMap (·.members? .event)).map fun d => ⟨d.name, d.fields text⟩
  interfaces : tables.interfaces = (body.filterMap (·.interface?)).map fun i =>
    ⟨i.name, i.functions⟩
  imports : tables.imports.map (fun i => (i.1, .ok i.2)) =
    (body.filterMap (·.import?)).map fun i => (i.1, importer i.2)

open Declaration in
theorem Lists.record (h : Lists importer text body tables)
    (hd : Annotate.record importer text tables d = .ok tables') :
    Lists importer text (body ++ [d]) tables' := by
  obtain ⟨hfunctions, hvars, hflags, hstructs, hevents, hinterfaces, himports⟩ := h
  cases d with
  | importing i | importFrom i =>
    obtain ⟨imported, hi, hd⟩ := exists_of_bind_eq_ok hd
    cases hd
    constructor <;> simp [function?, var?, members?, interface?, import?, *]
  | function f =>
    obtain ⟨type, hf, hd⟩ := exists_of_bind_eq_ok hd
    cases hd
    constructor <;> simp [function?, var?, members?, interface?, import?, *]
  | members m =>
    obtain ⟨kind, span, name, members⟩ := m
    cases kind <;> cases hd <;> constructor <;>
      simp [function?, var?, members?, interface?, import?, *]
  | interface i | var v | clause c | stmt s =>
    cases hd
    constructor <;> simp [function?, var?, members?, interface?, import?, *]

/-- What holds behind some declarations: their names are claimed, no name twice, and they are
listed. -/
structure Drafted (importer : Importer) (text : List Char) (body : List Declaration)
    (draft : Draft) : Prop where
  claims : draft.claims = body.filterMap (·.claimAt?)
  nodup : (body.filterMap (·.claim?)).Nodup
  lists : Lists importer text body draft.tables

theorem map_fst_claimAt? (body : List Declaration) :
    (body.filterMap (·.claimAt?)).map (·.1) = body.filterMap (·.claim?) := by
  rw [List.map_filterMap]
  congr
  funext d
  unfold Declaration.claimAt?
  cases d.claim? <;> rfl

/-- A claim goes through if no earlier declaration has the name. -/
theorem claim_eq_ok {name : String} {span : Span} (h : draft.claim name span = .ok draft') :
    name ∉ draft.claims.map (·.1) ∧ draft' =
    { draft with claims := draft.claims ++ [(name, span)] } := by
  unfold Draft.claim at h
  split at h
  · cases h
  · next hnone =>
    cases h
    refine ⟨?_, rfl⟩
    rw [List.find?_eq_none] at hnone
    intro hmem
    obtain ⟨claim, hclaim, rfl⟩ := List.mem_map.mp hmem
    exact hnone claim hclaim (beq_self_eq_true _)

theorem claim_eq_error {name : String} {span : Span} (h : draft.claim name span = .error e) :
    ∃ earlier, draft.claims.find? (·.1 == name) = some (name, earlier) ∧
      e = { fault := .redeclared name, span := some span, related := [earlier] } := by
  unfold Draft.claim at h
  split at h
  · next claimed earlier hfind =>
    cases h
    have hname : claimed = name := by simpa using List.find?_some hfind
    exact ⟨earlier, hname ▸ hfind, rfl⟩
  · cases h

/-- A declaration claims its name and is then recorded. -/
theorem declare_eq (importer : Importer) (text : List Char) (draft : Draft) (d : Declaration) :
    declare importer text draft d =
      (match d.claim? with
        | some name => draft.claim name d.span
        | none => .ok draft) >>= fun claimed =>
      record importer text claimed.tables d >>= fun tables => .ok { claimed with tables } := by
  unfold declare
  cases d.claim? <;> rfl

theorem Drafted.declare (h : Drafted importer text body draft)
    (hd : Annotate.declare importer text draft d = .ok draft') :
    Drafted importer text (body ++ [d]) draft' := by
  rw [declare_eq] at hd
  obtain ⟨claimed, hclaimed, hd⟩ := exists_of_bind_eq_ok hd
  obtain ⟨tables, hrecord, hd⟩ := exists_of_bind_eq_ok hd
  cases hd
  cases hname : d.claim? with
  | none =>
    rw [hname] at hclaimed
    cases hclaimed
    constructor
    · simp [Declaration.claimAt?, hname, h.claims]
    · simp [hname, h.nodup]
    · exact h.lists.record hrecord
  | some name =>
    rw [hname] at hclaimed
    obtain ⟨hfresh, rfl⟩ := claim_eq_ok hclaimed
    rw [h.claims, map_fst_claimAt?] at hfresh
    constructor
    · simp [Declaration.claimAt?, hname, h.claims]
    · rw [List.filterMap_append, List.filterMap_cons_some hname, List.nodup_append]
      refine ⟨h.nodup, by simp, ?_⟩
      intro other hother claimed hclaimed heq
      cases List.mem_singleton.mp hclaimed
      exact hfresh (heq ▸ hother)
    · exact h.lists.record hrecord

theorem drafted_start (importer : Importer) (text : List Char) {tables : ModuleType}
    (h : tables.keys = []) : Drafted importer text [] { tables } := by
  simp [ModuleType.keys] at h
  constructor
  · rfl
  · exact List.nodup_nil
  · constructor <;> simp [*]

/-! ### What can go wrong -/

variable {P : Node → Prop}

/-- An error about a node of the tree, other than one about its name. -/
def Faults (P : Node → Prop) (e : CompileError) : Prop :=
  ∃ n fault, P n ∧ e = .located fault n.span ∧ fault.kind ≠ .namespaceCollision

theorem faults_of_functionType {f : FunctionDef} (hf : (Node.function f).Throughout P)
    (h : functionType text f = .error e) : Faults P e := by
  rcases exists_of_bind_eq_error h with hfold | ⟨_, -, h⟩
  · obtain ⟨done, decorator, rest, _, hdecorators, -, hdecorate⟩ := exists_of_foldlM_eq_error hfold
    have hpart : ("decorator_list", Node.expr decorator) ∈ (Node.function f).parts := by
      rw [Node.parts_function, hdecorators]
      simp
    unfold decorate at hdecorate
    split at hdecorate <;> cases hdecorate
    · exact ⟨_, _, (hf.part hpart).self, rfl, nofun⟩
    · exact ⟨_, _, (hf.part hpart).self, rfl, nofun⟩
  · cases h

theorem record_eq_error (hd : d.toNode.Throughout P)
    (h : record importer text tables d = .error e) :
    (∃ request, request.span = d.span ∧ importer request = .error e) ∨ Faults P e := by
  cases d with
  | importing i | importFrom i =>
    rcases exists_of_bind_eq_error h with hrequest | ⟨_, -, h⟩
    · exact .inl ⟨i.request, rfl, hrequest⟩
    · cases h
  | function f =>
    rcases exists_of_bind_eq_error h with htype | ⟨_, -, h⟩
    · exact .inr (faults_of_functionType hd htype)
    · cases h
  | members m =>
    obtain ⟨kind, span, name, body⟩ := m
    cases kind <;> cases h
  | interface i | var v | clause c | stmt s => cases h

/-- A declaration is not taken in because of its name, its imported module or its decorators. -/
theorem declare_eq_error (hd : d.toNode.Throughout P)
    (h : Annotate.declare importer text draft d = .error e) :
    (∃ name earlier, d.claim? = some name ∧
      draft.claims.find? (·.1 == name) = some (name, earlier) ∧
      e = { fault := .redeclared name, span := some d.span, related := [earlier] }) ∨
    (∃ request, request.span = d.span ∧ importer request = .error e) ∨ Faults P e := by
  rw [declare_eq] at h
  rcases exists_of_bind_eq_error h with hclaim | ⟨claimed, -, hrecord⟩
  · cases hname : d.claim? with
    | none =>
      rw [hname] at hclaim
      cases hclaim
    | some name =>
      rw [hname] at hclaim
      obtain ⟨earlier, hfind, he⟩ := claim_eq_error hclaim
      exact .inl ⟨name, earlier, rfl, hfind, he⟩
  · right
    rcases exists_of_bind_eq_error hrecord with hrecord | ⟨_, -, hok⟩
    · exact record_eq_error hd hrecord
    · cases hok

mutual

/-- A type that is not known is the type itself or a part of it. -/
theorem faults_of_checkType (type : Expr) (htype : (Node.expr type).Throughout P)
    (h : checkType tables text type = .error e) : Faults P e := by
  unfold checkType at h
  split at h
  · split at h <;> cases h
    exact ⟨_, _, htype.self, rfl, nofun⟩
  · next span value place params =>
    have hvalue : (Node.expr value).Throughout P := htype.node List.mem_cons_self
    have hslice : (Node.expr (.tuple place params)).Throughout P :=
      htype.node (List.mem_cons_of_mem _ List.mem_cons_self)
    have hparams := hslice.exprs List.mem_cons_self
    split at h
    · exact faults_of_checkFirst _ _ hparams h
    · exact faults_of_checkFirst _ _ hparams h
    · cases h
    · cases h
    · exact faults_of_checkType _ hvalue h
  · next span value param _ =>
    have hvalue : (Node.expr value).Throughout P := htype.node List.mem_cons_self
    have hparam : (Node.expr param).Throughout P :=
      htype.node (List.mem_cons_of_mem _ List.mem_cons_self)
    split at h
    · exact faults_of_checkType _ hparam h
    · exact faults_of_checkType _ hparam h
    · cases h
    · cases h
    · exact faults_of_checkType _ hvalue h
  · split at h <;> cases h
    exact ⟨_, _, htype.self, rfl, nofun⟩
  · exact faults_of_checkFirst _ _ (htype.exprs List.mem_cons_self) h
  · have hargs := htype.exprs (List.mem_cons_of_mem _ List.mem_cons_self)
    split at h
    · exact faults_of_checkType _ (hargs _ List.mem_cons_self) h
    · cases h
  · cases h
termination_by sizeOf type
decreasing_by
  all_goals
    subst_vars
    decreasing_trivial

theorem faults_of_checkFirst (n : Nat) (types : List Expr)
    (htypes : ∀ type ∈ types, (Node.expr type).Throughout P)
    (h : checkFirst tables text n types = .error e) : Faults P e := by
  unfold checkFirst at h
  split at h
  · obtain ⟨hfirst, hrest⟩ := List.forall_mem_cons.mp htypes
    rcases exists_of_bind_eq_error h with h | ⟨_, -, h⟩
    · exact faults_of_checkType _ hfirst h
    · exact faults_of_checkFirst _ _ hrest h
  · cases h
termination_by sizeOf types
decreasing_by
  all_goals
    subst_vars
    decreasing_trivial

end

mutual

theorem throughout_localTypes (s : Stmt) (hs : (Node.stmt s).Throughout P) :
    ∀ type ∈ localTypes s, (Node.expr type).Throughout P := by
  cases s with
  | declare span target type value resolved =>
    rw [localTypes, List.forall_mem_singleton]
    exact hs.node (List.mem_cons_of_mem _ List.mem_cons_self)
  | branch span test body orelse =>
    have hbody := hs.stmts (List.mem_cons_of_mem _ List.mem_cons_self)
    have horelse :=
      hs.stmts (List.mem_cons_of_mem _ (List.mem_cons_of_mem _ List.mem_cons_self))
    rw [localTypes, List.forall_mem_append]
    exact ⟨throughout_localTypesOf body hbody, throughout_localTypesOf orelse horelse⟩
  | loop span target iter body =>
    have htarget : target.toNode.Throughout P := hs.node List.mem_cons_self
    have hbody := hs.stmts (List.mem_cons_of_mem _ (List.mem_cons_of_mem _ List.mem_cons_self))
    have hrest := throughout_localTypesOf body hbody
    cases target with
    | bare target =>
      rw [localTypes]
      · exact hrest
      · nofun
    | typed place target type resolved =>
      rw [localTypes, List.forall_mem_cons]
      exact ⟨htarget.node (List.mem_cons_of_mem _ List.mem_cons_self), hrest⟩
  | _ => rw [localTypes] <;> nofun

theorem throughout_localTypesOf (ss : List Stmt) (hss : ∀ s ∈ ss, (Node.stmt s).Throughout P) :
    ∀ type ∈ localTypesOf ss, (Node.expr type).Throughout P := by
  cases ss with
  | nil =>
    rw [localTypesOf]
    nofun
  | cons s ss =>
    obtain ⟨hs, hss⟩ := List.forall_mem_cons.mp hss
    rw [localTypesOf, List.forall_mem_append]
    exact ⟨throughout_localTypes s hs, throughout_localTypesOf ss hss⟩

end

/-- The types a declaration mentions are nodes of it. -/
theorem throughout_declaredTypes (hd : d.toNode.Throughout P) :
    ∀ type ∈ declaredTypes d, (Node.expr type).Throughout P := by
  cases d with
  | var v =>
    rw [declaredTypes, List.forall_mem_singleton]
    exact hd.node (List.mem_cons_of_mem _ List.mem_cons_self)
  | members m =>
    rw [declaredTypes]
    split
    · nofun
    · exact throughout_localTypesOf m.body (hd.stmts (List.mem_cons_of_mem _ List.mem_cons_self))
  | function f =>
    have hmem : ∀ part ∈ (Node.function f).parts, part.2.Throughout P := fun part hpart =>
      Node.Throughout.part hd hpart
    simp only [Node.parts_function, List.forall_mem_append, List.forall_mem_cons,
      List.forall_mem_map] at hmem
    obtain ⟨-, ⟨hparams, hreturns⟩, hbody⟩ := hmem
    have htypes : ∀ p ∈ f.params.params, (Node.expr p.type).Throughout P := by
      intro p hp
      have hparam : (Node.param p).Throughout P :=
        hparams.nodes List.mem_cons_self _ (List.mem_map_of_mem hp)
      exact hparam.node (List.mem_cons_of_mem _ List.mem_cons_self)
    rw [declaredTypes, List.forall_mem_append, List.forall_mem_append, List.forall_mem_map]
    exact ⟨⟨htypes, hreturns⟩, throughout_localTypesOf f.body hbody⟩
  | _ => nofun

theorem faults_of_checkSelf {f : FunctionDef} (hf : (Node.function f).Throughout P)
    (h : checkSelf tables f = .error e) : Faults P e := by
  obtain ⟨s, hs, herror⟩ := exists_of_forM_eq_error h
  obtain ⟨path, hpath⟩ := Site.exists_path hs
  split at herror
  · split at herror <;> cases herror
    exact ⟨_, _, hf path s.node hpath, rfl, nofun⟩
  · cases herror

/-! ### What the tables say about names -/

theorem name_of_functionType {f : FunctionDef} {type : FunctionType}
    (h : functionType text f = .ok type) : type.name = f.name := by
  obtain ⟨decoration, -, h⟩ := exists_of_bind_eq_ok h
  cases h
  rfl

theorem map_name_of_functionType {types : List FunctionType} {fs : List FunctionDef}
    (h : types.map .ok = fs.map (functionType text)) : types.map (·.name) = fs.map (·.name) := by
  induction fs generalizing types with
  | nil =>
    cases List.map_eq_nil_iff.mp h
    rfl
  | cons f fs ih =>
    cases types with
    | nil => cases h
    | cons type types =>
      obtain ⟨hf, hfs⟩ := List.cons.inj h
      rw [List.map_cons, List.map_cons, name_of_functionType hf.symm, ih hfs]

namespace Lists

variable (h : Lists importer text body tables)
include h

theorem names_functions : tables.functions.map (·.name) =
    (body.filterMap (·.function?)).map (·.name) :=
  map_name_of_functionType h.functions

theorem names_vars : tables.vars.map (·.name) = (body.filterMap (·.var?)).map (·.name) := by
  rw [h.vars, List.map_map]
  rfl

theorem names_flags : tables.flags.map (·.name) =
    (body.filterMap (·.members? .flag)).map (·.name) := by
  rw [h.flags, List.map_map]
  rfl

theorem names_structs :
    tables.structs.map (·.name) = (body.filterMap (·.members? .struct)).map (·.name) := by
  rw [h.structs, List.map_map]
  rfl

theorem names_events :
    tables.events.map (·.name) = (body.filterMap (·.members? .event)).map (·.name) := by
  rw [h.events, List.map_map]
  rfl

theorem names_interfaces :
    tables.interfaces.map (·.name) = (body.filterMap (·.interface?)).map (·.name) := by
  rw [h.interfaces, List.map_map]
  rfl

theorem names_imports : tables.imports.map (·.1) = (body.filterMap (·.import?)).map (·.1) := by
  have hfst := congrArg (List.map Prod.fst) h.imports
  simpa [Function.comp_def] using hfst

open Declaration in
/-- The names in the tables are the names that are claimed. -/
theorem perm_keys : tables.keys.Perm (body.filterMap (·.claim?)) := by
  rw [ModuleType.keys, h.names_functions, h.names_vars, h.names_flags, h.names_structs,
    h.names_events, h.names_interfaces, h.names_imports, List.perm_iff_count]
  clear h
  intro name
  induction body with
  | nil => rfl
  | cons d ds ih =>
    simp only [List.count_append, function?, var?, members?, interface?, import?, claim?] at ih ⊢
    cases d with
    | members m =>
      obtain ⟨kind, span, id, members⟩ := m
      cases kind <;> simp [List.count_cons] <;> omega
    | clause c | stmt s => simpa using ih
    | _ => simp [List.count_cons]; omega

end Lists

theorem Lists.with_tree (h : Lists importer text body tables) (tree : Option Module) :
    Lists importer text body { tables with tree } :=
  ⟨h.functions, h.vars, h.flags, h.structs, h.events, h.interfaces, h.imports⟩

/-- The claim that is found for a name is that of the first declaration that claims it. -/
theorem exists_of_find?_claimAt? {name : String} {earlier : Span}
    (h : (body.filterMap (·.claimAt?)).find? (·.1 == name) = some (name, earlier)) :
    ∃ before first between, body = before ++ first :: between ∧ first.claim? = some name ∧
      first.span = earlier ∧ ∀ d ∈ before, d.claim? ≠ some name := by
  induction body with
  | nil => cases h
  | cons d ds ih =>
    by_cases hd : d.claim? = some name
    · have hclaim : d.claimAt? = some (name, d.span) := by rw [Declaration.claimAt?, hd]; rfl
      rw [List.filterMap_cons_some hclaim, List.find?_cons_of_pos (by simp)] at h
      cases h
      exact ⟨[], d, ds, rfl, hd, rfl, nofun⟩
    · have hskip : (ds.filterMap (·.claimAt?)).find? (·.1 == name) = some (name, earlier) := by
        cases hclaim : d.claim? with
        | none => simpa [Declaration.claimAt?, hclaim] using h
        | some other =>
          have hne : other ≠ name := by
            rintro rfl
            exact hd hclaim
          simpa [Declaration.claimAt?, hclaim, hne] using h
      obtain ⟨before, first, between, rfl, hfirst, hspan, hbefore⟩ := ih hskip
      refine ⟨d :: before, first, between, rfl, hfirst, hspan, ?_⟩
      exact List.forall_mem_cons.mpr ⟨hd, hbefore⟩

end Annotate

/-- An import fails because of its file: the file is not there, is not text, or has an error in it.
-/
theorem Importer.fromFiles_eq_error {files : FileSystem} {search : List Path}
    {request : ImportRequest} {e : CompileError}
    (h : Importer.fromFiles files search request = .error e) :
    ∃ fault, e = .located fault request.span ∧
      ((∃ inner, fault = .imported request.dotted inner) ∨ fault.kind = .moduleNotFound) := by
  have hrelocated : ∀ {α : Type} {x : Except CompileError α}, x.mapError request.relocate =
      .error e → ∃ inner, e = .located (.imported request.dotted inner) request.span := by
    intro α x hx
    cases x with
    | ok a => cases hx
    | error e' =>
      cases hx
      exact ⟨e'.fault, rfl⟩
  unfold fromFiles at h
  split at h
  · cases h
  split at h
  · unfold ImportRequest.load at h
    split at h
    · cases h
      exact ⟨_, rfl, .inr rfl⟩
    · rcases exists_of_bind_eq_error h with hparse | ⟨parsed, -, hannotate⟩
      · obtain ⟨inner, he⟩ := hrelocated hparse
        exact ⟨_, he, .inl ⟨inner, rfl⟩⟩
      · obtain ⟨inner, he⟩ := hrelocated hannotate
        exact ⟨_, he, .inl ⟨inner, rfl⟩⟩
  · cases h
    exact ⟨_, rfl, .inr rfl⟩

namespace Module

open Annotate

variable {m : Module} {text : List Char} {path : Option Path} {importer : Importer}
  {tables : ModuleType} {e : CompileError}

/-- A module that annotates: its declarations are drafted, and what its functions take from `self`
is there. -/
theorem drafted_of_annotate (h : m.annotate text path importer = .ok tables) :
    Lists importer text m.body tables ∧ (m.body.filterMap (·.claim?)).Nodup ∧
      ∀ f ∈ m.functions, checkSelf tables f = .ok () := by
  obtain ⟨draft, hdraft, h⟩ := exists_of_bind_eq_ok h
  obtain ⟨_, -, h⟩ := exists_of_bind_eq_ok h
  obtain ⟨_, hself, h⟩ := exists_of_bind_eq_ok h
  cases h
  have hdrafted : Drafted importer text m.body draft :=
    foldlM_induction (fun _ _ _ _ hb hd => Drafted.declare hb hd) (drafted_start importer text rfl)
      hdraft
  exact ⟨hdrafted.lists.with_tree _, hdrafted.nodup, forall_of_forM_eq_ok hself⟩

/-- Annotation fails because a name is claimed twice, because of an import, or because of a node of
the tree. The first error stands at the later declaration and points to the first. -/
theorem annotate_eq_error {P : Node → Prop} (hm : (Node.module m).Throughout P)
    (h : m.annotate text path importer = .error e) :
    (∃ before first between again rest name,
      m.body = before ++ first :: between ++ again :: rest ∧ first.claim? = some name ∧
      again.claim? = some name ∧ (∀ d ∈ before, d.claim? ≠ some name) ∧
      e = { fault := .redeclared name, span := some again.span, related := [first.span] }) ∨
    (∃ d ∈ m.body, ∃ request, request.span = d.span ∧ importer request = .error e) ∨
      Faults P e := by
  have hbody := hm.module
  rcases exists_of_bind_eq_error h with hdraft | ⟨draft, -, h⟩
  · obtain ⟨done, again, rest, draft, hsplit, hdone, hagain⟩ := exists_of_foldlM_eq_error hdraft
    have hdrafted : Drafted importer text done draft :=
      foldlM_induction (fun _ _ _ _ hb hd => Drafted.declare hb hd)
        (drafted_start importer text rfl) hdone
    have hmem : again ∈ m.body := by rw [hsplit]; simp
    rcases declare_eq_error (hbody again hmem) hagain with ⟨name, earlier, hname, hfind,
      he⟩ | himport | hother
    · left
      rw [hdrafted.claims] at hfind
      obtain ⟨before, first, between, rfl, hfirst, rfl, hbefore⟩ := exists_of_find?_claimAt? hfind
      exact ⟨before, first, between, again, rest, name, hsplit, hfirst, hname, hbefore, he⟩
    · exact .inr (.inl ⟨again, hmem, himport⟩)
    · exact .inr (.inr hother)
  · right; right
    rcases exists_of_bind_eq_error h with htypes | ⟨_, -, h⟩
    · obtain ⟨d, hd, htypes⟩ := exists_of_forM_eq_error htypes
      obtain ⟨type, htype, hcheck⟩ := exists_of_forM_eq_error htypes
      exact faults_of_checkType type (throughout_declaredTypes (hbody d hd) type htype) hcheck
    · rcases exists_of_bind_eq_error h with hself | ⟨_, -, h⟩
      · obtain ⟨f, hf, hcheck⟩ := exists_of_forM_eq_error hself
        obtain ⟨d, hd, hdf⟩ := List.mem_filterMap.mp hf
        cases d with
        | function g =>
          cases hdf
          exact faults_of_checkSelf (hbody _ hd) hcheck
        | _ => cases hdf
      · cases h

end Module

end Vyper
