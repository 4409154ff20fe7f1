import Vyper.Proofs.BuildHistory
import Vyper.Proofs.ModuleBody

/-!
# Declared names

What a tree says about the names a module declares is what its tables say (`Module.IsTreeOf.names`),
whichever of the trees of a text is asked. `Module.annotate_symbol_tables` puts it together with the
tables of a module that annotates and the errors of one that claims a name twice.
-/

namespace Vyper

/-- Names of variables, constants, events, and structs and flags in turn, agree with the tables of a
module. -/
structure ModuleType.Names (tables : ModuleType)
    (stateVariables constants events userTypes : List String) : Prop where
  stateVariables : stateVariables = tables.vars.map (·.name)
  constants : constants = (tables.vars.filter (·.modifiers.isConstant)).map (·.name)
  events : events = tables.events.map (·.name)
  structs : userTypes.filter (fun name => (tables.struct? name).isSome) =
    tables.structs.map (·.name)
  flags : userTypes.filter (fun name => (tables.flag? name).isSome) = tables.flags.map (·.name)
  userTypes : ∀ name ∈ userTypes, (tables.struct? name).isSome ∨ (tables.flag? name).isSome

/-! ### Names in a tree -/

namespace Declaration

def variableName? (d : Declaration) : Option String := d.var?.map (·.name)

def constantName? : Declaration → Option String
  | .var v => if v.modifiers.isConstant then some v.name else none
  | _ => none

def eventName? (d : Declaration) : Option String := (d.members? .event).map (·.name)

/-- The name of a struct or a flag. -/
def userType? : Declaration → Option String
  | .members d => if d.kind = .event then none else some d.name
  | _ => none

end Declaration

namespace Module.IsTreeOf

open Declaration

variable {m : Module} {text : List Char} (h : m.IsTreeOf text)
include h

/-- Names of declarations other than functions are found in the body. -/
theorem filterMap_sites {p : Node → Bool} {f : Node → Option String}
    (hp : ∀ n : Node, n.isDeclaration = false → p n = false) :
    ((Tree.ofModule m text).sites.filter (p ·.node)).filterMap (f ·.node) =
      m.body.filterMap fun d => if p d.toNode then f d.toNode else none := by
  rw [Tree.filter_sites h, List.filterMap_filter, List.filterMap_map]
  · rfl
  · intro c s hc hs
    exact hp s.node (Site.isDeclaration_of_mem_descendants hc hs)

theorem target_id {v : VariableDef} (hv : .var v ∈ m.body) : v.target.id? = some v.name := by
  obtain ⟨span, id, htarget⟩ := h.namedTarget _ hv
  rw [VariableDef.name, htarget]
  rfl

theorem stateVariables :
    (Tree.ofModule m text).stateVariables = m.body.filterMap variableName? := by
  have hvar : ∀ n : Node, n.isDeclaration = false → (n.kind == .var && true) = false := by
    intro n hn
    have hkind := (Node.kind_of_isDeclaration hn).1
    simp_all
  refine (h.filterMap_sites hvar).trans ?_
  refine List.filterMap_congr fun d hd => ?_
  cases d with
  | var v => exact h.target_id hd
  | stmt s => cases s <;> rfl
  | _ => exact ite_self none

theorem constants : (Tree.ofModule m text).constants = m.body.filterMap constantName? := by
  rw [Tree.constants, Tree.body_ofModule, List.filterMap_map]
  refine List.filterMap_congr fun d hd => ?_
  cases d with
  | var v =>
    change (if v.modifiers.isConstant then v.target.id? else none) = _
    rw [h.target_id hd]
    rfl
  | _ => rfl

theorem events : (Tree.ofModule m text).events = m.body.filterMap eventName? := by
  have hevent : ∀ n : Node, n.isDeclaration = false → (n.kind == .event && true) = false := by
    intro n hn
    have hkind := (Node.kind_of_isDeclaration hn).1
    simp_all
  refine (h.filterMap_sites hevent).trans ?_
  refine List.filterMap_congr fun d _ => ?_
  cases d with
  | members d =>
    obtain ⟨kind, span, name, body⟩ := d
    cases kind <;> rfl
  | _ => exact ite_self none

theorem userTypes : (Tree.ofModule m text).userTypes = m.body.filterMap userType? := by
  have htype : ∀ n : Node, n.isDeclaration = false →
      (n.kind == .struct || n.kind == .flag) = false := by
    intro n hn
    have hkind := (Node.kind_of_isDeclaration hn).1
    simp_all
  refine (h.filterMap_sites htype).trans ?_
  refine List.filterMap_congr fun d _ => ?_
  cases d with
  | members d =>
    obtain ⟨kind, span, name, body⟩ := d
    cases kind <;> rfl
  | _ => exact ite_self none

/-- Types that are written in change nothing that is read off a declaration without them. -/
theorem filterMap_body {parsed : Parsed} (hparse : Module.parse text = .ok parsed)
    {f : Declaration → Option String} (hf : ∀ d, f (Annotate.typeDeclaration text d) = f d) :
    m.body.filterMap f = parsed.tree.body.filterMap f := by
  obtain ⟨parsed', hparse', hbody⟩ := h.body_eq
  cases hparse.symm.trans hparse'
  rcases hbody with hbody | hbody
  · rw [hbody]
  · rw [hbody, List.filterMap_map]
    exact List.filterMap_congr fun d _ => hf d

end Module.IsTreeOf

/-! ### Names in the tables -/

namespace Annotate.Lists

open Declaration

variable {importer : Importer} {text : List Char} {body : List Declaration} {tables : ModuleType}
  (h : Lists importer text body tables)
include h

theorem variableNames : body.filterMap variableName? = tables.vars.map (·.name) := by
  rw [h.names_vars, List.map_filterMap]
  rfl

theorem constantNames : body.filterMap constantName? =
    (tables.vars.filter (·.modifiers.isConstant)).map (·.name) := by
  rw [h.vars, List.filter_map, List.filter_filterMap, List.map_map, List.map_filterMap]
  refine List.filterMap_congr fun d _ => ?_
  cases d with
  | var v =>
    cases hconstant : v.modifiers.isConstant <;>
      simp [constantName?, var?, Option.filter, variableType, hconstant]
  | _ => rfl

theorem eventNames : body.filterMap eventName? = tables.events.map (·.name) := by
  rw [h.names_events, List.map_filterMap]
  rfl

omit h in
/-- Of the structs and flags of a body, a test that tells them apart leaves one kind. -/
theorem filter_userTypes {kind : MemberKind} (hkind : kind ≠ .event) {q : String → Bool}
    (hq : ∀ d, .members d ∈ body → d.kind ≠ .event → (q d.name = true ↔ d.kind = kind)) :
    (body.filterMap userType?).filter q = (body.filterMap (·.members? kind)).map (·.name) := by
  rw [List.filter_filterMap, List.map_filterMap]
  refine List.filterMap_congr fun d hd => ?_
  cases d with
  | members d =>
    by_cases hevent : d.kind = .event
    · simp [userType?, members?, hevent, hkind.symm]
    · by_cases hsame : d.kind = kind
      · have hd := (hq d hd hevent).mpr hsame
        simp [userType?, members?, hsame, hkind, Option.filter, hd]
      · have hd := mt (hq d hd hevent).mp hsame
        simp [userType?, members?, hevent, hsame, Option.filter, hd]
  | _ => rfl

theorem mem_structs {d : MemberDef} (hd : .members d ∈ body) (hkind : d.kind = .struct) :
    d.name ∈ tables.structs.map (·.name) := by
  rw [h.names_structs]
  refine List.mem_map_of_mem (List.mem_filterMap.mpr ⟨_, hd, ?_⟩)
  simp [members?, hkind]

theorem mem_flags {d : MemberDef} (hd : .members d ∈ body) (hkind : d.kind = .flag) :
    d.name ∈ tables.flags.map (·.name) := by
  rw [h.names_flags]
  refine List.mem_map_of_mem (List.mem_filterMap.mpr ⟨_, hd, ?_⟩)
  simp [members?, hkind]

end Annotate.Lists

namespace ModuleType

variable {tables : ModuleType}

theorem isSome_struct? {name : String} :
    (tables.struct? name).isSome = true ↔ name ∈ tables.structs.map (·.name) := by
  rw [struct?, List.find?_isSome, List.mem_map]
  simp

theorem isSome_flag? {name : String} :
    (tables.flag? name).isSome = true ↔ name ∈ tables.flags.map (·.name) := by
  rw [flag?, List.find?_isSome, List.mem_map]
  simp

/-- No name is in the table of flags and in the table of structs. -/
theorem not_mem_structs (h : tables.keys.Nodup) {name : String}
    (hflag : name ∈ tables.flags.map (·.name)) : name ∉ tables.structs.map (·.name) := by
  have hfront : (tables.flags.map (·.name) ++ tables.structs.map (·.name)).Nodup := by
    refine h.sublist ?_
    unfold keys
    simp only [List.append_assoc]
    refine (List.Sublist.trans ?_ (List.sublist_append_right ..)).trans
      (List.sublist_append_right ..)
    exact (List.Sublist.refl _).append (List.sublist_append_left ..)
  rw [List.nodup_append] at hfront
  intro hstruct
  exact hfront.2.2 name hflag name hstruct rfl

end ModuleType

namespace Module

open Annotate Declaration

variable {m : Module} {text : List Char} {parsed : Parsed} {importer : Importer}
  {tables : ModuleType}

theorem keys_nodup (hlists : Lists importer text m.body tables)
    (hclaims : (m.body.filterMap (·.claim?)).Nodup) : tables.keys.Nodup :=
  hlists.perm_keys.nodup_iff.mpr hclaims

/-- Every tree of a text has the names that are in the tables. -/
theorem IsTreeOf.names (h : m.IsTreeOf text) (hparse : Module.parse text = .ok parsed)
    (hlists : Lists importer text parsed.tree.body tables) (hkeys : tables.keys.Nodup) :
    let t := Tree.ofModule m text
    tables.Names t.stateVariables t.constants t.events t.userTypes := by
  have huserTypes := h.userTypes.trans (h.filterMap_body hparse fun d => by cases d <;> rfl)
  -- A flag is no struct and a struct no flag, for their names differ.
  have hstruct : ∀ d, .members d ∈ parsed.tree.body → d.kind ≠ .event →
      ((tables.struct? d.name).isSome = true ↔ d.kind = .struct) := by
    intro d hd hevent
    rw [ModuleType.isSome_struct?]
    refine ⟨fun hname => ?_, hlists.mem_structs hd⟩
    cases hkind : d.kind with
    | struct => rfl
    | event => exact absurd hkind hevent
    | flag => exact absurd hname (ModuleType.not_mem_structs hkeys (hlists.mem_flags hd hkind))
  have hflag : ∀ d, .members d ∈ parsed.tree.body → d.kind ≠ .event →
      ((tables.flag? d.name).isSome = true ↔ d.kind = .flag) := by
    intro d hd hevent
    rw [ModuleType.isSome_flag?]
    refine ⟨fun hname => ?_, hlists.mem_flags hd⟩
    cases hkind : d.kind with
    | flag => rfl
    | event => exact absurd hkind hevent
    | struct => exact absurd (hlists.mem_structs hd hkind) (ModuleType.not_mem_structs hkeys hname)
  constructor
  case stateVariables =>
    rw [h.stateVariables, h.filterMap_body hparse fun d => by cases d <;> rfl,
      hlists.variableNames]
  case constants =>
    rw [h.constants, h.filterMap_body hparse fun d => by cases d <;> rfl, hlists.constantNames]
  case events =>
    rw [h.events, h.filterMap_body hparse fun d => by cases d <;> rfl, hlists.eventNames]
  case structs =>
    rw [huserTypes, Lists.filter_userTypes (by decide) hstruct, hlists.names_structs]
  case flags =>
    rw [huserTypes, Lists.filter_userTypes (by decide) hflag, hlists.names_flags]
  case userTypes =>
    rw [huserTypes]
    intro name hname
    obtain ⟨d, hd, hname⟩ := List.mem_filterMap.mp hname
    cases d with
    | members d =>
      cases hkind : d.kind with
      | event => simp [userType?, hkind] at hname
      | struct =>
        have hsome := (hstruct d hd (by simp [hkind])).mpr hkind
        simp [userType?, hkind] at hname
        exact .inl (hname ▸ hsome)
      | flag =>
        have hsome := (hflag d hd (by simp [hkind])).mpr hkind
        simp [userType?, hkind] at hname
        exact .inr (hname ▸ hsome)
    | _ => cases hname

/-- A module that annotates has tables without collisions that list all of its declarations, and its
trees have the names in the tables, also when an editor asks for them. A module that claims a name
twice does not annotate, and the error about it stands at the later declaration and points to the
first, unless it comes from an imported file. -/
theorem annotate_symbol_tables (hparse : Module.parse text = .ok parsed) (files : FileSystem) :
    (∀ search path tables, parsed.tree.annotate text path (.fromFiles files search) = .ok tables →
      tables.keys.Nodup ∧ Lists (.fromFiles files search) text parsed.tree.body tables ∧
      ∀ m, m = parsed.tree ∨ tables.tree = some m →
        let t := Tree.ofModule m text
        tables.Names t.stateVariables t.constants t.events t.userTypes) ∧
    (∀ (a : Analysis) (d : Document) workingDirectory tables, d.text = text →
      parsed.tree.annotate text none (.fromFiles files (d.searchPaths workingDirectory)) =
        .ok tables →
      let built := (a.build (.builtIn files) d workingDirectory).1
      built.tables = tables ∧
        tables.Names built.stateVariables built.constants built.events built.userTypes) ∧
    (∀ search path (i j : Nat) name, i < j → parsed.tree.body[i]?.bind (·.claim?) = some name →
      parsed.tree.body[j]?.bind (·.claim?) = some name →
      ∃ e, parsed.tree.annotate text path (.fromFiles files search) = .error e) ∧
    ∀ search path e, parsed.tree.annotate text path (.fromFiles files search) = .error e →
      e.kind = .namespaceCollision →
      (∃ dotted fault, e.fault = .imported dotted fault) ∨
      ∃ before first between again rest name,
        parsed.tree.body = before ++ first :: between ++ again :: rest ∧
        first.claim? = some name ∧ again.claim? = some name ∧
        (∀ d ∈ before, d.claim? ≠ some name) ∧
        e = { fault := .redeclared name, span := some again.span, related := [first.span] } := by
  have hraw : parsed.tree.IsTreeOf text := ⟨parsed, hparse, .inl rfl⟩
  refine ⟨?_, ?_, ?_, ?_⟩
  · intro search path tables hannotate
    obtain ⟨hlists, hclaims, -⟩ := drafted_of_annotate hannotate
    have hkeys := keys_nodup hlists hclaims
    refine ⟨hkeys, hlists, ?_⟩
    intro m hm
    have hm : m.IsTreeOf text :=
      ⟨parsed, hparse, hm.imp_right fun htree => ⟨path, _, tables, hannotate, htree⟩⟩
    exact hm.names hparse hlists hkeys
  · intro a d workingDirectory tables htext hannotate
    subst htext
    obtain ⟨hlists, hclaims, -⟩ := drafted_of_annotate hannotate
    have hkeys := keys_nodup hlists hclaims
    have htyped : Module.IsTreeOf _ d.text :=
      ⟨parsed, hparse, .inr ⟨none, _, tables, hannotate, tree_of_annotate hannotate⟩⟩
    have hraw := hraw.names hparse hlists hkeys
    have htyped := htyped.names hparse hlists hkeys
    obtain ⟨hunfolded, hbest, htables⟩ := Analysis.build_of_annotate hparse hannotate a
    refine ⟨htables, ?_⟩
    unfold Analysis.stateVariables Analysis.constants Analysis.events Analysis.userTypes
    rw [hunfolded, hbest]
    exact ⟨hraw.stateVariables, hraw.constants, htyped.events, htyped.structs, htyped.flags,
      htyped.userTypes⟩
  · intro search path i j name hij hi hj
    cases hannotate : parsed.tree.annotate text path (.fromFiles files search) with
    | error e => exact ⟨e, rfl⟩
    | ok tables =>
      obtain ⟨-, hclaims, -⟩ := drafted_of_annotate hannotate
      obtain ⟨first, hfirst, hname⟩ := Option.bind_eq_some_iff.mp hi
      obtain ⟨again, hagain, hname'⟩ := Option.bind_eq_some_iff.mp hj
      obtain ⟨hi, rfl⟩ := List.getElem?_eq_some_iff.mp hfirst
      obtain ⟨hj, rfl⟩ := List.getElem?_eq_some_iff.mp hagain
      have hpairs := List.pairwise_filterMap.mp hclaims
      have hne := List.pairwise_iff_getElem.mp hpairs i j hi hj hij name hname name hname'
      exact absurd rfl hne
  · intro search path e hannotate hkind
    rcases annotate_eq_error (P := fun _ => True) (fun _ _ _ => trivial) hannotate with hclaims |
      ⟨d, -, request, -, himport⟩ | ⟨n, fault, -, rfl, hother⟩
    · exact .inr hclaims
    · obtain ⟨fault, rfl, ⟨inner, rfl⟩ | hother⟩ := Importer.fromFiles_eq_error himport
      · exact .inl ⟨_, inner, rfl⟩
      · exact absurd hkind (by rw [CompileError.kind, CompileError.located, hother]; nofun)
    · exact absurd hkind hother

/-- Two structs with a flag between them, a constant and a variable. -/
def contract : List Char :=
  "struct S:\n x: bool\nflag F:\n A\nstruct T:\n x: S\nC: constant(F) = F.A\nv: public(T)\n".toList

/-- A function takes the name of a variable. -/
def colliding : List Char := "a: bool\n@view\ndef a(): pass\n".toList

theorem annotate_symbol_tables_contract :
    (∃ parsed tables, Module.parse contract = .ok parsed ∧
      parsed.tree.annotate contract none (.fromFiles .empty []) = .ok tables ∧
      tables.keys = ["C", "v", "F", "S", "T"] ∧ tables.keys.Nodup ∧
      let t := Tree.ofModule parsed.tree contract
      tables.Names t.stateVariables t.constants t.events t.userTypes) ∧
    ∃ parsed e, Module.parse colliding = .ok parsed ∧
      parsed.tree.annotate colliding none (.fromFiles .empty []) = .error e ∧
      e.fault = .redeclared "a" ∧
      ∃ before first between again rest name,
        parsed.tree.body = before ++ first :: between ++ again :: rest ∧
        first.claim? = some name ∧ again.claim? = some name ∧
        e = { fault := .redeclared name, span := some again.span, related := [first.span] } := by
  have hcontract : ((Module.parse contract).toOption.bind fun parsed =>
      (parsed.tree.annotate contract none (.fromFiles .empty [])).toOption.map (·.keys)) =
        some ["C", "v", "F", "S", "T"] := by decide +kernel
  have hcolliding : ((Module.parse colliding).toOption.bind fun parsed =>
      (failure? (parsed.tree.annotate colliding none (.fromFiles .empty []))).map (·.fault)) =
        some (.redeclared "a") := by decide +kernel
  constructor
  · obtain ⟨parsed, hparse, hcontract⟩ := Option.bind_eq_some_iff.mp hcontract
    obtain ⟨tables, htables, hkeys⟩ := Option.map_eq_some_iff.mp hcontract
    have hparse := eq_ok_of_toOption hparse
    have hannotate := eq_ok_of_toOption htables
    obtain ⟨hnodup, -, hnames⟩ := (annotate_symbol_tables hparse .empty).1 [] none tables hannotate
    exact ⟨parsed, tables, hparse, hannotate, hkeys, hnodup, hnames parsed.tree (.inl rfl)⟩
  · obtain ⟨parsed, hparse, hcolliding⟩ := Option.bind_eq_some_iff.mp hcolliding
    obtain ⟨e, he, hfault⟩ := Option.map_eq_some_iff.mp hcolliding
    have hparse := eq_ok_of_toOption hparse
    have hannotate := eq_error_of_failure? he
    have hkind : e.kind = .namespaceCollision := by rw [CompileError.kind, hfault]; rfl
    have hcollision := (annotate_symbol_tables hparse .empty).2.2.2 [] none e hannotate hkind
    rcases hcollision with ⟨dotted, fault, himported⟩ | hclaims
    · rw [hfault] at himported
      cases himported
    · obtain ⟨before, first, between, again, rest, name, hbody, hfirst, hagain, -, heq⟩ := hclaims
      exact ⟨parsed, e, hparse, hannotate, hfault, before, first, between, again, rest, name, hbody,
        hfirst, hagain, heq⟩

end Module

end Vyper
