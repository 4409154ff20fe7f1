import Vyper.Proofs.BareNames
import Vyper.Proofs.DeclaredNames
import Vyper.Proofs.LineModels

/-!
# Members of `self`

Going to the declaration of a member of `self` takes the text of a line for granted: the word under
the cursor, and `self.` before it. For a document that is ready this is right everywhere on a member
that is written `self.x`, and the one function or variable of the module of that name is what is
found (`Analysis.declaration?_self_member`).
-/

namespace Vyper

open Annotate LineCursor

/-! ### Sites -/

namespace Site

/-- What is below a node is the same wherever the node stands. -/
theorem exists_mem_descendants_of_node {r r' s : Site} (hnode : r'.node = r.node)
    (hs : s ∈ r.descendants) :
    ∃ s' ∈ r'.descendants, s'.node = s.node ∧ s'.field = s.field ∧ s'.parent? = s.parent? := by
  rw [descendants_eq, List.mem_flatMap] at hs
  obtain ⟨c, hc, hs⟩ := hs
  have hlt := sizeOf_node_lt_of_mem_children hc
  obtain ⟨part, hpart, hcpart⟩ := mem_children.mp hc
  let c' : Site := { node := part.2, field := part.1, above := r'.node :: r'.above }
  have hc' : c' ∈ r'.children := mem_children.mpr ⟨part, hnode ▸ hpart, rfl⟩
  have hnode' : c'.node = c.node := by rw [hcpart]
  rw [descendants_eq r']
  rcases List.mem_cons.mp hs with rfl | hs
  · refine ⟨c', List.mem_flatMap.mpr ⟨c', hc', List.mem_cons_self⟩, hnode', ?_, ?_⟩
    · rw [hcpart]
    · rw [hcpart]
      exact congrArg some hnode
  · obtain ⟨s', hs', hsame⟩ := exists_mem_descendants_of_node hnode' hs
    exact ⟨s', List.mem_flatMap.mpr ⟨c', hc', List.mem_cons_of_mem c' hs'⟩, hsame⟩
termination_by sizeOf r.node

/-- A function of a name, outside any interface. -/
def declaresFunction (name : String) (s : Site) : Bool :=
  s.kind == .function && s.node.name? == some name && !s.parent?.any (·.kind == .interface)

/-- A variable of the module of a name. -/
def declaresVariable (name : String) (s : Site) : Bool :=
  s.kind == .var && s.node.boundName? == some name

/-- What declares a member of `self`. -/
def declaresMember (name : String) (s : Site) : Bool :=
  s.declaresFunction name || s.declaresVariable name

theorem declaresFunction_below {name : String} {c s : Site} (hc : c.kind ≠ .module)
    (hs : s ∈ c.descendants) : s.declaresFunction name = false := by
  by_cases hkind : s.kind = .function
  · simp [declaresFunction, parent_of_function hc hs hkind]
  · simp [declaresFunction, hkind]

theorem kind_ne_var_below {c s : Site} (hc : c.kind ≠ .module) (hs : s ∈ c.descendants) :
    s.kind ≠ .var := by
  intro hkind
  have hkinds := (Node.kind_of_isDeclaration (isDeclaration_of_mem_descendants hc hs)).1
  exact hkinds (by simp [show s.node.kind = .var from hkind])

theorem declaresVariable_below {name : String} {c s : Site} (hc : c.kind ≠ .module)
    (hs : s ∈ c.descendants) : s.declaresVariable name = false := by
  simp [declaresVariable, kind_ne_var_below hc hs]

theorem declaresMember_below {name : String} {c s : Site} (hc : c.kind ≠ .module)
    (hs : s ∈ c.descendants) : s.declaresMember name = false := by
  rw [declaresMember, declaresFunction_below hc hs, declaresVariable_below hc hs]
  rfl

end Site

/-! ### Declarations of a module -/

namespace Declaration

variable {d : Declaration}

/-- Types are written into functions and variables; all other declarations stay. -/
theorem cases_typeDeclaration (text : List Char) (d : Declaration) :
    (∃ f, d = .function f) ∨ (∃ v, d = .var v) ∨
      typeDeclaration text d = d ∧ d.toNode.kind ≠ .function ∧ d.toNode.kind ≠ .var := by
  cases d with
  | function f => exact .inl ⟨f, rfl⟩
  | var v => exact .inr (.inl ⟨v, rfl⟩)
  | members d =>
    refine .inr (.inr ⟨rfl, ?_⟩)
    cases h : d.kind <;> simp [toNode, Node.kind, h, MemberKind.toKind]
  | clause c =>
    refine .inr (.inr ⟨rfl, ?_⟩)
    cases h : c.kind <;> simp [toNode, Node.kind, h, ClauseKind.toKind]
  | stmt s =>
    refine .inr (.inr ⟨rfl, ?_⟩)
    cases s <;> simp [toNode, Node.kind, Stmt.kind]
  | _ =>
    refine .inr (.inr ⟨rfl, ?_⟩)
    simp [toNode, Node.kind]

theorem exists_function (h : d.toNode.kind = .function) : ∃ f, d = .function f := by
  rcases cases_typeDeclaration [] d with hf | ⟨v, rfl⟩ | ⟨-, hne, -⟩
  · exact hf
  · cases h
  · exact absurd h hne

theorem exists_var (h : d.toNode.kind = .var) : ∃ v, d = .var v := by
  rcases cases_typeDeclaration [] d with ⟨f, rfl⟩ | hv | ⟨-, -, hne⟩
  · cases h
  · exact hv
  · exact absurd h hne

end Declaration

theorem Node.name?_function (f : FunctionDef) : (Node.function f).name? = some f.name := by
  obtain ⟨span, decorators, name, params, returns, body, doc⟩ := f
  cases returns <;> cases doc <;> rfl

namespace Module

open Declaration

variable {m : Module} {text : List Char} {name : String} {d e : Declaration} {p : Site → Bool}

theorem declaresFunction_site :
    (m.site d).declaresFunction name = true ↔ ∃ f, d = .function f ∧ f.name = name := by
  constructor
  · intro h
    simp only [Site.declaresFunction, Bool.and_eq_true, beq_iff_eq] at h
    obtain ⟨f, rfl⟩ := exists_function h.1.1
    have hname := h.1.2
    change (Node.function f).name? = some name at hname
    rw [Node.name?_function] at hname
    exact ⟨f, rfl, Option.some.inj hname⟩
  · rintro ⟨f, rfl, rfl⟩
    have hname : (m.site (.function f)).node.name? = some f.name := Node.name?_function f
    simp only [Site.declaresFunction, hname, BEq.rfl, Bool.and_true]
    rfl

theorem declaresVariable_site : (m.site d).declaresVariable name = true ↔
    ∃ v, d = .var v ∧ v.target.id? = some name := by
  constructor
  · intro h
    simp only [Site.declaresVariable, Bool.and_eq_true, beq_iff_eq] at h
    obtain ⟨v, rfl⟩ := exists_var h.1
    exact ⟨v, rfl, h.2⟩
  · rintro ⟨v, rfl, htarget⟩
    have hname : (m.site (.var v)).node.boundName? = some name := htarget
    simp only [Site.declaresVariable, hname, BEq.rfl, Bool.and_true]
    rfl

theorem claim?_of_declaresMember (h : (m.site d).declaresMember name = true) :
    d.claim? = some name := by
  rcases Bool.or_eq_true_iff.mp h with h | h
  · obtain ⟨f, rfl, rfl⟩ := declaresFunction_site.mp h
    rfl
  · obtain ⟨v, rfl, htarget⟩ := declaresVariable_site.mp h
    rw [claim?, VariableDef.name, htarget]
    rfl

/-- Two declarations that claim the same name are the same. -/
theorem eq_of_claim? (h : (m.body.filterMap (·.claim?)).Nodup) (hd : d ∈ m.body) (he : e ∈ m.body)
    (hclaim : d.claim? = some name) (hclaim' : e.claim? = some name) : d = e := by
  obtain ⟨i, hi, rfl⟩ := List.mem_iff_getElem.mp hd
  obtain ⟨j, hj, rfl⟩ := List.mem_iff_getElem.mp he
  have hpairs := List.pairwise_iff_getElem.mp (List.pairwise_filterMap.mp h)
  rcases Nat.lt_trichotomy i j with hij | rfl | hij
  · exact absurd rfl (hpairs i j hi hj hij name hclaim name hclaim')
  · rfl
  · exact absurd rfl (hpairs j i hj hi hij name hclaim' name hclaim)

namespace IsTreeOf

variable (h : m.IsTreeOf text)
include h

theorem exists_of_declaresMember {s : Site} (hs : s ∈ (Tree.ofModule m text).sites)
    (hmember : s.declaresMember name = true) :
    ∃ d ∈ m.body, s = m.site d ∧ d.claim? = some name := by
  obtain ⟨d, hd, rfl⟩ :=
    h.exists_of_mem_sites (fun _ _ => Site.declaresMember_below) hs hmember
  exact ⟨d, hd, rfl, claim?_of_declaresMember hmember⟩

variable (hclaims : (m.body.filterMap (·.claim?)).Nodup)
include hclaims

/-- A member is declared once. -/
theorem eq_of_declaresMember {s s' : Site} (hs : s ∈ (Tree.ofModule m text).sites)
    (hs' : s' ∈ (Tree.ofModule m text).sites) (hmember : s.declaresMember name = true)
    (hmember' : s'.declaresMember name = true) : s = s' := by
  obtain ⟨d, hd, rfl, hclaim⟩ := h.exists_of_declaresMember hs hmember
  obtain ⟨e, he, rfl, hclaim'⟩ := h.exists_of_declaresMember hs' hmember'
  rw [eq_of_claim? hclaims hd he hclaim hclaim']

/-- A declaration that is found by the name it claims is the one that is found. -/
theorem find?_sites (hbelow : ∀ c s : Site, c.kind ≠ .module → s ∈ c.descendants → p s = false)
    (hp : ∀ e, p (m.site e) = true → e.claim? = some name) (hd : d ∈ m.body)
    (hpd : p (m.site d) = true) : (Tree.ofModule m text).sites.find? p = some (m.site d) := by
  have hmem : m.site d ∈ (Tree.ofModule m text).sites.filter p :=
    List.mem_filter.mpr ⟨h.mem_sites hd, hpd⟩
  obtain ⟨first, rest, hfirst⟩ := List.exists_cons_of_ne_nil (List.ne_nil_of_mem hmem)
  have hfound : (Tree.ofModule m text).sites.find? p = some first := by
    rw [← List.head?_filter, hfirst]
    rfl
  have hpfirst := List.find?_some hfound
  obtain ⟨e, he, rfl⟩ := h.exists_of_mem_sites hbelow (List.mem_of_find?_eq_some hfound) hpfirst
  rw [hfound, eq_of_claim? hclaims he hd (hp e hpfirst) (hp d hpd)]

theorem functionDeclaration?_site {f : FunctionDef} (hf : .function f ∈ m.body) :
    (Tree.ofModule m text).functionDeclaration? f.name = some (m.site (.function f)) := by
  have hclaim : ∀ e, (m.site e).declaresFunction f.name = true → e.claim? = some f.name :=
    fun e he => claim?_of_declaresMember (Bool.or_eq_true_iff.mpr (.inl he))
  exact h.find?_sites hclaims (fun _ _ => Site.declaresFunction_below) hclaim hf
    (declaresFunction_site.mpr ⟨f, rfl, rfl⟩)

theorem variableDeclaration?_site {v : VariableDef} (hv : .var v ∈ m.body) :
    (Tree.ofModule m text).variableDeclaration? v.name = some (m.site (.var v)) := by
  have hclaim : ∀ e, (m.site e).declaresVariable v.name = true → e.claim? = some v.name :=
    fun e he => claim?_of_declaresMember (Bool.or_eq_true_iff.mpr (.inr he))
  exact h.find?_sites hclaims (fun _ _ => Site.declaresVariable_below) hclaim hv
    (declaresVariable_site.mpr ⟨v, rfl, h.target_id hv⟩)

end IsTreeOf

end Module

/-- What is read off the end of a path is read off a site of the tree. -/
theorem Module.exists_site {α : Type} {m : Module} (text : List Char) {path : List Nat}
    {f : Node → α} {x : α} (h : ((Node.module m).at? path).map f = some x) (hne : path ≠ []) :
    ∃ s ∈ (Tree.ofModule m text).sites, f s.node = x := by
  obtain ⟨n, hn, rfl⟩ := Option.map_eq_some_iff.mp h
  obtain ⟨s, hs, rfl⟩ := Site.exists_mem_descendants (r := { node := .module m }) hn hne
  refine ⟨s, ?_, rfl⟩
  rwa [Tree.sites_eq]

namespace Annotate.Lists

variable {importer : Importer} {text : List Char} {body : List Declaration} {tables : ModuleType}
  {name : String} (h : Lists importer text body tables)
include h

theorem isSome_function? :
    (tables.function? name).isSome = true ↔ ∃ f, .function f ∈ body ∧ f.name = name := by
  have hnames : (tables.function? name).isSome = true ↔ name ∈ tables.functions.map (·.name) := by
    rw [ModuleType.function?, List.find?_isSome, List.mem_map]
    simp
  rw [hnames, h.names_functions, List.mem_map]
  constructor
  · rintro ⟨f, hf, hname⟩
    obtain ⟨d, hd, hfunction⟩ := List.mem_filterMap.mp hf
    cases d with
    | function g =>
      cases hfunction
      exact ⟨f, hd, hname⟩
    | _ => cases hfunction
  · rintro ⟨f, hf, hname⟩
    exact ⟨f, List.mem_filterMap.mpr ⟨_, hf, rfl⟩, hname⟩

theorem exists_var_of_var? {type : VariableType} (hvar : tables.var? name = some type) :
    ∃ v, .var v ∈ body ∧ v.name = name := by
  have hname : name ∈ tables.vars.map (·.name) := by
    refine List.mem_map.mpr ⟨type, List.mem_of_find?_eq_some hvar, ?_⟩
    simpa using List.find?_some hvar
  rw [h.names_vars, List.mem_map] at hname
  obtain ⟨v, hv, hname⟩ := hname
  obtain ⟨d, hd, hvariable⟩ := List.mem_filterMap.mp hv
  cases d with
  | var w =>
    cases hvariable
    exact ⟨v, hd, hname⟩
  | _ => cases hvariable

end Annotate.Lists

/-! ### The text of an access -/

theorem Expr.eq_of_selfMember? {e : Expr} {name : String} (h : e.selfMember? = some name) :
    ∃ span place, e = .member span (.name place "self") name := by
  unfold selfMember? at h
  split at h
  · cases h
    exact ⟨_, _, rfl⟩
  · cases h

theorem Node.eq_of_selfMember? {n : Node} {name : String} (h : n.selfMember? = some name) :
    ∃ span place, n = .expr (.member span (.name place "self") name) := by
  cases n with
  | expr e =>
    obtain ⟨span, place, rfl⟩ := Expr.eq_of_selfMember? h
    exact ⟨span, place, rfl⟩
  | _ => cases h

theorem Module.IsTreeOf.dotted_self {m : Module} {text before after : List Char} {name : String}
    (h : m.IsTreeOf text) {s : Site} (hs : s ∈ (Tree.ofModule m text).sites)
    (hmember : s.node.selfMember? = some name)
    (htext : text = before ++ ("self." ++ name).toList ++ after)
    (hspan : s.span =
      ⟨Pos.origin.advance before, Pos.origin.advance (before ++ ("self." ++ name).toList)⟩) :
    Dotted text "self" name before after := by
  obtain ⟨span, place, hnode⟩ := Node.eq_of_selfMember? hmember
  rw [Tree.sites_eq] at hs
  obtain ⟨path, hpath⟩ := Site.exists_path hs
  rw [hnode] at hpath
  rw [Site.span, hnode] at hspan
  have hself : "self" ++ "." = "self." := by decide
  rw [← hself] at htext hspan
  exact h.dotted hpath htext hspan

/-- A cursor anywhere on the member of `self` sees its name, behind `self.`. -/
theorem CursorContext.exists_self {d : Document} {before after : List Char} {name : String}
    (h : Dotted d.text "self" name before after) {k : Nat} (hk : k ≤ name.length) :
    let p := d.positionAt ((before ++ "self.".toList).length + k)
    d.offset p = .ok ((before ++ "self.".toList).length + k) ∧
      ∃ c, CursorContext.at? d p = some c ∧ c.word = name ∧ c.isSelfAccess = true := by
  have htext : d.text = before ++ ("self.".toList ++ name.toList) ++ after := by
    rw [← String.toList_append]
    exact h.text_eq
  have hdot : ∀ c ∈ (before ++ "self.".toList).getLast?, isWordChar c = false := by
    rw [List.getLast?_append]
    rintro _ ⟨⟩
    decide
  have hleft : ∀ c ∈ (Lines.current Lines.isBreak before).getLast?, isWordChar c = false :=
    fun c hc => Lexeme.isWordChar_of_parts (h.apart_before c (Lines.mem_getLast?_of_current hc))
  obtain ⟨hoffset, right, -, hcursor, hword⟩ :=
    d.cursor?_name htext h.attr (by simp [Lines.isBreak]) hdot h.apart_after hk
  obtain ⟨first, others, hchars, -⟩ := Lexeme.eq_cons_of_isIdentifier h.attr
  refine ⟨hoffset, _, by rw [CursorContext.at?, hcursor, Option.map_some], hword, ?_⟩
  exact isSelfMember_word (Lexeme.isWordChar_of_isIdentifier h.attr) (by simp [hchars]) hleft hk

/-! ### Documents that are ready -/

/-- Whether a test passes at every site below, none of them deeper than some steps. -/
def Site.allBelow (p : Site → Bool) : Nat → Site → Bool
  | 0, _ => false
  | depth + 1, r => r.parts.all fun c => p c && c.allBelow p depth

theorem Site.forall_of_allBelow {p : Site → Bool} {depth : Nat} {r : Site}
    (h : r.allBelow p depth = true) : ∀ s ∈ r.descendants, p s = true := by
  induction depth generalizing r with
  | zero => cases h
  | succ depth ih =>
    intro s hs
    rw [descendants_eq, List.mem_flatMap] at hs
    obtain ⟨c, hc, hs⟩ := hs
    rw [children, List.mem_mergeSort] at hc
    obtain ⟨hpc, hbelow⟩ := Bool.and_eq_true_iff.mp (List.all_eq_true.mp h c hc)
    rcases List.mem_cons.mp hs with rfl | hs
    · exact hpc
    · exact ih hbelow s hs

/-- Whether a function accesses only what `self` has. -/
def Annotate.accessesMembers (tables : ModuleType) (depth : Nat) (f : FunctionDef) : Bool :=
  ({ node := .function f } : Site).allBelow
    (fun s => s.node.selfMember?.all (hasSelfMember tables (s.isField .call "func"))) depth

theorem Annotate.checkSelf_of_accessesMembers {tables : ModuleType} {depth : Nat} {f : FunctionDef}
    (h : accessesMembers tables depth f = true) : checkSelf tables f = .ok () := by
  refine forM_eq_ok fun s hs => ?_
  have hmember := Site.forall_of_allBelow h s hs
  change Option.all _ (selfAccess? s) = true at hmember
  cases haccess : selfAccess? s with
  | none => rfl
  | some name =>
    rw [haccess] at hmember
    exact if_pos hmember

namespace Module

/-- Whether a text without binary operations is read, annotated and folded; its tree is at most so
deep. -/
def compiles (text : List Char) (importer : Importer) (depth : Nat) : Bool :=
  (Module.parse text).toOption.any fun parsed =>
    (parsed.tree.body.foldlM (declare importer text) { tables := { name := "" } }).toOption.any
      fun draft =>
        (parsed.tree.body.forM fun d =>
          (declaredTypes d).forM (checkType draft.tables text)).toOption.isSome &&
        parsed.tree.functions.all (accessesMembers draft.tables depth) &&
        (Folding.constantsOf [] (parsed.tree.body.map (typeDeclaration text))).toOption.isSome &&
        ({ node := .module { parsed.tree with
          body := parsed.tree.body.map (typeDeclaration text) } } : Site).allBelow
            (·.kind != .binary) depth

theorem fold_eq_ok {m : Module} {cs : Folding.Constants} {depth : Nat}
    (hconstants : Folding.constantsOf [] m.body = .ok cs)
    (h : ({ node := .module m } : Site).allBelow (·.kind != .binary) depth = true) :
    ∃ folded, m.fold = .ok folded := by
  let body := (m.body.filter (!Folding.isConstant ·)).map (Folding.substituteDeclaration cs)
  refine ⟨{ m with body }, (bind_of_eq_ok hconstants).trans
    (bind_of_eq_ok (forM_eq_ok fun s hs => ?_))⟩
  have hkind : s.kind ≠ .binary := bne_iff_ne.mp (Site.forall_of_allBelow h s hs)
  cases s.node with
  | expr e => exact if_neg hkind
  | _ => rfl

end Module

theorem Analysis.ready_of_compiles {a : Analysis} {files : FileSystem} {d : Document}
    {workingDirectory : Option Path} {depth : Nat}
    (h : Module.compiles d.text (.fromFiles files (d.searchPaths workingDirectory)) depth = true) :
    (a.build (.builtIn files) d workingDirectory).1.state = .ready := by
  obtain ⟨parsed, hparse, h⟩ := (Option.any_eq_true _ _).mp h
  obtain ⟨draft, hdraft, h⟩ := (Option.any_eq_true _ _).mp h
  simp only [Bool.and_eq_true, Option.isSome_iff_exists] at h
  obtain ⟨⟨⟨⟨_, htypes⟩, hself⟩, cs, hconstants⟩, hfold⟩ := h
  obtain ⟨folded, hfolded⟩ := Module.fold_eq_ok (eq_ok_of_toOption hconstants) hfold
  have hmembers : parsed.tree.functions.forM (checkSelf draft.tables) = .ok () :=
    forM_eq_ok fun f hf => checkSelf_of_accessesMembers (List.all_eq_true.mp hself f hf)
  have hannotate : parsed.tree.annotate d.text none
      (.fromFiles files (d.searchPaths workingDirectory)) = .ok { draft.tables with
        tree := some { parsed.tree with body := parsed.tree.body.map (typeDeclaration d.text) } } :=
    (bind_of_eq_ok (eq_ok_of_toOption hdraft)).trans
      ((bind_of_eq_ok (eq_ok_of_toOption htypes)).trans (bind_of_eq_ok hmembers))
  exact state_build_eq_ready.mpr
    ⟨parsed, _, folded, eq_ok_of_toOption hparse, hannotate, hfolded⟩

/-! ### Members of `self` -/

/-- In a function whose accesses are checked, every access is to a member. -/
theorem Annotate.hasSelfMember_of_checkSelf {tables : ModuleType} {f : FunctionDef} {r s : Site}
    {name : String} (h : checkSelf tables f = .ok ()) (hr : r.node = .function f)
    (hs : s ∈ r.descendants) (hmember : s.node.selfMember? = some name) :
    hasSelfMember tables (s.isField .call "func") name = true := by
  let top : Site := { node := .function f }
  obtain ⟨s', hs', hnode, hfield, hparent⟩ :=
    Site.exists_mem_descendants_of_node (show top.node = r.node from hr.symm) hs
  have hcheck := forall_of_forM_eq_ok h s' hs'
  have haccess : selfAccess? s' = some name := by
    rw [selfAccess?, hnode]
    exact hmember
  have hcalled : s'.isField .call "func" = s.isField .call "func" := by
    rw [Site.isField, Site.isField, hfield, hparent]
  rw [haccess, hcalled] at hcheck
  dsimp only at hcheck
  split at hcheck
  · assumption
  · cases hcheck

/-- What `self` has is declared, or there without being declared. -/
theorem Module.IsTreeOf.exists_of_hasSelfMember {m : Module} {text : List Char}
    {importer : Importer} {tables : ModuleType} {called : Bool} {name : String}
    (h : m.IsTreeOf text) (hlists : Lists importer text m.body tables)
    (hself : hasSelfMember tables called name = true) :
    if called then ∃ decl ∈ (Tree.ofModule m text).sites, decl.declaresFunction name = true
    else name ∈ selfMembers ∨
      ∃ decl ∈ (Tree.ofModule m text).sites, decl.declaresVariable name = true := by
  unfold hasSelfMember at hself
  cases called with
  | true =>
    obtain ⟨f, hf, hname⟩ := hlists.isSome_function?.mp hself
    exact ⟨m.site (.function f), h.mem_sites hf, Module.declaresFunction_site.mpr ⟨f, rfl, hname⟩⟩
  | false =>
    rcases Bool.or_eq_true_iff.mp hself with hvar | hbuiltin
    · cases hfound : tables.var? name with
      | none =>
        rw [hfound] at hvar
        cases hvar
      | some type =>
        obtain ⟨v, hv, rfl⟩ := hlists.exists_var_of_var? hfound
        exact .inr ⟨m.site (.var v), h.mem_sites hv,
          Module.declaresVariable_site.mpr ⟨v, rfl, h.target_id hv⟩⟩
    · exact .inl (List.contains_iff_mem.mp hbuiltin)

namespace Analysis

variable {files : FileSystem} {d : Document} {workingDirectory : Option Path} {parsed : Parsed}
  {tables : ModuleType} {name : String} {decl : Site}

section

variable (hparse : Module.parse d.text = .ok parsed)
  (hannotate : parsed.tree.annotate d.text none
    (.fromFiles files (d.searchPaths workingDirectory)) = .ok tables)
  (hdecl : decl ∈ (Tree.ofModule parsed.tree d.text).sites) (a : Analysis)
include hparse hannotate hdecl

/-- A function of the module is in the tables, and found where it stands. -/
theorem functionDeclaration?_build (h : decl.declaresFunction name = true) :
    let built := (a.build (.builtIn files) d workingDirectory).1
    (built.tables.function? name).isSome = true ∧
      (built.best.functionDeclaration? name).map Site.range = some decl.range := by
  have hraw : parsed.tree.IsTreeOf d.text := ⟨parsed, hparse, .inl rfl⟩
  have htyped : Module.IsTreeOf _ d.text :=
    ⟨parsed, hparse, .inr ⟨none, _, tables, hannotate, Module.tree_of_annotate hannotate⟩⟩
  obtain ⟨hlists, hclaims, -⟩ := Module.drafted_of_annotate hannotate
  obtain ⟨-, hbest, htables⟩ := build_of_annotate hparse hannotate a
  obtain ⟨e, he, rfl⟩ :=
    hraw.exists_of_mem_sites (fun _ _ => Site.declaresFunction_below) hdecl h
  obtain ⟨f, rfl, rfl⟩ := Module.declaresFunction_site.mp h
  intro built
  refine ⟨by rw [htables, hlists.isSome_function?]; exact ⟨f, he, rfl⟩, ?_⟩
  rw [← htyped.filterMap_body hparse (Declaration.claim?_typeDeclaration d.text)] at hclaims
  have hfound := htyped.functionDeclaration?_site hclaims
    (List.mem_map_of_mem (f := typeDeclaration d.text) he)
  rw [hbest]
  exact congrArg (Option.map Site.range) hfound

/-- A variable of the module has the name of no function, and is found where it stands. -/
theorem variableDeclaration?_build (h : decl.declaresVariable name = true) :
    let built := (a.build (.builtIn files) d workingDirectory).1
    (built.tables.function? name).isSome = false ∧
      built.variableDeclaration? name = some decl := by
  have hraw : parsed.tree.IsTreeOf d.text := ⟨parsed, hparse, .inl rfl⟩
  obtain ⟨hlists, hclaims, -⟩ := Module.drafted_of_annotate hannotate
  obtain ⟨hunfolded, -, htables⟩ := build_of_annotate hparse hannotate a
  obtain ⟨e, he, rfl, hclaim⟩ :=
    hraw.exists_of_declaresMember hdecl (Bool.or_eq_true_iff.mpr (.inr h))
  obtain ⟨v, rfl, -⟩ := Module.declaresVariable_site.mp h
  cases hclaim
  intro built
  constructor
  · rw [htables, ← Bool.not_eq_true, hlists.isSome_function?]
    rintro ⟨f, hf, hname⟩
    have hsame := Module.eq_of_claim? hclaims hf he (congrArg some hname) rfl
    cases hsame
  · rw [variableDeclaration?, hunfolded]
    exact hraw.variableDeclaration?_site hclaims he

/-- A cursor behind `self.` leads to the member of its word. -/
theorem declaration?_of_context (h : decl.declaresMember name = true) {p : Position}
    {c : CursorContext} (hc : CursorContext.at? d p = some c) (hword : c.word = name)
    (hne : name.isEmpty = false) (hself : c.isSelfAccess = true) :
    let built := (a.build (.builtIn files) d workingDirectory).1
    built.declaration? d p = some (d.utf16Range decl.range) ∧
      (decl.kind = .function → built.implementation? d p = some (d.utf16Range decl.range)) := by
  intro built
  have hrange : ∀ {s? : Option Site}, s?.map Site.range = some decl.range →
      (s?.bind fun s => some (d.utf16Range s.range)) = some (d.utf16Range decl.range) := by
    intro s? hs
    obtain ⟨s, rfl, hsame⟩ := Option.map_eq_some_iff.mp hs
    rw [Option.bind_some, hsame]
  have hdeclaration : built.declaration? d p =
      (built.declarationSite? c p.line).bind fun s => some (d.utf16Range s.range) := by
    rw [declaration?, hc]
    rfl
  have himplementation : built.implementation? d p =
      (built.implementationSite? c).bind fun s => some (d.utf16Range s.range) := by
    rw [implementation?, hc]
    rfl
  rw [hdeclaration, himplementation, declarationSite?, implementationSite?, hword, hne, hself]
  rcases Bool.or_eq_true_iff.mp h with h | h
  · obtain ⟨hfunction, hfound⟩ := functionDeclaration?_build hparse hannotate hdecl a h
    simp only [built, hfunction, if_true, if_false, Bool.false_eq_true]
    exact ⟨hrange hfound, fun _ => hrange hfound⟩
  · obtain ⟨hfunction, hfound⟩ := variableDeclaration?_build hparse hannotate hdecl a h
    have hkind : decl.kind = .var := beq_iff_eq.mp (Bool.and_eq_true_iff.mp h).1
    simp only [built, hfunction, if_true, if_false, Bool.false_eq_true, hfound]
    exact ⟨rfl, fun hfunction => absurd (hkind.symm.trans hfunction) (by decide)⟩

end

/-- For a document that is ready, a member of `self` that is accessed in a function is declared, and
from any place on its name in an access written `self.name` the declaration is found: its rows and
columns, measured by the document, which are where it stands if no break in front of it is stray. -/
theorem declaration?_self_member {a : Analysis} {files : FileSystem} {d : Document}
    {workingDirectory : Option Path} :
    let built := (a.build (.builtIn files) d workingDirectory).1
    built.state = .ready →
    ∀ s ∈ built.unfolded.sites, ∀ name, s.node.selfMember? = some name →
      (∀ f ∈ built.unfolded.sites, ∀ g, f.declaresFunction g = true → s ∈ f.descendants →
        if s.isField .call "func" then
          ∃ decl ∈ built.unfolded.sites, decl.declaresFunction name = true
        else name ∈ selfMembers ∨
          ∃ decl ∈ built.unfolded.sites, decl.declaresVariable name = true) ∧
      ∀ decl ∈ built.unfolded.sites, decl.declaresMember name = true →
        (∀ other ∈ built.unfolded.sites, other.declaresMember name = true → other = decl) ∧
        (d.Measures decl.range.start ∧ d.Measures decl.range.stop) ∧
        ∀ before after, d.text = before ++ ("self." ++ name).toList ++ after →
          s.span = ⟨Pos.origin.advance before,
            Pos.origin.advance (before ++ ("self." ++ name).toList)⟩ →
          ∀ k ≤ name.length,
            let offset := (before ++ "self.".toList).length + k
            let p := d.positionAt offset
            d.offset p = .ok offset ∧
            built.declaration? d p = some (d.utf16Range decl.range) ∧
            (decl.kind = .function →
              built.implementation? d p = some (d.utf16Range decl.range)) := by
  intro built hready s hs name hmember
  obtain ⟨parsed, tables, folded, hparse, hannotate, -⟩ := state_build_eq_ready.mp hready
  have hraw : parsed.tree.IsTreeOf d.text := ⟨parsed, hparse, .inl rfl⟩
  obtain ⟨hlists, hclaims, hself⟩ := Module.drafted_of_annotate hannotate
  obtain ⟨hunfolded, -, -⟩ := build_of_annotate hparse hannotate a
  change built.unfolded = _ at hunfolded
  rw [hunfolded] at hs ⊢
  constructor
  · intro f hf g hg hbelow
    obtain ⟨e, he, rfl⟩ := hraw.exists_of_mem_sites (fun _ _ => Site.declaresFunction_below) hf hg
    obtain ⟨g, rfl, -⟩ := Module.declaresFunction_site.mp hg
    have hcheck := hself g (List.mem_filterMap.mpr ⟨_, he, rfl⟩)
    exact hraw.exists_of_hasSelfMember hlists (hasSelfMember_of_checkSelf hcheck rfl hbelow hmember)
  · intro decl hdecl hdeclares
    refine ⟨fun other hother hother' =>
      hraw.eq_of_declaresMember hclaims hother hdecl hother' hdeclares, ?_, ?_⟩
    · obtain ⟨e, he, rfl⟩ :=
        hraw.exists_of_mem_sites (fun _ _ => Site.declaresMember_below) hdecl hdeclares
      have hstop := (hraw.inside_text he).2
      have hstart := (hraw.wellPlaced_declaration he).placed.start_le
      exact ⟨Document.measures_of_line_le (Pos.line_le_of_le (le_trans hstart hstop)),
        Document.measures_of_line_le (Pos.line_le_of_le hstop)⟩
    intro before after htext hspan k hk offset p
    have hdotted := hraw.dotted_self hs hmember htext hspan
    obtain ⟨hoffset, c, hc, hcword, hcself⟩ := CursorContext.exists_self hdotted hk
    exact ⟨hoffset, declaration?_of_context hparse hannotate hdecl a hdeclares hc hcword
      (Lexeme.isEmpty_of_isIdentifier hdotted.attr) hcself⟩

/-- A function calls one that is declared below it, and reads a variable behind a character of two
units. -/
def calling : Document :=
  ⟨"file:///a.vy", "a: bool\ndef f():\n self.g(\"😀\", self.a)\ndef g(): pass\n".toList⟩

theorem declaration?_self_member_calling :
    let built := (({} : Analysis).build (.builtIn .empty) calling none).1
    built.state = .ready ∧
    (∃ s ∈ built.unfolded.sites, s.node.selfMember? = some "g" ∧ s.span = ⟨⟨3, 1⟩, ⟨3, 7⟩⟩) ∧
    built.declaration? calling ⟨2, 6⟩ = some ⟨⟨3, 0⟩, ⟨3, 13⟩⟩ ∧
    built.implementation? calling ⟨2, 7⟩ = some ⟨⟨3, 0⟩, ⟨3, 13⟩⟩ ∧
    (∃ s ∈ built.unfolded.sites, s.node.selfMember? = some "a" ∧ s.span = ⟨⟨3, 13⟩, ⟨3, 19⟩⟩) ∧
    built.declaration? calling ⟨2, 19⟩ = some ⟨⟨0, 0⟩, ⟨0, 7⟩⟩ ∧
    built.declaration? calling ⟨2, 20⟩ = some ⟨⟨0, 0⟩, ⟨0, 7⟩⟩ := by
  intro built
  have hcompiles :
      Module.compiles calling.text (.fromFiles .empty (calling.searchPaths none)) 7 = true := by
    decide +kernel
  have hready : built.state = .ready := ready_of_compiles hcompiles
  obtain ⟨parsed, tables, folded, hparse, hannotate, -⟩ := state_build_eq_ready.mp hready
  obtain ⟨hunfolded, -, -⟩ := build_of_annotate hparse hannotate {}
  change built.unfolded = _ at hunfolded
  have hraw : parsed.tree.IsTreeOf calling.text := ⟨parsed, hparse, .inl rfl⟩
  have haccesses : (Module.parse calling.text).toOption.map (fun parsed =>
      (((Node.module parsed.tree).at? [1, 1, 0, 2]).map fun n => (n.selfMember?, n.span),
        ((Node.module parsed.tree).at? [1, 1, 0, 0]).map fun n => (n.selfMember?, n.span))) =
      some (some (some "a", ⟨⟨3, 13⟩, ⟨3, 19⟩⟩), some (some "g", ⟨⟨3, 1⟩, ⟨3, 7⟩⟩)) := by
    decide +kernel
  have hdeclarations : (Module.parse calling.text).toOption.map (fun parsed =>
      (parsed.tree.body[0]?.map fun e => ((parsed.tree.site e).declaresMember "a", e.span),
        parsed.tree.body[2]?.map fun e =>
          ((parsed.tree.site e).declaresMember "g", (parsed.tree.site e).kind, e.span))) =
      some (some (true, ⟨⟨1, 0⟩, ⟨1, 7⟩⟩), some (true, .function, ⟨⟨4, 0⟩, ⟨4, 13⟩⟩)) := by
    decide +kernel
  rw [hparse] at haccesses hdeclarations
  simp only [Except.toOption, Option.map_some, Option.some.injEq,
    Prod.mk.injEq] at haccesses hdeclarations
  obtain ⟨s, hs, hread⟩ := Module.exists_site calling.text haccesses.1 (by decide)
  obtain ⟨s', hs', hcall⟩ := Module.exists_site calling.text haccesses.2 (by decide)
  obtain ⟨v, hv, hvariable⟩ := Option.map_eq_some_iff.mp hdeclarations.1
  obtain ⟨g, hg, hfunction⟩ := Option.map_eq_some_iff.mp hdeclarations.2
  have hv := hraw.mem_sites (List.mem_of_getElem? hv)
  have hg := hraw.mem_sites (List.mem_of_getElem? hg)
  rw [← hunfolded] at hs hs' hv hg
  simp only [Prod.mk.injEq] at hread hcall hvariable hfunction
  have hvrange : calling.utf16Range (parsed.tree.site v).range = ⟨⟨0, 0⟩, ⟨0, 7⟩⟩ := by
    rw [Site.range, show (parsed.tree.site v).span = _ from hvariable.2]
    decide +kernel
  have hgrange : calling.utf16Range (parsed.tree.site g).range = ⟨⟨3, 0⟩, ⟨3, 13⟩⟩ := by
    rw [Site.range, show (parsed.tree.site g).span = _ from hfunction.2.2]
    decide +kernel
  have hvfound := ((declaration?_self_member hready s hs "a" hread.1).2
    (parsed.tree.site v) hv hvariable.1).2.2 "a: bool\ndef f():\n self.g(\"😀\", ".toList
    ")\ndef g(): pass\n".toList (by decide +kernel) (hread.2.trans (by decide +kernel))
  have hgfound := ((declaration?_self_member hready s' hs' "g" hcall.1).2
    (parsed.tree.site g) hg hfunction.1).2.2 "a: bool\ndef f():\n ".toList
    "(\"😀\", self.a)\ndef g(): pass\n".toList (by decide +kernel)
      (hcall.2.trans (by decide +kernel))
  dsimp only at hvfound hgfound
  rw [hvrange] at hvfound
  rw [hgrange] at hgfound
  exact ⟨hready, ⟨s', hs', hcall⟩, (hgfound 0 (by decide)).2.1,
    (hgfound 1 (by decide)).2.2 hfunction.2.1, ⟨s, hs, hread⟩, (hvfound 0 (by decide)).2.1,
    (hvfound 1 (by decide)).2.1⟩

end Analysis

end Vyper
