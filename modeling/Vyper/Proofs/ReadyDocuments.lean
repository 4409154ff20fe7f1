import Vyper.Proofs.BareNames
import Vyper.Proofs.Scopes
import Vyper.Proofs.SelfMembers

/-!
# Documents that are ready

An analysis of a document that is ready shows one module (`Analysis.Shows`): its best tree is a tree
of the text, its names are those the module declares, and no name is declared twice. Everything that
is asked about such a document is answered from this.
-/

namespace Vyper

open Annotate Declaration

/-- A module with the types that are written in its text put into its declarations. -/
def Module.typed (m : Module) (text : List Char) : Module :=
  { m with body := m.body.map (typeDeclaration text) }

/-- An analysis shows a module of a text. -/
structure Analysis.Shows (a : Analysis) (text : List Char) (m : Module) : Prop where
  best : a.best = .ofModule m text
  tree : m.IsTreeOf text
  claims : (m.body.filterMap (·.claim?)).Nodup
  types : ∀ name, name ∈ a.enums ∨ name ∈ a.structs ↔ name ∈ a.userTypes
  stateVariables : a.stateVariables = m.body.filterMap variableName?
  constants : a.constants = m.body.filterMap constantName?
  declared : ∀ v, .var v ∈ m.body → (a.tables.function? v.name).isSome = false ∧
    (a.variableDeclaration? v.name).map Site.range = some (m.site (.var v)).range

theorem Node.exists_of_typeName? {n : Node} {name : String} (h : n.typeName? = some name) :
    ∃ e, n = .members e := by
  cases n with
  | members e => exact ⟨e, rfl⟩
  | _ => cases h

namespace ModuleType.Names

variable {tables : ModuleType} {stateVariables constants events userTypes : List String}

theorem mem_userTypes (h : tables.Names stateVariables constants events userTypes) (name : String) :
    name ∈ tables.flags.map (·.name) ∨ name ∈ tables.structs.map (·.name) ↔ name ∈ userTypes := by
  rw [← h.flags, ← h.structs, List.mem_filter, List.mem_filter]
  constructor
  · rintro (⟨hname, -⟩ | ⟨hname, -⟩) <;> exact hname
  · intro hname
    rcases h.userTypes name hname with hstruct | hflag
    · exact .inr ⟨hname, hstruct⟩
    · exact .inl ⟨hname, hflag⟩

end ModuleType.Names

namespace Analysis

variable {a : Analysis} {files : FileSystem} {d : Document} {workingDirectory : Option Path}

/-- A document that is ready shows its module with the types written in. -/
theorem exists_shows
    (h : (a.build (.builtIn files) d workingDirectory).1.state = .ready) :
    ∃ parsed, Module.parse d.text = .ok parsed ∧
      (a.build (.builtIn files) d workingDirectory).1.Shows d.text (parsed.tree.typed d.text) := by
  obtain ⟨parsed, tables, folded, hparse, hannotate, -⟩ := state_build_eq_ready.mp h
  have hraw : parsed.tree.IsTreeOf d.text := ⟨parsed, hparse, .inl rfl⟩
  have htyped : (parsed.tree.typed d.text).IsTreeOf d.text :=
    ⟨parsed, hparse, .inr ⟨none, _, tables, hannotate, Module.tree_of_annotate hannotate⟩⟩
  obtain ⟨hlists, hclaims, -⟩ := Module.drafted_of_annotate hannotate
  obtain ⟨hunfolded, hbest, htables⟩ := build_of_annotate hparse hannotate a
  have hnames := htyped.names hparse hlists (Module.keys_nodup hlists hclaims)
  refine ⟨parsed, hparse, hbest, htyped, ?_, ?_, ?_, ?_, ?_⟩
  · rwa [htyped.filterMap_body hparse (claim?_typeDeclaration d.text)]
  · intro name
    rw [enums, structs, userTypes, htables, hbest]
    exact hnames.mem_userTypes name
  · rw [stateVariables, hunfolded, hraw.stateVariables,
      htyped.filterMap_body hparse fun e => by cases e <;> rfl]
  · rw [constants, hunfolded, hraw.constants,
      htyped.filterMap_body hparse fun e => by cases e <;> rfl]
  · intro v hv
    obtain ⟨raw, hmem, heq⟩ := List.mem_map.mp hv
    cases raw with
    | var w =>
      cases heq
      have hdeclares : (parsed.tree.site (.var w)).declaresVariable w.name = true :=
        Module.declaresVariable_site.mpr ⟨w, rfl, hraw.target_id hmem⟩
      obtain ⟨hfunction, hfound⟩ :=
        variableDeclaration?_build hparse hannotate (hraw.mem_sites hmem) a hdeclares
      exact ⟨hfunction, congrArg (Option.map Site.range) hfound⟩
    | _ => cases heq

namespace Shows

variable {text : List Char} {m : Module} {name : String} (h : a.Shows text m)
include h

theorem root_eq : a.best.root = { node := .module m } := by
  rw [h.best]
  rfl

theorem mem_sites {e : Declaration} (he : e ∈ m.body) : m.site e ∈ a.best.sites := by
  rw [h.best]
  exact h.tree.mem_sites he

theorem exists_at? {s : Site} (hs : s ∈ a.best.sites) :
    ∃ path, (Node.module m).at? path = some s.node := by
  rw [h.best, Tree.sites_eq] at hs
  exact Site.exists_path hs

theorem wellPlaced {s : Site} (hs : s ∈ a.best.sites) :
    s.node.WellPlaced (Token.Spelled text) := by
  obtain ⟨path, hpath⟩ := h.exists_at? hs
  exact h.tree.wellPlaced.at? hpath

omit h in
/-- The names of types are those of the structs, the flags and the events in the tree. -/
theorem mem_types_iff :
    name ∈ a.userTypes ∨ name ∈ a.events ↔ ∃ t ∈ a.best.sites, t.node.typeName? = some name := by
  simp only [userTypes, events, Tree.userTypes, Tree.events, Tree.selectBy, Tree.selectKind,
    List.mem_filterMap, List.mem_filter]
  constructor
  · rintro (⟨t, ⟨ht, -⟩, hname⟩ | ⟨t, ⟨ht, -⟩, hname⟩) <;> exact ⟨t, ht, hname⟩
  · rintro ⟨t, ht, hname⟩
    obtain ⟨e, he⟩ := Node.exists_of_typeName? hname
    have hkind : t.node.kind = e.kind.toKind := by rw [he]; rfl
    have hkind' : t.kind = e.kind.toKind := hkind
    cases hmember : e.kind with
    | struct | flag =>
      refine .inl ⟨t, ⟨ht, ?_⟩, hname⟩
      rw [hkind, hmember]
      rfl
    | event =>
      refine .inr ⟨t, ⟨ht, ?_⟩, hname⟩
      rw [hkind', hmember]
      rfl

theorem not_mem_types {v : VariableDef} (hv : .var v ∈ m.body) :
    ∀ t ∈ a.best.sites, t.node.typeName? ≠ some v.name := by
  intro t ht hname
  have hbelow : ∀ c s : Site, c.kind ≠ .module → s ∈ c.descendants →
      (s.node.typeName? == some v.name) = false := by
    intro c s hc hs
    have hinner := Site.isDeclaration_of_mem_descendants hc hs
    cases hnode : s.node with
    | members e =>
      rw [hnode] at hinner
      cases hinner
    | _ => rfl
  rw [h.best] at ht
  obtain ⟨e, he, rfl⟩ := h.tree.exists_of_mem_sites hbelow ht (beq_iff_eq.mpr hname)
  cases e with
  | members e =>
    have hsame := Module.eq_of_claim? h.claims he hv hname rfl
    cases hsame
  | _ => cases hname

end Shows

end Analysis

/-! ### Reading off a tree

What a concrete document has is read off its tree without sorting it, so that it can be computed. -/

namespace Site

/-- What is below a site, up to some steps, in the order of the fields. -/
def below : Nat → Site → List Site
  | 0, _ => []
  | depth + 1, r => r.parts.flatMap fun c => c :: c.below depth

theorem mem_descendants_of_below {depth : Nat} {r s : Site} (h : s ∈ r.below depth) :
    s ∈ r.descendants := by
  induction depth generalizing r with
  | zero => cases h
  | succ depth ih =>
    rw [below, List.mem_flatMap] at h
    obtain ⟨c, hc, hs⟩ := h
    rw [descendants_eq, List.mem_flatMap]
    refine ⟨c, List.mem_mergeSort.mpr hc, ?_⟩
    rcases List.mem_cons.mp hs with rfl | hs
    · exact List.mem_cons_self
    · exact List.mem_cons_of_mem c (ih hs)

/-- Whether exactly one piece of the text is the place of a site below that passes a test. -/
def hasOnly (q : Site → Bool) (span : Span) (depth : Nat) (r : Site) : Bool :=
  (r.below depth).any q && r.allBelow (fun s => !q s || s.span == span) depth

theorem span_of_hasOnly {q : Site → Bool} {span : Span} {depth : Nat} {r s : Site}
    (h : r.hasOnly q span depth = true) (hs : s ∈ r.descendants) (hq : q s = true) :
    s.span = span := by
  have hspan := forall_of_allBelow (Bool.and_eq_true_iff.mp h).2 s hs
  rw [hq, Bool.not_true, Bool.false_or, beq_iff_eq] at hspan
  exact hspan

theorem exists_of_hasOnly {q : Site → Bool} {span : Span} {depth : Nat} {r : Site}
    (h : r.hasOnly q span depth = true) : ∃ s ∈ r.descendants, q s = true ∧ s.span = span := by
  obtain ⟨s, hs, hq⟩ := List.any_eq_true.mp (Bool.and_eq_true_iff.mp h).1
  have hbelow := mem_descendants_of_below hs
  exact ⟨s, hbelow, hq, span_of_hasOnly h hbelow hq⟩

theorem exists_find?_of_hasOnly {q : Site → Bool} {span : Span} {depth : Nat} {r : Site}
    (h : r.hasOnly q span depth = true) :
    ∃ s, r.descendants.find? q = some s ∧ s.span = span := by
  obtain ⟨s, hs, hq, -⟩ := exists_of_hasOnly h
  obtain ⟨found, hfound⟩ := Option.isSome_iff_exists.mp (List.find?_isSome.mpr ⟨s, hs, hq⟩)
  refine ⟨found, hfound, span_of_hasOnly h (List.mem_of_find?_eq_some hfound) ?_⟩
  exact List.find?_some hfound

theorem any_eq_false_of_allBelow {p q : Site → Bool} {depth : Nat} {r : Site}
    (h : r.allBelow p depth = true) (hpq : ∀ s, p s = true → q s = false) :
    r.descendants.any q = false := by
  rw [List.any_eq_false]
  intro s hs
  rw [hpq s (forall_of_allBelow h s hs)]
  exact Bool.false_ne_true

end Site

namespace Module

/-- Whether a variable of a name is declared at a place, and passes a test. -/
def declaresAt (m : Module) (name : String) (place : Pos) (q : VariableDef → Bool) : Bool :=
  (m.body.filterMap (·.var?)).any fun v =>
    v.name == name && (Node.var v).bindingPlace == place && q v

theorem exists_of_declaresAt {m : Module} {name : String} {place : Pos} {q : VariableDef → Bool}
    (h : m.declaresAt name place q = true) :
    ∃ v, .var v ∈ m.body ∧ v.name = name ∧ (Node.var v).bindingPlace = place ∧ q v = true := by
  obtain ⟨v, hv, hq⟩ := List.any_eq_true.mp h
  rw [Bool.and_eq_true, Bool.and_eq_true, beq_iff_eq, beq_iff_eq, and_assoc] at hq
  obtain ⟨e, he, hvar⟩ := List.mem_filterMap.mp hv
  cases e with
  | var w =>
    cases hvar
    exact ⟨v, he, hq⟩
  | _ => cases hvar

end Module

/-- A document of some lines. -/
def Document.ofLines (lines : List String) : Document :=
  ⟨"file:///a.vy", lines.flatMap (·.toList ++ ['\n'])⟩

/-- Whether the module of a text, with the types in it, passes a test. -/
def Module.reads (text : List Char) (q : Module → Bool) : Bool :=
  (Module.parse text).toOption.any fun parsed => q (parsed.tree.typed text)

theorem Analysis.exists_shows_of_compiles {a : Analysis} {files : FileSystem} {d : Document}
    {workingDirectory : Option Path} (q : Module → Bool) (depth : Nat)
    (h : Module.compiles d.text (.fromFiles files (d.searchPaths workingDirectory)) depth = true)
    (hq : Module.reads d.text q = true) :
    let built := (a.build (.builtIn files) d workingDirectory).1
    built.state = .ready ∧ ∃ m, built.Shows d.text m ∧ q m = true := by
  intro built
  have hready : built.state = .ready := ready_of_compiles h
  obtain ⟨parsed, hparse, hshows⟩ := exists_shows hready
  rw [Module.reads, hparse] at hq
  exact ⟨hready, _, hshows, hq⟩

end Vyper
