import Vyper.Proofs.DocumentOrder
import Vyper.Proofs.SymbolTables
import Vyper.Proofs.Throughout

/-!
# The body of a module

The children of a module that was read from a text are its declarations in their order
(`Module.IsTreeOf.children`). A declaration other than a function stands nowhere else in the tree,
and a function that does stands in an interface, so what is looked for in the whole tree is found in
the body of the module (`Tree.filter_sites`).
-/

namespace Vyper

namespace Node

theorem kind_declaration (d : Declaration) : d.toNode.kind ≠ .module := by
  cases d with
  | members d =>
    obtain ⟨kind, span, name, body⟩ := d
    cases kind <;> exact nofun
  | clause c =>
    obtain ⟨kind, span, subject⟩ := c
    cases kind <;> exact nofun
  | stmt s => cases s <;> exact nofun
  | _ => exact nofun

end Node

namespace Site

variable {c s : Site}

theorem isDeclaration_of_mem_descendants (hc : c.kind ≠ .module) (hs : s ∈ c.descendants) :
    s.node.isDeclaration = false := by
  obtain ⟨i, path, hpath⟩ := exists_cons_path hs
  exact (Node.isDeclaration_of_at? hc hpath).1

/-- A function below a declaration stands in an interface. -/
theorem parent_of_function (hc : c.kind ≠ .module) (hs : s ∈ c.descendants)
    (hkind : s.kind = .function) : s.parent?.any (·.kind == .interface) = true := by
  rw [descendants_eq, List.mem_flatMap] at hs
  obtain ⟨child, hchild, hs⟩ := hs
  obtain ⟨part, hpart, rfl⟩ := mem_children.mp hchild
  obtain ⟨hdeclaration, hfunction⟩ := Node.isDeclaration_of_mem_parts hpart hc
  rcases List.mem_cons.mp hs with rfl | hs
  · exact beq_iff_eq.mpr (hfunction hkind)
  · obtain ⟨i, path, hpath⟩ := exists_cons_path hs
    have hkinds := (Node.kind_of_isDeclaration hdeclaration).1
    simp only [List.mem_cons, not_or] at hkinds
    exact absurd ((Node.isDeclaration_of_at? hkinds.1 hpath).2 hkind) hkinds.2.1

end Site

namespace Module

variable {m : Module} {text : List Char}

/-- The site of a declaration of a module. -/
def site (m : Module) (d : Declaration) : Site :=
  { node := d.toNode, field := "body", above := [.module m] }

theorem parts_root (m : Module) : ({ node := .module m } : Site).parts = m.body.map m.site := by
  rw [Site.parts, Node.parts_module, List.map_map]
  rfl

theorem span_typeDeclaration (text : List Char) (d : Declaration) :
    (Annotate.typeDeclaration text d).span = d.span := by
  cases d <;> rfl

/-- The body of a tree of a text, up to the types that are written in. -/
theorem IsTreeOf.body_eq (h : m.IsTreeOf text) : ∃ parsed, Module.parse text = .ok parsed ∧
    (m.body = parsed.tree.body ∨
      m.body = parsed.tree.body.map (Annotate.typeDeclaration text)) := by
  obtain ⟨parsed, hparse, rfl | ⟨path, importer, tables, hannotate, htree⟩⟩ := h
  · exact ⟨parsed, hparse, .inl rfl⟩
  · rw [tree_of_annotate hannotate] at htree
    cases htree
    exact ⟨parsed, hparse, .inr rfl⟩

/-- The target of a variable is a name; other declarations have none. -/
def NamedTarget : Declaration → Prop
  | .var v => ∃ span id, v.target = .name span id
  | _ => True

/-- Every variable of a module is declared under a name. -/
theorem IsTreeOf.namedTarget (h : m.IsTreeOf text) : ∀ d ∈ m.body, NamedTarget d := by
  obtain ⟨parsed, hparse, hbody⟩ := h.body_eq
  have htargets : ∀ d ∈ parsed.tree.body, NamedTarget d := by
    intro d hd
    have hregular := ((regular_of_parse hparse).module d hd).self
    cases d with
    | var v => exact hregular.1
    | _ => trivial
  rcases hbody with hbody | hbody
  · rwa [hbody]
  · rw [hbody]
    intro d hd
    obtain ⟨raw, hraw, rfl⟩ := List.mem_map.mp hd
    have hraw := htargets raw hraw
    cases raw with
    | var v => exact hraw
    | _ => trivial

theorem IsTreeOf.pairwise_body (h : m.IsTreeOf text) :
    m.body.Pairwise fun a b => a.span.start ≤ b.span.start := by
  obtain ⟨parsed, hparse, hbody⟩ := h.body_eq
  have hpairs := List.pairwise_map.mp (row_of_parse hparse).pairwise_start
  rcases hbody with hbody | hbody
  · rw [hbody]
    exact hpairs
  · rw [hbody, List.pairwise_map]
    exact hpairs.imp fun {a b} hab => by rwa [span_typeDeclaration, span_typeDeclaration]

theorem IsTreeOf.children (h : m.IsTreeOf text) :
    ({ node := .module m } : Site).children = m.body.map m.site := by
  rw [Site.children, parts_root, List.mergeSort_of_pairwise]
  exact List.pairwise_map.mpr h.pairwise_body

end Module

namespace Tree

variable {m : Module} {text : List Char}

/-- What is looked for in a tree and is never below a declaration is found in the body. -/
theorem filter_sites (h : m.IsTreeOf text) {p : Site → Bool}
    (hp : ∀ c s : Site, c.kind ≠ .module → s ∈ c.descendants → p s = false) :
    (ofModule m text).sites.filter p = (m.body.map m.site).filter p := by
  have hbelow : ∀ d : Declaration, (m.site d).descendants.filter p = [] := by
    intro d
    rw [List.filter_eq_nil_iff]
    intro s hs
    rw [hp (m.site d) s (Node.kind_declaration d) hs]
    exact Bool.false_ne_true
  rw [sites_eq]
  change List.filter p (Site.descendants { node := .module m }) = _
  rw [Site.descendants_eq, h.children, List.filter_flatMap, List.flatMap_map]
  induction m.body with
  | nil => rfl
  | cons d ds ih =>
    rw [List.flatMap_cons, List.map_cons, ih, List.filter_cons, List.filter_cons, hbelow]
    split <;> rfl

/-- The body of a tree is the body of its module. -/
theorem body_ofModule (m : Module) (text : List Char) :
    (ofModule m text).body = m.body.map m.site := by
  change (Site.parts { node := .module m }).filter _ = _
  rw [Module.parts_root, List.filter_map, List.filter_eq_self.mpr]
  exact fun d _ => rfl

end Tree

namespace Module.IsTreeOf

variable {m : Module} {text : List Char} {d : Declaration} {p : Site → Bool} (h : m.IsTreeOf text)
include h

theorem mem_sites (hd : d ∈ m.body) : m.site d ∈ (Tree.ofModule m text).sites := by
  rw [Tree.sites_eq]
  change m.site d ∈ Site.descendants { node := .module m }
  rw [Site.descendants_eq, h.children]
  exact List.mem_flatMap.mpr ⟨m.site d, List.mem_map_of_mem hd, List.mem_cons_self⟩

/-- What is not found below declarations is a declaration. -/
theorem exists_of_mem_sites
    (hbelow : ∀ c s : Site, c.kind ≠ .module → s ∈ c.descendants → p s = false) {s : Site}
    (hs : s ∈ (Tree.ofModule m text).sites) (hp : p s = true) : ∃ d ∈ m.body, s = m.site d := by
  have hmem : s ∈ (Tree.ofModule m text).sites.filter p := List.mem_filter.mpr ⟨hs, hp⟩
  rw [Tree.filter_sites h hbelow] at hmem
  obtain ⟨d, hd, rfl⟩ := List.mem_map.mp (List.mem_filter.mp hmem).1
  exact ⟨d, hd, rfl⟩

end Module.IsTreeOf

end Vyper
