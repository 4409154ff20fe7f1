import Vyper.Proofs.Placement.Source
import Vyper.Editor.Query

/-!
# Document order

In a well placed tree the children of a site come one behind the other, and a walk down comes to
every node in the order of the text, but for functions: they come before their decorators
(`Site.pairwise_descendants`). What an editor asks of its best tree comes in that order, whatever it
asks for (`Analysis.select_in_document_order`).
-/

namespace Vyper

namespace Node

variable {P : Token → Prop} {n c : Node}

/-- A part lies between where its node begins, decorators included, and where the node ends. -/
theorem WellPlaced.around_part {part : String × Node} (h : n.WellPlaced P)
    (hpart : part ∈ n.parts) : n.front ≤ part.2.front ∧ part.2.span.stop ≤ n.span.stop := by
  have hn := h.placed
  by_cases hlabel : part.1 = "decorator_list"
  · obtain ⟨hfront, hstop⟩ := hn.before part hpart hlabel
    exact ⟨hfront, le_trans hstop hn.start_le⟩
  · obtain ⟨hfront, hstop⟩ := hn.inside part hpart hlabel
    exact ⟨le_trans hn.front_le hfront, hstop⟩

theorem WellPlaced.around {path : List Nat} (h : n.WellPlaced P) (hc : n.at? path = some c) :
    n.front ≤ c.front ∧ c.span.stop ≤ n.span.stop := by
  induction path generalizing n with
  | nil =>
    cases hc
    exact ⟨le_rfl, le_rfl⟩
  | cons i path ih =>
    obtain ⟨field, part, hpart, hc⟩ := at?_cons_eq_some hc
    have hmem := List.mem_of_getElem? hpart
    obtain ⟨hfront, hstop⟩ := h.around_part hmem
    obtain ⟨hfront', hstop'⟩ := ih (h.part hmem) hc
    exact ⟨le_trans hfront hfront', le_trans hstop' hstop⟩

/-- Everything below a node is smaller and not empty. -/
theorem WellPlaced.below {i : Nat} {path : List Nat} (h : n.WellPlaced P)
    (hc : n.at? (i :: path) = some c) : sizeOf c < sizeOf n ∧ c.span.start < c.span.stop := by
  induction path generalizing n i with
  | nil =>
    obtain ⟨field, part, hpart, hc⟩ := at?_cons_eq_some hc
    cases hc
    have hmem := List.mem_of_getElem? hpart
    exact ⟨sizeOf_lt_of_mem_parts hmem, h.placed.nonempty _ hmem⟩
  | cons j path ih =>
    obtain ⟨field, part, hpart, hc⟩ := at?_cons_eq_some hc
    have hmem := List.mem_of_getElem? hpart
    obtain ⟨hsize, hlt⟩ := ih (h.part hmem) hc
    exact ⟨hsize.trans (sizeOf_lt_of_mem_parts hmem), hlt⟩

/-- Only functions have decorators. -/
theorem kind_of_decorator {part : String × Node} (hpart : part ∈ n.parts)
    (hlabel : part.1 = "decorator_list") : n.kind = .function := by
  cases n with
  | function f => rfl
  | module m =>
    rw [parts_module] at hpart
    obtain ⟨d, -, rfl⟩ := List.mem_map.mp hpart
    simp at hlabel
  | _ => exact absurd hlabel (label_ne_of_isPlain rfl part hpart)

theorem front_of_kind_ne (h : n.kind ≠ .function) : n.front = n.span.start := by
  cases n with
  | function f => exact absurd rfl h
  | _ => rfl

/-- A module, and what only a module has among its parts. -/
def isDeclaration : Node → Bool
  | .module _ | .var _ | .members _ | .interface _ | .importing _ | .importFrom _ | .clause _ =>
      true
  | _ => false

def isFunction : Node → Bool
  | .function _ => true
  | _ => false

theorem isDeclaration_toNode (target : LoopTarget) :
    target.toNode.isDeclaration = false ∧ target.toNode.isFunction = false := by
  cases target <;> exact ⟨rfl, rfl⟩

theorem isDeclaration_item (item : InterfaceItem) : item.toNode.isDeclaration = false := by
  cases item <;> rfl

theorem kind_of_isDeclaration (h : n.isDeclaration = false) :
    n.kind ∉ [Kind.module, .interface, .var, .struct, .flag, .event] ∧
      (n.kind = .function → n.isFunction = true) := by
  cases n with
  | module | var | members | interface | importing | importFrom | clause => cases h
  | expr e =>
    cases e with
    | numeral span form text => cases form <;> simp [kind, Expr.kind, Numeral.toKind]
    | _ => simp [kind, Expr.kind]
  | stmt s => cases s <;> simp [kind, Stmt.kind]
  | _ => simp [kind, isFunction]

theorem mem_partsOf {label : String} {v : FieldValue} {part : String × Node}
    (h : part ∈ partsOf label v) : v = .node part.2 ∨ ∃ ms, v = .nodes ms ∧ part.2 ∈ ms := by
  cases v with
  | node m =>
    cases List.mem_singleton.mp h
    exact .inl rfl
  | nodes ms =>
    obtain ⟨m, hm, rfl⟩ := List.mem_map.mp h
    exact .inr ⟨ms, rfl, hm⟩
  | text | flag => cases h

/-- Declarations stand in modules alone, but for functions, and these in interfaces. -/
theorem isDeclaration_of_mem_parts {part : String × Node} (hpart : part ∈ n.parts)
    (hmodule : n.kind ≠ .module) :
    part.2.isDeclaration = false ∧ (part.2.kind = .function → n.kind = .interface) := by
  obtain ⟨⟨label, v⟩, hv, hpart⟩ := List.mem_flatMap.mp hpart
  have hnode := mem_partsOf hpart
  have hboth : part.2.isDeclaration = false ∧ (part.2.isFunction = true → n.kind = .interface) := by
    cases n with
    | module m => exact absurd rfl hmodule
    | expr e =>
      cases e <;> simp [fields, Expr.fields, FieldValue.exprs] at hv <;>
        grind [isDeclaration, isFunction]
    | stmt s =>
      cases s <;>
        simp [fields, Stmt.fields, FieldValue.stmts, FieldValue.expr?, FieldValue.text?] at hv <;>
        grind [isDeclaration, isFunction, isDeclaration_toNode]
    | _ =>
      simp [fields, FieldValue.exprs, FieldValue.stmts, FieldValue.expr?, FieldValue.text?] at hv
      grind [kind, isDeclaration, isFunction, isDeclaration_item]
  exact ⟨hboth.1, fun hkind => hboth.2 ((kind_of_isDeclaration hboth.1).2 hkind)⟩

theorem isDeclaration_of_at? {i : Nat} {path : List Nat} (hmodule : n.kind ≠ .module)
    (hc : n.at? (i :: path) = some c) :
    c.isDeclaration = false ∧ (c.kind = .function → n.kind = .interface) := by
  induction path generalizing n i with
  | nil =>
    obtain ⟨field, part, hpart, hc⟩ := at?_cons_eq_some hc
    cases hc
    exact isDeclaration_of_mem_parts (List.mem_of_getElem? hpart) hmodule
  | cons j path ih =>
    obtain ⟨field, part, hpart, hc⟩ := at?_cons_eq_some hc
    have hpart := isDeclaration_of_mem_parts (List.mem_of_getElem? hpart) hmodule
    have hkinds := (kind_of_isDeclaration hpart.1).1
    simp only [List.mem_cons, not_or] at hkinds
    obtain ⟨hdeclaration, hfunction⟩ := ih hkinds.1 hc
    exact ⟨hdeclaration, fun hkind => absurd (hfunction hkind) hkinds.2.1⟩

/-- No function stands in another one. -/
theorem kind_ne_function {i : Nat} {path : List Nat} (hn : n.kind = .function)
    (hc : n.at? (i :: path) = some c) : c.kind ≠ .function := by
  intro hkind
  have hinterface := (isDeclaration_of_at? (by rw [hn]; decide) hc).2 hkind
  rw [hn] at hinterface
  cases hinterface

end Node

namespace Site

variable {P : Token → Prop} {s c d e : Site}

theorem mem_children : c ∈ s.children ↔ ∃ part ∈ s.node.parts,
    c = { node := part.2, field := part.1, above := s.node :: s.above } := by
  rw [children, List.mem_mergeSort, parts, List.mem_map]
  exact exists_congr fun part => and_congr_right fun _ => eq_comm

/-- The children of a site are one behind the other. -/
theorem pairwise_children (h : s.node.WellPlaced P) :
    s.children.Pairwise fun a b => a.span.stop ≤ b.node.front := by
  have hsorted : s.children.Pairwise fun a b => a.span.start ≤ b.span.start := by
    refine List.pairwise_mergeSort (fun a b c hab hbc => ?_) (fun a b => ?_) s.parts
    · exact le_trans (show a.span.start ≤ b.span.start from hab) hbc
    · exact Bool.or_eq_true_iff.mpr (le_total a.span.start b.span.start)
  have hapart : s.children.Pairwise fun a b => a.node.Apart b.node := by
    refine List.Pairwise.perm ?_ (List.mergeSort_perm s.parts _).symm Or.symm
    exact List.pairwise_map.mpr h.placed.apart
  refine (hsorted.and hapart).imp_of_mem ?_
  rintro a b ha hb ⟨hle, hapart⟩
  obtain ⟨part, hpart, rfl⟩ := mem_children.mp ha
  obtain ⟨part', hpart', rfl⟩ := mem_children.mp hb
  rcases hapart with hbehind | hbefore
  · exact hbehind
  · -- The other way round, the second one would start before the first.
    have hfront := (h.part hpart).placed.front_le
    have hlt := h.placed.nonempty part' hpart'
    exact absurd (show part'.2.span.start < part.2.span.start by order) (not_lt_of_ge hle)

/-- The span of a site is around its children, decorators apart, and they do not overlap. -/
theorem nested (h : s.node.WellPlaced P) :
    s.span.start ≤ s.span.stop ∧
    (∀ c ∈ s.children,
      if c.isField .function "decorator_list" then c.span.stop ≤ s.span.start
      else s.span.start ≤ c.span.start ∧ c.span.stop ≤ s.span.stop) ∧
    s.children.Pairwise fun a b => a.span.stop ≤ b.span.start := by
  have hs := h.placed
  refine ⟨hs.start_le, fun c hc => ?_, ?_⟩
  · obtain ⟨part, hpart, rfl⟩ := mem_children.mp hc
    split
    · next hdecorator =>
      simp only [isField, Bool.and_eq_true, beq_iff_eq] at hdecorator
      exact (hs.before part hpart hdecorator.1).2
    · next hdecorator =>
      have hlabel : part.1 ≠ "decorator_list" := by
        intro hlabel
        have hkind := Node.kind_of_decorator hpart hlabel
        simp [isField, parent?, hlabel, hkind] at hdecorator
      obtain ⟨hfront, hstop⟩ := hs.inside part hpart hlabel
      exact ⟨le_trans hfront (h.part hpart).placed.front_le, hstop⟩
  · refine (pairwise_children h).imp_of_mem fun {a b} _ hb hab => ?_
    obtain ⟨part, hpart, rfl⟩ := mem_children.mp hb
    exact le_trans hab (h.part hpart).placed.front_le

theorem exists_cons_path (h : d ∈ s.descendants) :
    ∃ i path, s.node.at? (i :: path) = some d.node := by
  rw [descendants_eq, List.mem_flatMap] at h
  obtain ⟨c, hc, hd⟩ := h
  obtain ⟨⟨field, part⟩, hpart, rfl⟩ := mem_children.mp hc
  obtain ⟨i, hi⟩ := List.mem_iff_getElem?.mp hpart
  rcases List.mem_cons.mp hd with rfl | hd
  · exact ⟨i, [], Node.at?_cons hi []⟩
  · obtain ⟨path, hpath⟩ := exists_path hd
    exact ⟨i, path, (Node.at?_cons hi path).trans hpath⟩

/-- Two sites of which the first ends before the second begins. -/
structure Before (P : Token → Prop) (d e : Site) : Prop where
  start_lt : d.span.start < d.span.stop
  stop_le : d.span.stop ≤ e.node.front
  placed : e.node.WellPlaced P
  nonempty : e.span.start < e.span.stop

/-- A walk down comes to a site before what is below it, and to everything below one child before
the next child. -/
theorem pairwise_descendants {s : Site} {R : Site → Site → Prop} (h : s.node.WellPlaced P)
    (hbelow : ∀ c d, c.node.WellPlaced P → d ∈ c.descendants → R c d)
    (hbefore : ∀ d e, Before P d e → R d e) : s.descendants.Pairwise R := by
  have hchild : ∀ c ∈ s.children, c.node.WellPlaced P ∧ c.span.start < c.span.stop := by
    intro c hc
    obtain ⟨part, hpart, rfl⟩ := mem_children.mp hc
    exact ⟨h.part hpart, h.placed.nonempty part hpart⟩
  have hinside : ∀ c ∈ s.children, ∀ d ∈ c :: c.descendants,
      c.node.front ≤ d.node.front ∧ d.span.stop ≤ c.span.stop ∧ d.node.WellPlaced P ∧
        d.span.start < d.span.stop := by
    intro c hc d hd
    obtain ⟨hplaced, hlt⟩ := hchild c hc
    rcases List.mem_cons.mp hd with rfl | hd
    · exact ⟨le_rfl, le_rfl, hplaced, hlt⟩
    · obtain ⟨i, path, hpath⟩ := exists_cons_path hd
      obtain ⟨hfront, hstop⟩ := hplaced.around hpath
      exact ⟨hfront, hstop, hplaced.at? hpath, (hplaced.below hpath).2⟩
  rw [descendants_eq, List.pairwise_flatMap]
  constructor
  · intro c hc
    have hlt := sizeOf_node_lt_of_mem_children hc
    have hplaced := (hchild c hc).1
    exact .cons (fun d hd => hbelow c d hplaced hd) (pairwise_descendants hplaced hbelow hbefore)
  · refine (pairwise_children h).imp_of_mem fun {a b} ha hb hab d hd e he => ?_
    obtain ⟨-, hstop, -, hlt⟩ := hinside a ha d hd
    obtain ⟨hfront, -, hplaced, hnonempty⟩ := hinside b hb e he
    exact hbefore d e ⟨hlt, by order, hplaced, hnonempty⟩
termination_by sizeOf s.node

/-- Nothing is come to twice. -/
theorem nodup_descendants (h : s.node.WellPlaced P) : (s.descendants.map (·.node)).Nodup := by
  refine List.pairwise_map.mpr (pairwise_descendants h ?_ ?_)
  · intro c d hc hd heq
    obtain ⟨i, path, hpath⟩ := exists_cons_path hd
    have hsize := (hc.below hpath).1
    rw [heq] at hsize
    exact Nat.lt_irrefl _ hsize
  · intro d e hde heq
    have hstop := hde.stop_le
    have hfront : e.node.front ≤ e.span.start := hde.placed.placed.front_le
    have hlt := hde.nonempty
    have hsame : d.span.stop = e.span.stop := congrArg (·.span.stop) heq
    order

/-- Nodes of one kind come in the order of the text, and so do nodes of several kinds if functions
are not among them. -/
theorem pairwise_start {kinds : List Kind} (h : s.node.WellPlaced P)
    (hkinds : .function ∉ kinds ∨ ∃ kind, kinds = [kind]) :
    s.descendants.Pairwise fun d e =>
      d.kind ∈ kinds → e.kind ∈ kinds → d.span.start ≤ e.span.start := by
  refine pairwise_descendants h ?_ ?_
  · intro c d hc hd hckind hdkind
    obtain ⟨i, path, hpath⟩ := exists_cons_path hd
    by_cases hfunction : c.kind = .function
    · -- Only functions are asked for, and there is none in another one.
      rcases hkinds with hnot | ⟨kind, rfl⟩
      · exact absurd (hfunction ▸ hckind) hnot
      · rw [List.mem_singleton] at hckind hdkind
        have hne := Node.kind_ne_function hfunction hpath
        exact absurd ((hdkind.trans hckind.symm).trans hfunction) hne
    · have hfront : c.node.front = c.span.start := Node.front_of_kind_ne hfunction
      obtain ⟨haround, -⟩ := hc.around hpath
      have hle : d.node.front ≤ d.span.start := (hc.at? hpath).placed.front_le
      order
  · intro d e hde _ _
    have hlt := hde.start_lt
    have hstop := hde.stop_le
    have hfront : e.node.front ≤ e.span.start := hde.placed.placed.front_le
    order

end Site

namespace Tree

variable {P : Token → Prop} {t : Tree} {kinds : List Kind} (filter : Filter)

theorem pairwise_select (h : t.root.node.WellPlaced P)
    (hkinds : .function ∉ kinds ∨ ∃ kind, kinds = [kind]) :
    (t.select kinds filter).Pairwise fun d e => d.span.start ≤ e.span.start := by
  have hpairs := Site.pairwise_start h hkinds
  rw [← t.sites_eq] at hpairs
  refine (hpairs.filter _).imp_of_mem fun {d e} hd he hde => hde ?_ ?_
  · have hd := (List.mem_filter.mp hd).2
    simp only [Bool.and_eq_true, List.contains_iff_mem] at hd
    exact hd.1
  · have he := (List.mem_filter.mp he).2
    simp only [Bool.and_eq_true, List.contains_iff_mem] at he
    exact he.1

theorem nodup_select (h : t.root.node.WellPlaced P) :
    ((t.select kinds filter).map (·.node)).Nodup := by
  have hnodup := Site.nodup_descendants h
  rw [← t.sites_eq] at hnodup
  exact hnodup.sublist (List.filter_sublist.map _)

/-- Exactly the nodes below the root that are asked for are found. -/
theorem mem_select_iff {n : Node} : n ∈ (t.select kinds filter).map (·.node) ↔
    n.kind ∈ kinds ∧ filter.admits n = true ∧ ∃ path ≠ [], t.root.node.at? path = some n := by
  simp only [select, t.sites_eq, List.mem_map, List.mem_filter, Bool.and_eq_true,
    List.contains_iff_mem]
  constructor
  · rintro ⟨d, ⟨hd, hkind, hadmits⟩, rfl⟩
    obtain ⟨i, path, hpath⟩ := Site.exists_cons_path hd
    exact ⟨hkind, hadmits, i :: path, List.cons_ne_nil i path, hpath⟩
  · rintro ⟨hkind, hadmits, path, hne, hpath⟩
    obtain ⟨d, hd, rfl⟩ := Site.exists_mem_descendants hpath hne
    exact ⟨d, ⟨hd, hkind, hadmits⟩, rfl⟩

end Tree

namespace Analysis

/-- After a text that parses was built, the best tree is a tree of that text. -/
theorem best_build {d : Document} {parsed : Parsed} (hparse : Module.parse d.text = .ok parsed)
    (a : Analysis) (files : FileSystem) (workingDirectory : Option Path) :
    ∃ m : Module, m.IsTreeOf d.text ∧
      (a.build (.builtIn files) d workingDirectory).1.best = .ofModule m d.text := by
  let search := d.searchPaths workingDirectory
  let c : Compilation :=
    { raw := parsed.tree
      annotated := parsed.tree.annotate d.text none (.fromFiles files search)
      folded := (parsed.tree.annotate d.text none (.fromFiles files search)).toOption.bind
        fun m => m.tree.map Module.fold
      warnings := parsed.notes.map (·.message) }
  have hfrontend : Frontend.builtIn files d.text search = .ok c := by
    rw [Frontend.builtIn, hparse]
    rfl
  have hbuild : (a.build (.builtIn files) d workingDirectory).1 = a.install d.text c := by
    rw [build, hfrontend]
  rw [hbuild, install]
  split
  · next tables hannotated =>
    have htree := Module.tree_of_annotate hannotated
    refine ⟨_, ⟨parsed, hparse, .inr ⟨none, _, tables, hannotated, htree⟩⟩, ?_⟩
    simp [best, bestVariant?, TreeVariant.preference, tree?, htree]
  · refine ⟨parsed.tree, ⟨parsed, hparse, .inl rfl⟩, ?_⟩
    simp [best, bestVariant?, TreeVariant.preference, tree?, c]

/-- In every tree of a text that parses, spans are around the spans of the children, decorators
apart, and the children are one behind the other. So whatever nodes an editor asks for in its best
tree, it finds each once, in the order of the text: of any one kind, or of any kinds but functions.
-/
theorem select_in_document_order {d : Document} {parsed : Parsed}
    (hparse : Module.parse d.text = .ok parsed) :
    (∀ m : Module, m.IsTreeOf d.text →
      ∀ s ∈ (Tree.ofModule m d.text).root :: (Tree.ofModule m d.text).sites,
        s.span.start ≤ s.span.stop ∧
        (∀ c ∈ s.children,
          if c.isField .function "decorator_list" then c.span.stop ≤ s.span.start
          else s.span.start ≤ c.span.start ∧ c.span.stop ≤ s.span.stop) ∧
        s.children.Pairwise fun a b => a.span.stop ≤ b.span.start) ∧
    ∀ (a : Analysis) (files : FileSystem) (workingDirectory : Option Path) (kinds : List Kind)
      (filter : Filter), .function ∉ kinds ∨ (∃ kind, kinds = [kind]) →
      let best := (a.build (.builtIn files) d workingDirectory).1.best
      let found := best.select kinds filter
      (∃ m : Module, m.IsTreeOf d.text ∧ best = .ofModule m d.text) ∧
      (∀ n, n ∈ found.map (·.node) ↔
        n.kind ∈ kinds ∧ filter.admits n ∧ ∃ path ≠ [], best.root.node.at? path = some n) ∧
      found.Pairwise (fun x y => x.span.start ≤ y.span.start) ∧ (found.map (·.node)).Nodup := by
  refine ⟨fun m hm s hs => ?_, fun a files workingDirectory kinds filter hkinds => ?_⟩
  · rcases List.mem_cons.mp hs with rfl | hs
    · exact Site.nested hm.wellPlaced
    · obtain ⟨path, hpath⟩ := Site.exists_path hs
      exact Site.nested (hm.wellPlaced.at? hpath)
  · obtain ⟨m, hm, hbest⟩ := best_build hparse a files workingDirectory
    have hplaced : (a.build (.builtIn files) d workingDirectory).1.best.root.node.WellPlaced
        (Token.Spelled d.text) := by
      rw [hbest]
      exact hm.wellPlaced
    exact ⟨⟨m, hm, hbest⟩, fun n => Tree.mem_select_iff filter,
      Tree.pairwise_select filter hplaced hkinds, Tree.nodup_select filter hplaced⟩

/-- A function behind its decorator. -/
def viewing : Document := ⟨"file:///viewing.vy", "@view\ndef f(): pass\n".toList⟩

theorem select_in_document_order_viewing :
    ∃ parsed, Module.parse viewing.text = .ok parsed ∧
      ((Node.module parsed.tree).at? [0, 0]).map Node.kind = some .name ∧
      (∀ s ∈ (Tree.ofModule parsed.tree viewing.text).sites, ∀ c ∈ s.children,
        c.isField .function "decorator_list" → c.span.stop ≤ s.span.start) ∧
      ∀ (a : Analysis) (files : FileSystem) (workingDirectory : Option Path),
        let found :=
          (a.build (.builtIn files) viewing workingDirectory).1.best.select [.function] []
        found.Pairwise (fun x y => x.span.start ≤ y.span.start) ∧ (found.map (·.node)).Nodup := by
  have hkind : ((Module.parse viewing.text).toOption.map fun parsed =>
      ((Node.module parsed.tree).at? [0, 0]).map Node.kind) = some (some .name) := by
    decide +kernel
  cases hparse : Module.parse viewing.text with
  | error e =>
    rw [hparse] at hkind
    cases hkind
  | ok parsed =>
    rw [hparse] at hkind
    obtain ⟨hnested, hselect⟩ := select_in_document_order hparse
    refine ⟨parsed, rfl, Option.some.inj hkind, fun s hs c hc hdecorator => ?_,
      fun a files workingDirectory => ?_⟩
    · have hchild := (hnested parsed.tree ⟨parsed, hparse, .inl rfl⟩ s (.tail _ hs)).2.1 c hc
      rwa [if_pos hdecorator] at hchild
    · exact (hselect a files workingDirectory [.function] [] (.inr ⟨.function, rfl⟩)).2.2

end Analysis

end Vyper
