import Vyper.Syntax.Site

/-!
# Paths in a tree

A path picks one part after the other, so it names one occurrence of a node, also where equal nodes
stand in several places. The sites below a node are what its paths lead to (`Site.exists_path`,
`Site.exists_mem_descendants`).
-/

namespace Vyper

namespace Node

/-- The node at the end of a path. -/
def at? : Node → List Nat → Option Node
  | n, [] => some n
  | n, i :: path => n.parts[i]?.bind fun part => part.2.at? path

/-- The nodes around the end of a path, nearest first, each with the field the path leaves it by. -/
def trail : Node → List Nat → List (Node × String)
  | _, [] => []
  | n, i :: path =>
    match n.parts[i]? with
    | some (field, part) => part.trail path ++ [(n, field)]
    | none => []

variable {n c part : Node} {i : Nat} {field : String}

theorem at?_cons (h : n.parts[i]? = some (field, part)) (path : List Nat) :
    n.at? (i :: path) = part.at? path := by
  rw [at?, h, Option.bind_some]

theorem trail_cons (h : n.parts[i]? = some (field, part)) (path : List Nat) :
    n.trail (i :: path) = part.trail path ++ [(n, field)] := by
  rw [trail, h]

theorem at?_cons_eq_some {path : List Nat} (h : n.at? (i :: path) = some c) :
    ∃ field part, n.parts[i]? = some (field, part) ∧ part.at? path = some c := by
  obtain ⟨⟨field, part⟩, hpart, hc⟩ := Option.bind_eq_some_iff.mp h
  exact ⟨field, part, hpart, hc⟩

theorem at?_append {p : List Nat} (h : n.at? p = some c) (q : List Nat) :
    n.at? (p ++ q) = c.at? q := by
  induction p generalizing n with
  | nil =>
    cases h
    rfl
  | cons i p ih =>
    obtain ⟨field, part, hpart, hc⟩ := at?_cons_eq_some h
    rw [List.cons_append, at?_cons hpart, ih hc]

theorem trail_append {p : List Nat} (h : n.at? p = some c) (q : List Nat) :
    n.trail (p ++ q) = c.trail q ++ n.trail p := by
  induction p generalizing n with
  | nil =>
    cases h
    exact (List.append_nil _).symm
  | cons i p ih =>
    obtain ⟨field, part, hpart, hc⟩ := at?_cons_eq_some h
    rw [List.cons_append, trail_cons hpart, trail_cons hpart, ih hc, List.append_assoc]

/-- A path that takes a step has a nearest enclosing node. -/
theorem trail_ne_nil {path : List Nat} (h : n.at? path = some c) (hne : path ≠ []) :
    n.trail path ≠ [] := by
  cases path with
  | nil => exact absurd rfl hne
  | cons i path =>
    obtain ⟨field, part, hpart, -⟩ := at?_cons_eq_some h
    rw [trail_cons hpart]
    exact List.append_ne_nil_of_right_ne_nil _ (List.cons_ne_nil _ _)

/-- What holds of a node, and at every place below its parts, holds everywhere in it. -/
theorem forall_at? {P : Node → Prop} {n : Node} (hn : P n)
    (hparts : ∀ part ∈ n.parts, ∀ path c, part.2.at? path = some c → P c) :
    ∀ path c, n.at? path = some c → P c := by
  intro path c h
  cases path with
  | nil =>
    cases h
    exact hn
  | cons i path =>
    obtain ⟨field, part, hpart, hc⟩ := at?_cons_eq_some h
    exact hparts _ (List.mem_of_getElem? hpart) path c hc

theorem forall_at?_of_leaf {P : Node → Prop} {n : Node} (hparts : n.parts = []) (hn : P n) :
    ∀ path c, n.at? path = some c → P c :=
  forall_at? hn (by simp [hparts])

theorem parts_module (m : Module) :
    (Node.module m).parts = m.body.map fun d => ("body", d.toNode) := by
  obtain ⟨span, body, doc⟩ := m
  cases doc <;> simp [parts, fields, partsOf, FieldValue.text?, Function.comp_def]

end Node

/-! ### Everything in a node -/

namespace Node

/-- A property of a node and of everything in it. -/
def Throughout (P : Node → Prop) (n : Node) : Prop := ∀ path c, n.at? path = some c → P c

variable {P : Node → Prop} {n : Node} {l : List Node}

/-- A node made of parts that have the property. -/
theorem Throughout.join (hl : ∀ m ∈ l, m.Throughout P) (hperm : l.Perm (n.parts.map (·.2)))
    (hn : P n) : n.Throughout P :=
  forall_at? hn fun part hpart => hl part.2 (hperm.mem_iff.mpr (List.mem_map_of_mem hpart))

theorem Throughout.self (h : n.Throughout P) : P n := h [] n rfl

theorem Throughout.at? {path : List Nat} {c : Node} (h : n.Throughout P)
    (hc : n.at? path = some c) : c.Throughout P :=
  fun rest d hd => h (path ++ rest) d ((at?_append hc rest).trans hd)

theorem Throughout.part {part : String × Node} (h : n.Throughout P) (hpart : part ∈ n.parts) :
    part.2.Throughout P := by
  obtain ⟨i, hi⟩ := List.mem_iff_getElem?.mp hpart
  exact h.at? (at?_cons hi [])

theorem Throughout.node (h : n.Throughout P) {label : String} {m : Node}
    (hm : (label, .node m) ∈ n.fields) : m.Throughout P := by
  have hpart : (label, m) ∈ n.parts := List.mem_flatMap.mpr ⟨_, hm, List.mem_singleton_self _⟩
  exact h.part hpart

theorem Throughout.nodes (h : n.Throughout P) {label : String} {ms : List Node}
    (hms : (label, .nodes ms) ∈ n.fields) : ∀ m ∈ ms, m.Throughout P := by
  intro m hm
  have hpart : (label, m) ∈ n.parts := List.mem_flatMap.mpr ⟨_, hms, List.mem_map_of_mem hm⟩
  exact h.part hpart

theorem Throughout.exprs (h : n.Throughout P) {label : String} {es : List Expr}
    (hes : (label, .exprs es) ∈ n.fields) : ∀ e ∈ es, (expr e).Throughout P :=
  List.forall_mem_map.mp (h.nodes hes)

theorem Throughout.stmts (h : n.Throughout P) {label : String} {ss : List Stmt}
    (hss : (label, .stmts ss) ∈ n.fields) : ∀ s ∈ ss, (stmt s).Throughout P :=
  List.forall_mem_map.mp (h.nodes hss)

theorem Throughout.module {m : Module} (h : (module m).Throughout P) :
    ∀ d ∈ m.body, d.toNode.Throughout P :=
  List.forall_mem_map.mp (h.nodes List.mem_cons_self)

end Node

/-- Every site below another one lies at the end of a path. -/
theorem Site.exists_path {r s : Site} (h : s ∈ r.descendants) :
    ∃ path, r.node.at? path = some s.node := by
  rw [descendants_eq, List.mem_flatMap] at h
  obtain ⟨c, hc, hs⟩ := h
  have hlt := sizeOf_node_lt_of_mem_children hc
  rw [children, List.mem_mergeSort, parts, List.mem_map] at hc
  obtain ⟨⟨field, part⟩, hpart, rfl⟩ := hc
  obtain ⟨i, hi⟩ := List.mem_iff_getElem?.mp hpart
  rcases List.mem_cons.mp hs with rfl | hs
  · exact ⟨[i], Node.at?_cons hi []⟩
  · obtain ⟨path, hpath⟩ := exists_path hs
    exact ⟨i :: path, (Node.at?_cons hi path).trans hpath⟩
termination_by sizeOf r.node

/-- At the end of every path that takes a step lies a site below the first one. -/
theorem Site.exists_mem_descendants {r : Site} {path : List Nat} {c : Node}
    (h : r.node.at? path = some c) (hne : path ≠ []) : ∃ s ∈ r.descendants, s.node = c := by
  induction path generalizing r with
  | nil => exact absurd rfl hne
  | cons i path ih =>
    obtain ⟨field, part, hpart, hc⟩ := Node.at?_cons_eq_some h
    let child : Site := { node := part, field, above := r.node :: r.above }
    have hchild : child ∈ r.children := by
      rw [children, List.mem_mergeSort, parts]
      exact List.mem_map_of_mem (List.mem_of_getElem? hpart)
    rw [descendants_eq]
    cases path with
    | nil =>
      cases hc
      exact ⟨child, List.mem_flatMap.mpr ⟨child, hchild, List.mem_cons_self⟩, rfl⟩
    | cons j path =>
      obtain ⟨s, hs, hnode⟩ := ih (r := child) hc (List.cons_ne_nil j path)
      exact ⟨s, List.mem_flatMap.mpr ⟨child, hchild, List.mem_cons_of_mem child hs⟩, hnode⟩

end Vyper
