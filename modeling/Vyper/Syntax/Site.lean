import Vyper.Syntax.Node
import Vyper.Text.Rows

/-!
# Sites

A site is a node in its place: the field it stands in and the nodes around it, nearest first. The
children of a site come in the order of the text, and `Site.descendants` lists everything below a
site, parents before their children.
-/

namespace Vyper

structure Site where
  node : Node
  /-- The field of the enclosing node that holds this one. -/
  field : String := ""
  /-- The enclosing nodes, nearest first. -/
  above : List Node := []

namespace Site

def kind (s : Site) : Kind := s.node.kind

def span (s : Site) : Span := s.node.span

def parent? (s : Site) : Option Node := s.above.head?

/-- The nearest enclosing node of a kind. -/
def ancestor? (s : Site) (kind : Kind) : Option Node := s.above.find? (·.kind == kind)

/-- Whether the site is a given field of a node of a given kind. -/
def isField (s : Site) (kind : Kind) (field : String) : Bool :=
  s.field == field && s.parent?.any (·.kind == kind)

/-- Everything one step below, in the order of the fields. -/
def parts (s : Site) : List Site :=
  s.node.parts.map fun (field, node) => { node, field, above := s.node :: s.above }

/-- Everything one step below, in the order of the text. -/
def children (s : Site) : List Site := s.parts.mergeSort fun a b => a.span.start.le b.span.start

/-- The nodes of one field. -/
def inField (s : Site) (field : String) : List Site := s.parts.filter (·.field == field)

theorem sizeOf_node_lt_of_mem_children {s c : Site} (h : c ∈ s.children) :
    sizeOf c.node < sizeOf s.node := by
  rw [children, List.mem_mergeSort, parts, List.mem_map] at h
  obtain ⟨p, hp, rfl⟩ := h
  exact Node.sizeOf_lt_of_mem_parts hp

/-- Everything below, each node before what is below it. -/
def descendants (s : Site) : List Site :=
  s.children.attach.flatMap fun ⟨c, _⟩ => c :: c.descendants
termination_by sizeOf s.node
decreasing_by
  rename_i h
  exact sizeOf_node_lt_of_mem_children h

theorem descendants_eq (s : Site) :
    s.descendants = s.children.flatMap fun c => c :: c.descendants := by
  rw [descendants]
  simp only [List.flatMap_subtype, List.unattach_attach]

end Site

/-- A tree to ask questions of: the site everything asked for lies below, the source text, and
everything below the site, laid out once. -/
structure Tree where
  root : Site
  text : List Char
  sites : List Site := root.descendants
  sites_eq : sites = root.descendants := by rfl

namespace Tree

def ofModule (m : Module) (text : List Char) : Tree where
  root := { node := .module m }
  text

/-- The tree of an empty text. -/
def empty : Tree := ofModule ⟨.point .origin, [], none⟩ []

/-- The same tree, restricted to what lies below a site. -/
def scopedTo (t : Tree) (s : Site) : Tree where
  root := s
  text := t.text

/-- The nodes of the root's body. -/
def body (t : Tree) : List Site := t.root.inField "body"

/-- The source text of a node. -/
def sourceOf (t : Tree) (n : Node) : List Char := Rows.slice t.text n.span

end Tree

end Vyper
