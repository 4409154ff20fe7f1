import Vyper.Editor.Query
import Vyper.Proofs.Margins

/-!
# Scopes

The declarations of a module share no line, so the line of anything in one of them leads back to it
(`Module.IsTreeOf.topLevelOn?_eq`). What is in a function is in a declaration that is this function,
or the interface it stands in (`Module.IsTreeOf.exists_scope`).
-/

namespace Vyper

/-! ### Spans with decorators -/

theorem Span.cover_eq_min_max (a b : Span) :
    a.cover b = ⟨min a.start b.start, max a.stop b.stop⟩ := by
  rw [min_def, max_def]
  rfl

theorem Span.foldl_cover_eq_self {span : Span} {es : List Expr}
    (h : ∀ e ∈ es, span.start ≤ e.span.start ∧ e.span.stop ≤ span.stop) :
    es.foldl (fun span e => span.cover e.span) span = span := by
  induction es with
  | nil => rfl
  | cons e es ih =>
    obtain ⟨⟨hstart, hstop⟩, hes⟩ := List.forall_mem_cons.mp h
    rw [List.foldl_cons, cover_eq_min_max, min_eq_left hstart, max_eq_left hstop, ih hes]

namespace Node

variable {P : Token → Prop} {n : Node}

/-- A declaration with its decorators goes from the first of them to its end. -/
theorem fullSpan_eq (h : n.WellPlaced P) : n.fullSpan = ⟨n.front, n.span.stop⟩ := by
  cases n with
  | function f =>
    have hbefore : ∀ e ∈ f.decorators,
        (Node.function f).front ≤ e.span.start ∧ e.span.stop ≤ f.span.start := by
      intro e he
      refine h.placed.before ("decorator_list", .expr e) ?_ rfl
      rw [parts_function]
      exact List.mem_append_left _ (List.mem_map_of_mem he)
    have hspan : f.span.start ≤ f.span.stop := h.placed.start_le
    rw [fullSpan]
    cases hds : f.decorators with
    | nil => rw [front, hds]; rfl
    | cons first others =>
      have hfront : (Node.function f).front = first.span.start := by rw [front, hds]; rfl
      rw [hds] at hbefore
      obtain ⟨⟨-, hfirst⟩, hothers⟩ := List.forall_mem_cons.mp hbefore
      have hle : (Node.function f).front ≤ f.span.start := h.placed.front_le
      -- The first decorator moves the start, the others nothing.
      have hcover : f.span.cover first.span = ⟨(Node.function f).front, f.span.stop⟩ := by
        rw [hfront] at hle ⊢
        rw [Span.cover_eq_min_max, min_eq_right hle, max_eq_left (le_trans hfirst hspan)]
      rw [List.foldl_cons, hcover]
      refine Span.foldl_cover_eq_self fun e he => ?_
      obtain ⟨hstart, hstop⟩ := hothers e he
      exact ⟨hstart, le_trans hstop hspan⟩
  | _ => rfl

theorem containsLine_fullSpan (h : n.WellPlaced P) {line : Nat} :
    n.fullSpan.containsLine line = true ↔ n.front.line ≤ line ∧ line ≤ n.span.stop.line := by
  rw [fullSpan_eq h, Span.containsLine, Bool.and_eq_true, decide_eq_true_eq, decide_eq_true_eq]

end Node

/-! ### Declarations and lines -/

theorem find?_eq_some_of_pairwise {α : Type} {p : α → Bool} {l : List α} {a : α}
    (h : l.Pairwise fun x y => ¬ (p x = true ∧ p y = true)) (ha : a ∈ l) (hp : p a = true) :
    l.find? p = some a := by
  obtain ⟨front, back, rfl⟩ := List.append_of_mem ha
  rw [List.find?_eq_some_iff_append]
  refine ⟨hp, front, back, rfl, fun x hx => ?_⟩
  have hnot := (List.pairwise_append.mp h).2.2 x hx a List.mem_cons_self
  simpa [hp] using hnot

namespace Module.IsTreeOf

variable {m : Module} {text : List Char} {d : Declaration} (h : m.IsTreeOf text)
include h

/-- No line holds parts of two declarations. -/
theorem pairwise_lines :
    m.body.Pairwise fun a b => a.toNode.span.stop.line < b.toNode.front.line := by
  obtain ⟨stream, hstream⟩ := h.exists_stream
  refine (h.opens hstream).2.imp_of_mem fun {a b} ha _ hab => ?_
  obtain ⟨x, hx, hcontent, hstop⟩ := h.closed hstream a ha
  obtain ⟨t, hbegins, hmark, -, hle, hfront⟩ := hab
  rw [hstop] at hle ⊢
  exact lt_of_lt_of_le (hbegins.stop_line_lt hstream hmark hx hcontent hle)
    (Pos.line_le_of_le hfront)

/-- A line of a declaration leads to the declaration. -/
theorem topLevelOn?_eq (hd : d ∈ m.body) {line : Nat} (hfirst : d.toNode.front.line ≤ line)
    (hlast : line ≤ d.toNode.span.stop.line) :
    (Tree.ofModule m text).topLevelOn? line = some (m.site d) := by
  have hcontains : ∀ e ∈ m.body, (m.site e).node.fullSpan.containsLine line = true ↔
      e.toNode.front.line ≤ line ∧ line ≤ e.toNode.span.stop.line :=
    fun e he => Node.containsLine_fullSpan (h.wellPlaced_declaration he)
  have hfound : ((Tree.ofModule m text).body.find? fun s =>
      s.node.fullSpan.containsLine line) = some (m.site d) := by
    rw [Tree.body_ofModule]
    refine find?_eq_some_of_pairwise ?_ (List.mem_map_of_mem hd)
      ((hcontains d hd).mpr ⟨hfirst, hlast⟩)
    refine List.pairwise_map.mpr (h.pairwise_lines.imp_of_mem ?_)
    rintro a b ha hb hab ⟨ha', hb'⟩
    have ha' := (hcontains a ha).mp ha'
    have hb' := (hcontains b hb).mp hb'
    omega
  rw [Tree.topLevelOn?, hfound]
  rfl

/-- So does the line of any place below a declaration. -/
theorem topLevelOn?_below (hd : d ∈ m.body) {s : Site} (hs : s ∈ (m.site d).descendants)
    {place : Pos} (hfront : s.node.front ≤ place) (hstop : place ≤ s.span.stop) :
    (Tree.ofModule m text).topLevelOn? place.line = some (m.site d) := by
  obtain ⟨path, hpath⟩ := Site.exists_path hs
  obtain ⟨haround, haround'⟩ := (h.wellPlaced_declaration hd).around hpath
  exact h.topLevelOn?_eq hd (Pos.line_le_of_le (le_trans haround hfront))
    (Pos.line_le_of_le (le_trans hstop haround'))

end Module.IsTreeOf

/-! ### Functions -/

/-- What is below a site is below everything the site is below. -/
theorem Site.descendants_trans {r s c : Site} (hs : s ∈ r.descendants) (hc : c ∈ s.descendants) :
    c ∈ r.descendants := by
  rw [descendants_eq, List.mem_flatMap] at hs ⊢
  obtain ⟨child, hchild, hs⟩ := hs
  have hlt := sizeOf_node_lt_of_mem_children hchild
  refine ⟨child, hchild, List.mem_cons_of_mem child ?_⟩
  rcases List.mem_cons.mp hs with rfl | hs
  · exact hc
  · exact descendants_trans hs hc
termination_by sizeOf r.node

namespace Module.IsTreeOf

variable {m : Module} {text : List Char} {f : Site} (h : m.IsTreeOf text)
include h

/-- A function of a tree is a declaration, or stands in a declaration that is an interface. -/
theorem exists_scope (hf : f ∈ (Tree.ofModule m text).sites) (hkind : f.kind = .function) :
    ∃ d ∈ m.body, (∀ s ∈ f.descendants, s ∈ (m.site d).descendants) ∧
      if f.parent?.any (·.kind == .interface) then d.toNode.kind = .interface
      else f = m.site d := by
  rw [Tree.sites_eq] at hf
  change f ∈ Site.descendants { node := .module m } at hf
  rw [Site.descendants_eq, h.children, List.mem_flatMap] at hf
  obtain ⟨top, htop, hf⟩ := hf
  obtain ⟨d, hd, rfl⟩ := List.mem_map.mp htop
  rcases List.mem_cons.mp hf with rfl | hf
  · exact ⟨d, hd, fun s hs => hs, rfl⟩
  · have hmodule := Node.kind_declaration d
    refine ⟨d, hd, fun s hs => Site.descendants_trans hf hs, ?_⟩
    rw [if_pos (Site.parent_of_function (c := m.site d) hmodule hf hkind)]
    obtain ⟨i, path, hpath⟩ := Site.exists_cons_path hf
    exact (Node.isDeclaration_of_at? hmodule hpath).2 hkind

end Module.IsTreeOf

end Vyper
