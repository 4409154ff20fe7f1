import Vyper.Proofs.Paths
import Mathlib.Order.Defs.LinearOrder
import Mathlib.Tactic.Order

/-!
# Nodes in their places

`Node.Row` lines nodes up between two places, each behind the one before it. A node is well placed
(`Node.WellPlaced`) if, here and everywhere below, its parts line up inside its span and its
decorators in front of it. A leaf that is one token of the text has to be a token with a property
`P`, which is left open here, and so has the name of a member.
-/

namespace Vyper

namespace Pos

theorem le_iff (a b : Pos) : a ≤ b ↔ a.line < b.line ∨ a.line = b.line ∧ a.col ≤ b.col := by
  change a.le b = true ↔ _
  simp [le]

instance : LinearOrder Pos :=
  { (inferInstance : LE Pos) with
    le_refl := fun a => (le_iff a a).mpr (by omega)
    le_trans := fun a b c hab hbc => by
      rw [le_iff] at *
      omega
    le_antisymm := fun a b hab hba => by
      obtain ⟨line, col⟩ := a
      obtain ⟨line', col'⟩ := b
      simp only [le_iff, mk.injEq] at *
      omega
    le_total := fun a b => by
      rw [le_iff, le_iff]
      omega
    toDecidableLE := inferInstance }

end Pos

namespace Span

variable {a b : Span} {lo mid : Pos}

theorem cover_eq (hstart : a.start ≤ b.start) (hstop : a.stop ≤ b.stop) :
    a.cover b = ⟨a.start, b.stop⟩ := by
  rw [cover, Pos.min, Pos.max, if_pos hstart, if_pos hstop]

theorem cover_self (a : Span) : a.cover a = a := by
  rw [cover_eq le_rfl le_rfl]

/-- A span that is not empty begins at a place or behind it. -/
structure Behind (lo : Pos) (span : Span) : Prop where
  le_start : lo ≤ span.start
  start_lt : span.start < span.stop

end Span

namespace Node

/-- Where a node begins, decorators included. -/
def front : Node → Pos
  | .function f => (f.decorators.head?.map (·.span.start)).getD f.span.start
  | n => n.span.start

/-- The token a leaf stands for. -/
def token? : Node → Option Token
  | .expr (.name span id) => some ⟨.name id, span⟩
  | .expr (.numeral span form text) => some ⟨.numeral form text, span⟩
  | .expr (.truth span value) => some ⟨.name (if value then "True" else "False"), span⟩
  | _ => none

/-- An access goes from the start of its value to the end of the name of the member. -/
def Accessed (P : Token → Prop) : Node → Prop
  | .expr (.member span value attr) =>
    span.start = value.span.start ∧ ∃ place, P ⟨.name attr, place⟩ ∧ span.stop = place.stop
  | _ => True

/-- One of two nodes lies behind the other. -/
def Apart (a b : Node) : Prop := a.span.stop ≤ b.front ∨ b.span.stop ≤ a.front

/-- The parts of a node do not overlap. Its span is around them, but for decorators: they stand in
front of it. -/
structure Placed (P : Token → Prop) (n : Node) : Prop where
  front_le : n.front ≤ n.span.start
  start_le : n.span.start ≤ n.span.stop
  nonempty : ∀ part ∈ n.parts, part.2.span.start < part.2.span.stop
  apart : n.parts.Pairwise fun a b => a.2.Apart b.2
  inside : ∀ part ∈ n.parts, part.1 ≠ "decorator_list" →
    n.span.start ≤ part.2.front ∧ part.2.span.stop ≤ n.span.stop
  before : ∀ part ∈ n.parts, part.1 = "decorator_list" →
    n.front ≤ part.2.front ∧ part.2.span.stop ≤ n.span.start
  token : ∀ t, n.token? = some t → P t
  access : n.Accessed P

/-- A node and everything below it is in its place. -/
def WellPlaced (P : Token → Prop) (n : Node) : Prop := ∀ path c, n.at? path = some c → c.Placed P

/-- Nodes in their places, none of them empty, one behind the other between two places. -/
def Row (P : Token → Prop) : Pos → List Node → Pos → Prop
  | lo, [], hi => lo ≤ hi
  | lo, n :: ns, hi =>
    n.WellPlaced P ∧ lo ≤ n.front ∧ n.span.start < n.span.stop ∧ Row P n.span.stop ns hi

variable {P : Token → Prop} {n : Node} {ns ms : List Node} {lo mid hi : Pos}

theorem WellPlaced.placed (h : n.WellPlaced P) : n.Placed P := h [] n rfl

theorem WellPlaced.part {part : String × Node} (h : n.WellPlaced P) (hpart : part ∈ n.parts) :
    part.2.WellPlaced P :=
  Throughout.part h hpart

theorem WellPlaced.at? {path : List Nat} {c : Node} (h : n.WellPlaced P)
    (hc : n.at? path = some c) : c.WellPlaced P :=
  Throughout.at? h hc

/-! ### Rows -/

theorem Row.le (h : Row P lo ns hi) : lo ≤ hi := by
  induction ns generalizing lo with
  | nil => exact h
  | cons n ns ih =>
    obtain ⟨hn, hlo, hlt, hrow⟩ := h
    have hfront := hn.placed.front_le
    have hle := ih hrow
    order

theorem Row.mono {lo' hi' : Pos} (h : Row P lo ns hi) (hlo : lo' ≤ lo) (hhi : hi ≤ hi') :
    Row P lo' ns hi' := by
  induction ns generalizing lo lo' with
  | nil =>
    have hle : lo ≤ hi := h
    change lo' ≤ hi'
    order
  | cons n ns ih =>
    obtain ⟨hn, hfront, hlt, hrow⟩ := h
    exact ⟨hn, le_trans hlo hfront, hlt, ih hrow le_rfl⟩

theorem Row.append (h : Row P lo ns mid) (h' : Row P mid ms hi) : Row P lo (ns ++ ms) hi := by
  induction ns generalizing lo with
  | nil => exact h'.mono h le_rfl
  | cons n ns ih =>
    obtain ⟨hn, hfront, hlt, hrow⟩ := h
    exact ⟨hn, hfront, hlt, ih hrow⟩

theorem Row.sublist (h : Row P lo ns hi) (hsub : ms.Sublist ns) : Row P lo ms hi := by
  induction hsub generalizing lo with
  | slnil => exact h
  | cons n _ ih =>
    obtain ⟨hn, hfront, hlt, hrow⟩ := h
    have hle := hn.placed.front_le
    exact (ih hrow).mono (by order) le_rfl
  | cons_cons n _ ih =>
    obtain ⟨hn, hfront, hlt, hrow⟩ := h
    exact ⟨hn, hfront, hlt, ih hrow⟩

theorem Row.wellPlaced (h : Row P lo ns hi) : ∀ n ∈ ns, n.WellPlaced P := by
  induction ns generalizing lo with
  | nil => nofun
  | cons n ns ih => exact List.forall_mem_cons.mpr ⟨h.1, ih h.2.2.2⟩

theorem Row.nonempty (h : Row P lo ns hi) : ∀ n ∈ ns, n.span.start < n.span.stop := by
  induction ns generalizing lo with
  | nil => nofun
  | cons n ns ih => exact List.forall_mem_cons.mpr ⟨h.2.2.1, ih h.2.2.2⟩

theorem Row.within (h : Row P lo ns hi) : ∀ n ∈ ns, lo ≤ n.front ∧ n.span.stop ≤ hi := by
  induction ns generalizing lo with
  | nil => nofun
  | cons n ns ih =>
    obtain ⟨hn, hfront, hlt, hrow⟩ := h
    refine List.forall_mem_cons.mpr ⟨⟨hfront, hrow.le⟩, fun m hm => ?_⟩
    have hle := hn.placed.front_le
    obtain ⟨hfront', hstop⟩ := ih hrow m hm
    exact ⟨by order, hstop⟩

theorem Row.apart (h : Row P lo ns hi) : ns.Pairwise Apart := by
  induction ns generalizing lo with
  | nil => exact .nil
  | cons n ns ih =>
    obtain ⟨-, -, -, hrow⟩ := h
    exact .cons (fun m hm => .inl (hrow.within m hm).1) (ih hrow)

theorem Row.pairwise_start (h : Row P lo ns hi) :
    ns.Pairwise fun a b => a.span.start ≤ b.span.start := by
  induction ns generalizing lo with
  | nil => exact .nil
  | cons n ns ih =>
    obtain ⟨-, -, hlt, hrow⟩ := h
    refine .cons (fun m hm => ?_) (ih hrow)
    have hfront := (hrow.wellPlaced m hm).placed.front_le
    have hlo := (hrow.within m hm).1
    order

theorem Row.behind (h : Row P lo ns hi) (hn : n ∈ ns) : n.span.Behind lo := by
  have hfront := (h.wellPlaced n hn).placed.front_le
  have hlo := (h.within n hn).1
  exact ⟨by order, h.nonempty n hn⟩

/-- A row begins where its first node does. -/
theorem Row.from_front (h : Row P lo (n :: ns) hi) : Row P n.front (n :: ns) hi := by
  obtain ⟨hn, -, hlt, hrow⟩ := h
  exact ⟨hn, le_rfl, hlt, hrow⟩

/-- A row ends where its last node does. -/
theorem Row.to_stop (h : Row P lo ns hi) (hlast : ns.getLast? = some n) :
    Row P lo ns n.span.stop := by
  induction ns generalizing lo with
  | nil => cases hlast
  | cons m ns ih =>
    obtain ⟨hm, hfront, hlt, hrow⟩ := h
    refine ⟨hm, hfront, hlt, ?_⟩
    cases ns with
    | nil =>
      cases hlast
      exact le_rfl
    | cons m' ns => exact ih hrow (by simpa using hlast)

/-! ### Nodes made of rows -/

/-- Anything but a module or a function. -/
def isPlain : Node → Bool
  | .module _ | .function _ => false
  | _ => true

theorem front_of_isPlain (h : n.isPlain = true) : n.front = n.span.start := by
  cases n with
  | function f => cases h
  | _ => rfl

theorem exists_field_of_mem_parts {part : String × Node} (h : part ∈ n.parts) :
    ∃ v, (part.1, v) ∈ n.fields := by
  obtain ⟨⟨label, v⟩, hv, hpart⟩ := List.mem_flatMap.mp h
  cases v with
  | node m =>
    cases List.mem_singleton.mp hpart
    exact ⟨_, hv⟩
  | nodes ms =>
    obtain ⟨m, -, rfl⟩ := List.mem_map.mp hpart
    exact ⟨_, hv⟩
  | text s => cases hpart
  | flag b => cases hpart

theorem label_ne_of_isPlain (h : n.isPlain = true) :
    ∀ part ∈ n.parts, part.1 ≠ "decorator_list" := by
  intro part hpart hlabel
  obtain ⟨v, hv⟩ := exists_field_of_mem_parts hpart
  rw [hlabel] at hv
  cases n with
  | module m => cases h
  | function f => cases h
  | expr e => cases e <;> simp [fields, Expr.fields] at hv
  | stmt s => cases s <;> simp [fields, Stmt.fields, FieldValue.expr?, FieldValue.text?] at hv
  | _ => simp [fields, FieldValue.expr?, FieldValue.text?] at hv

theorem Apart.symm {a b : Node} (h : a.Apart b) : b.Apart a := Or.symm h

theorem wellPlaced_of_parts (hn : n.Placed P) (hparts : ∀ part ∈ n.parts, part.2.WellPlaced P) :
    n.WellPlaced P :=
  forall_at? hn hparts

/-- A plain node whose parts, in the order of the text, are a row inside its span. -/
theorem Row.enclose {start stop : Pos} (hplain : n.isPlain = true) (hspan : n.span = ⟨start, stop⟩)
    (hlo : lo ≤ start) (hlt : start < stop) (htoken : ∀ t, n.token? = some t → P t)
    (haccess : n.Accessed P) (hrow : Row P start ms stop)
    (hperm : ms.Perm (n.parts.map (·.2))) : Row P lo [n] stop := by
  have hmem : ∀ part ∈ n.parts, part.2 ∈ ms := fun part hpart =>
    hperm.mem_iff.mpr (List.mem_map_of_mem hpart)
  have hfront := front_of_isPlain hplain
  rw [hspan] at hfront
  have hplaced : n.Placed P := by
    constructor
    case front_le => rw [hspan, hfront]
    case start_le => rw [hspan]; exact le_of_lt hlt
    case nonempty => exact fun part hpart => hrow.nonempty _ (hmem part hpart)
    case apart => exact List.pairwise_map.mp (hrow.apart.perm hperm Apart.symm)
    case inside =>
      intro part hpart _
      rw [hspan]
      exact hrow.within _ (hmem part hpart)
    case before => exact fun part hpart h => absurd h (label_ne_of_isPlain hplain part hpart)
    case token => exact htoken
    case access => exact haccess
  refine ⟨wellPlaced_of_parts hplaced fun part hpart => hrow.wellPlaced _ (hmem part hpart), ?_⟩
  rw [hfront, hspan]
  exact ⟨hlo, hlt, le_rfl⟩

theorem parts_function (f : FunctionDef) :
    (function f).parts = f.decorators.map (fun e => ("decorator_list", expr e)) ++
      (("args", params f.params) :: (f.returns.toList.map fun e => ("returns", expr e)) ++
        f.body.map fun s => ("body", stmt s)) := by
  obtain ⟨span, decorators, name, params, returns, body, doc⟩ := f
  cases returns <;> cases doc <;>
    simp [parts, fields, partsOf, FieldValue.exprs, FieldValue.stmts, FieldValue.expr?,
      FieldValue.text?, Function.comp_def]

theorem Row.front_function {f : FunctionDef} (h : Row P lo (f.decorators.map .expr) f.span.start) :
    lo ≤ (function f).front ∧ Row P (function f).front (f.decorators.map .expr) f.span.start := by
  cases hd : f.decorators with
  | nil =>
    rw [hd] at h
    rw [front, hd]
    exact ⟨h, le_rfl⟩
  | cons d ds =>
    rw [hd] at h
    rw [front, hd]
    exact ⟨h.2.1, h.from_front⟩

/-- A function behind its decorators. -/
theorem Row.function {f : FunctionDef} (hlt : f.span.start < f.span.stop)
    (hdecorators : Row P lo (f.decorators.map .expr) f.span.start)
    (hrow : Row P f.span.start
      (.params f.params :: f.returns.toList.map .expr ++ f.body.map .stmt) f.span.stop) :
    Row P lo [.function f] f.span.stop := by
  obtain ⟨hlo, hdecorators⟩ := hdecorators.front_function
  have hall := hdecorators.append hrow
  have hsnd : (Node.function f).parts.map (·.2) = f.decorators.map .expr ++
      (.params f.params :: f.returns.toList.map .expr ++ f.body.map .stmt) := by
    simp [parts_function, Function.comp_def]
  have hmem : ∀ part ∈ (Node.function f).parts, part.2 ∈ f.decorators.map .expr ++
      (.params f.params :: f.returns.toList.map .expr ++ f.body.map .stmt) := fun part hpart =>
    hsnd ▸ List.mem_map_of_mem hpart
  have hplaced : (Node.function f).Placed P := by
    constructor
    case front_le => exact hdecorators.le
    case start_le => exact le_of_lt hlt
    case nonempty => exact fun part hpart => hall.nonempty _ (hmem part hpart)
    case apart => exact List.pairwise_map.mp (hsnd ▸ hall.apart)
    case inside =>
      intro part hpart hlabel
      refine hrow.within _ ?_
      rw [parts_function] at hpart
      rcases List.mem_append.mp hpart with hpart | hpart
      · obtain ⟨e, -, rfl⟩ := List.mem_map.mp hpart
        exact absurd rfl hlabel
      · have := List.mem_map_of_mem (f := Prod.snd) hpart
        simpa [Function.comp_def] using this
    case before =>
      intro part hpart hlabel
      refine hdecorators.within _ ?_
      simp only [parts_function, List.mem_append, List.mem_cons, List.mem_map] at hpart
      obtain ⟨e, he, rfl⟩ | (rfl | ⟨e, -, rfl⟩) | ⟨s, -, rfl⟩ := hpart
      · exact List.mem_map_of_mem he
      all_goals simp at hlabel
    case token => nofun
    case access => exact True.intro
  refine ⟨wellPlaced_of_parts hplaced fun part hpart => hall.wellPlaced _ (hmem part hpart), ?_⟩
  exact ⟨hlo, hlt, le_rfl⟩

theorem WellPlaced.module {m : Module}
    (hrow : Row P m.span.start (m.body.map (·.toNode)) m.span.stop) :
    (Node.module m).WellPlaced P := by
  have hmem : ∀ part ∈ (Node.module m).parts,
      part.1 = "body" ∧ part.2 ∈ m.body.map (·.toNode) := by
    intro part hpart
    rw [parts_module] at hpart
    obtain ⟨d, hd, rfl⟩ := List.mem_map.mp hpart
    exact ⟨rfl, List.mem_map_of_mem hd⟩
  refine wellPlaced_of_parts ?_ fun part hpart => hrow.wellPlaced _ (hmem part hpart).2
  constructor
  case front_le => exact le_rfl
  case start_le => exact hrow.le
  case nonempty => exact fun part hpart => hrow.nonempty _ (hmem part hpart).2
  case apart =>
    rw [parts_module]
    exact List.pairwise_map.mpr (List.pairwise_map.mp hrow.apart)
  case inside => exact fun part hpart _ => hrow.within _ (hmem part hpart).2
  case before =>
    intro part hpart hlabel
    rw [(hmem part hpart).1] at hlabel
    simp at hlabel
  case token => nofun
  case access => exact True.intro

end Node

end Vyper
