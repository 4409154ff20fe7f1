import Vyper.Proofs.Placement.Source

/-!
# What holds throughout a module

Every node in a module is made by a rule of the grammar from symbols that are known
(`Grammar.Formed`, `Module.throughout_of_parse`). So what the rules see to in a node holds
throughout the module: whatever binds a name binds it bare (`Module.regular_of_parse`), and no type
has a name that is spelled like a literal (`Module.annotations_of_parse`), though a name that is
bound may be spelled so.
-/

namespace Vyper

namespace Node

variable {P : Node → Prop} {n : Node}

/-- An expression, or a named argument in one. -/
def IsOperand : Node → Prop
  | .expr _ | .keyword _ => True
  | _ => False

theorem isOperand_parts {part : String × Node} (hn : n.IsOperand) (h : part ∈ n.parts) :
    part.2.IsOperand := by
  cases n with
  | expr e =>
    cases e <;> simp [parts, fields, Expr.fields, partsOf, FieldValue.exprs] at h
    all_goals
      try rcases h with rfl | h
      all_goals first
        | trivial
        | (rcases h with ⟨_, -, rfl⟩ | ⟨_, -, rfl⟩ <;> trivial)
        | (obtain ⟨_, -, rfl⟩ := h; trivial)
  | keyword k =>
    simp [parts, fields, partsOf] at h
    subst h
    trivial
  | _ => cases hn

/-- There are only expressions in an expression. -/
theorem throughout_isOperand (hn : n.IsOperand) : n.Throughout IsOperand := by
  intro path c h
  induction path generalizing n with
  | nil =>
    cases h
    exact hn
  | cons i path ih =>
    obtain ⟨field, part, hpart, hc⟩ := at?_cons_eq_some h
    exact ih (isOperand_parts hn (List.mem_of_getElem? hpart)) hc

end Node

/-- What the grammar sees to in a node: whatever binds a name binds it bare, no declaration has a
type that was found, and the lines of a type come in the order of the text. -/
def Node.Regular : Node → Prop
  | .stmt (.loop _ target _ _) => ∃ place id, target = .bare (.name place id)
  | .stmt (.declare _ target _ _ resolved) => (∃ place id, target = .name place id) ∧
      resolved = none
  | .param p => p.resolved = none
  | .var v => (∃ place id, v.target = .name place id) ∧ v.resolved = none
  | .members d => d.body.Pairwise fun a b => a.span.start ≤ b.span.start
  | _ => True

/-- The types a node declares, or what its clause is about. -/
def Node.annotations : Node → List Expr
  | .function f => f.returns.toList
  | .param p => [p.type]
  | .var v => [v.type]
  | .clause c => [c.subject]
  | .stmt (.declare _ _ type ..) => [type]
  | _ => []

/-- A name that is not spelled like a literal. -/
def Node.NoLiteral : Node → Prop
  | .expr (.name _ id) => id ≠ "True" ∧ id ≠ "False"
  | _ => True

/-- A name that is read as one, with a note if it is outdated. -/
def Node.Read (notes : List Deprecation) : Node → Prop
  | .expr (.name _ id) =>
    (id ≠ "True" ∧ id ≠ "False") ∧ ∀ d ∈ Deprecation.functions, d.old = id → d ∈ notes
  | _ => True

theorem Node.Read.noLiteral {notes : List Deprecation} {n : Node} (h : n.Read notes) :
    n.NoLiteral := by
  unfold Node.Read at h
  unfold Node.NoLiteral
  split at h
  · exact h.1
  · trivial

namespace Grammar

open Vyper.Grammar.Symbol (sign word)

variable {notes : List Deprecation} {items row : List Symbol} {x : Symbol} {n : Node}
  {ts us : List Token} {P : Node → Prop}

/-! ### Expressions -/

/-- Whether all nodes of a symbol are read as expressions. -/
def Symbol.isRead : Symbol → Bool
  | .node (.keyword _) => true
  | .node _ => false
  | _ => true

/-- Expressions are made of expressions. -/
theorem Rule.isRead_items (h : Rule notes items x) (hx : x.isRead = true) :
    ∀ y ∈ items, y.isRead = true := by
  have helements : ∀ {l sep trailing row es}, Listed sep (Operand l) trailing row es →
      ∀ y ∈ row, y.isRead = true := by
    intro l sep trailing row es h
    refine h.forall_mem (fun _ => rfl) ?_
    rintro _ _ ⟨⟩
    simp [Symbol.isRead]
  cases h with
  | tuple h | list h =>
    simp only [List.cons_append, List.forall_mem_cons, List.forall_mem_append]
    exact ⟨rfl, helements h, rfl, by simp⟩
  | bare h | logical h =>
    exact List.forall_mem_cons.mpr ⟨rfl, List.forall_mem_cons.mpr ⟨rfl, helements h⟩⟩
  | dict h =>
    simp only [List.cons_append, List.forall_mem_cons, List.forall_mem_append]
    refine ⟨rfl, h.forall_mem (fun _ => rfl) ?_, rfl, by simp⟩
    rintro _ _ ⟨⟩
    simp [Symbol.isRead]
  | call h =>
    simp only [List.cons_append, List.forall_mem_cons, List.forall_mem_append]
    refine ⟨rfl, rfl, h.forall_mem (fun _ => rfl) ?_, rfl, by simp⟩
    rintro _ _ (_ | _) <;> simp [Symbol.isRead]
  | compare =>
    simp only [List.cons_append, List.forall_mem_cons, List.forall_mem_append, List.forall_mem_map]
    exact ⟨rfl, fun _ _ => rfl, rfl, by simp⟩
  | name | truth | numeral | str | bytes | member | subscript | keyword | unary | binary =>
    simp [Symbol.isRead]
  | _ => cases hx

theorem Shift.isRead_items (h : Shift items x) : ∀ y ∈ items, y.isRead = true := by
  cases h <;> simp [Symbol.isRead]

/-- No node is made where a symbol is taken for another. -/
theorem Shift.exists_mem (h : Shift items x) (hn : n ∈ x.nodes) : ∃ y ∈ items, n ∈ y.nodes := by
  have hnodes : nodes items = x.nodes := by cases h <;> rfl
  rw [← hnodes] at hn
  exact List.mem_flatMap.mp hn

theorem Rule.read (h : Rule notes items x) (hx : x.isRead = true) :
    ∀ n ∈ x.nodes, n.Read notes := by
  cases h with
  | name htrue hfalse hnotes => exact List.forall_mem_singleton.mpr ⟨⟨htrue, hfalse⟩, hnotes⟩
  | tuple | list | bare | logical | dict | call | compare | truth | numeral | str | bytes | member
    | subscript | keyword | unary | binary => exact List.forall_mem_singleton.mpr trivial
  | _ => cases hx

/-- A rule puts a node together from nodes with a property. -/
theorem Rule.throughout (h : Rule notes items x)
    (hitems : ∀ y ∈ items, ∀ m ∈ y.nodes, m.Throughout P) (hn : ∀ n ∈ x.nodes, P n) :
    ∀ n ∈ x.nodes, n.Throughout P := by
  obtain ⟨n, hx⟩ := h.exists_node
  obtain ⟨ms, hms, hperm⟩ := h.exists_parts hx
  rw [hx, List.forall_mem_singleton] at hn ⊢
  refine .join (fun m hm => ?_) hperm hn
  obtain ⟨y, hy, hmem⟩ := List.mem_flatMap.mp (hms.subset hm)
  exact hitems y hy m hmem

/-! ### Nodes as they are made -/

/-- What is known of a symbol that tokens are read to. -/
structure Symbol.Of (ts : List Token) (notes : List Deprecation) (x : Symbol) : Prop where
  token : ∀ t ∈ x.token?, t ∈ ts
  head : ∀ id a, x = .head id a → Token.Headed ts ⟨.name id, a⟩
  read : x.isRead = true → ∀ n ∈ x.nodes, n.Throughout (Node.Read notes)

/-- A node that is made by a rule from symbols in their places, the last ones that tokens are read
to. -/
def Formed (ts : List Token) (notes : List Deprecation) (n : Node) : Prop :=
  ∃ items x lo hi, Rule notes items x ∧ x.nodes = [n] ∧ (∀ y ∈ items, y.Of ts notes) ∧
    Stand (fun _ => True) lo items hi ∧ ∃ row us, Derives notes (row ++ items) us ∧ us <+: ts

theorem Rule.of (h : Rule notes items x) (hitems : ∀ y ∈ items, y.Of ts notes) : x.Of ts notes where
  token t ht := by cases h <;> cases ht
  head id a hx := by cases h <;> cases hx
  read hx := h.throughout (fun y hy => (hitems y hy).read (h.isRead_items hx y hy)) (h.read hx)

theorem Shift.of (h : Shift items x) (hitems : ∀ y ∈ items, y.Of ts notes) : x.Of ts notes where
  token t ht := by cases h <;> cases ht
  head id a hx := by cases h <;> cases hx
  read _ n hn := by
    obtain ⟨y, hy, hmem⟩ := h.exists_mem hn
    exact (hitems y hy).read (h.isRead_items y hy) n hmem

/-- Every node that tokens are read to is made by a rule, with all that is in it. -/
theorem Derives.formed {eof lo : Pos} (h : Derives notes row us) (hus : us <+: ts)
    (hts : Token.Row (fun _ => True) eof lo ts) :
    ∀ n ∈ nodes row, n.Throughout (Formed ts notes) := by
  have hall : ∀ x ∈ row, x.Of ts notes ∧ ∀ n ∈ x.nodes, n.Throughout (Formed ts notes) := by
    refine h.forall_mem ?_ ?_ ?_ ?_ hus
    · refine fun t ht => ⟨⟨?_, nofun, nofun⟩, nofun⟩
      rintro _ ⟨⟩
      exact ht
    · refine fun id a hhead => ⟨⟨?_, ?_, nofun⟩, nofun⟩
      · rintro _ ⟨⟩
        obtain ⟨front, back, rfl, -⟩ := hhead
        simp
      · rintro _ _ ⟨⟩
        exact hhead
    · rintro row items x us h ⟨back, rfl⟩ hrule hitems
      obtain ⟨hi, hstand, -⟩ := h.stand hts
      obtain ⟨mid, -, hstand⟩ := stand_append.mp hstand
      have hof := fun y hy => (hitems y hy).1
      refine ⟨hrule.of hof, hrule.throughout (fun y hy => (hitems y hy).2) fun n hn => ?_⟩
      obtain ⟨m, hx⟩ := hrule.exists_node
      rw [hx, List.mem_singleton] at hn
      exact ⟨items, x, mid, hi, hrule, hn ▸ hx, hof, hstand, row, us, h, List.prefix_append us back⟩
    · refine fun items x hshift hitems => ⟨hshift.of fun y hy => (hitems y hy).1, fun n hn => ?_⟩
      obtain ⟨y, hy, hmem⟩ := hshift.exists_mem hn
      exact (hitems y hy).2 n hmem
  intro n hn
  obtain ⟨x, hx, hmem⟩ := List.mem_flatMap.mp hn
  exact (hall x hx).2 n hmem

/-! ### What the rules see to -/

theorem Formed.regular (h : Formed ts notes n) : n.Regular := by
  obtain ⟨items, x, lo, hi, hrule, hx, -, hstand, -⟩ := h
  cases hrule with
  | members _ hbody =>
    cases hx
    have hrow := hstand.row_nodes
    simp only [nodes_cons, hbody.nodes_eq, Symbol.nodes, List.nil_append] at hrow
    have hpairs := List.pairwise_map.mp hrow.pairwise_start
    exact hpairs
  | declare | var => cases hx; exact ⟨⟨_, _, rfl⟩, rfl⟩
  | loop => cases hx; exact ⟨_, _, rfl⟩
  | param => cases hx; rfl
  | _ => cases hx; trivial

theorem Formed.noLiteral (h : Formed ts notes n) :
    ∀ e ∈ n.annotations, (Node.expr e).Throughout Node.NoLiteral := by
  obtain ⟨items, x, lo, hi, hrule, hx, hof, -⟩ := h
  have hoperand : ∀ {k e}, .operand 0 k e ∈ items →
      ∀ e' ∈ [e], (Node.expr e').Throughout Node.NoLiteral := by
    intro k e hmem
    rw [List.forall_mem_singleton]
    exact fun path c hc => ((hof _ hmem).read rfl _ List.mem_cons_self path c hc).noLiteral
  cases hrule with
  | param | clause | declare | var => cases hx; exact hoperand (.tail _ (.tail _ (.head _)))
  | function _ hreturns =>
    cases hx
    cases hreturns with
    | none => nofun
    | @some a k => exact hoperand (k := k) (by simp)
  | _ => cases hx; nofun

/-- A function is called by a name of the text. -/
theorem Formed.name_mem {f : FunctionDef} (h : Formed ts notes (.function f)) :
    ∃ a, ⟨.name f.name, a⟩ ∈ ts := by
  obtain ⟨items, x, lo, hi, hrule, hx, hof, -⟩ := h
  cases hrule with
  | @function _ _ name _ _ _ _ _ _ _ b =>
    cases hx
    exact ⟨b, (hof (word name b) (by simp)).token _ rfl⟩
  | _ => cases hx

end Grammar

namespace Module

open Grammar

variable {text : List Char} {stream : TokenStream} {parsed : Parsed} {P : Node → Prop}

/-- What holds of all nodes that the tokens are read to holds throughout a module. -/
theorem throughout_of_derives (hparse : Module.parse text = .ok parsed)
    (hstream : TokenStream.ofText text = .ok stream) (hmodule : P (.module parsed.tree))
    (h : ∀ row, Derives parsed.notes row stream.tokens → ∀ n ∈ nodes row, n.Throughout P) :
    (Node.module parsed.tree).Throughout P := by
  obtain ⟨front, row, hfront, ⟨hbody, -⟩, hderives, -⟩ := derives_of_parse hparse hstream
  have hnodes := h _ hderives
  rw [nodes_append, hfront, hbody, List.nil_append] at hnodes
  refine .join hnodes (.of_eq ?_) hmodule
  rw [Node.parts_module, List.map_map]
  rfl

theorem throughout_of_parse (hparse : Module.parse text = .ok parsed)
    (hstream : TokenStream.ofText text = .ok stream) (hmodule : P (.module parsed.tree))
    (hP : ∀ n, Formed stream.tokens parsed.notes n → P n) :
    (Node.module parsed.tree).Throughout P := by
  refine throughout_of_derives hparse hstream hmodule fun row h m hm path c hc => hP c ?_
  exact h.formed (List.prefix_refl _) (TokenStream.row_tokens hstream) m hm path c hc

theorem regular_of_parse (hparse : Module.parse text = .ok parsed) :
    (Node.module parsed.tree).Throughout Node.Regular := by
  obtain ⟨stream, -, hstream, -⟩ := exists_of_parse hparse
  exact throughout_of_parse hparse hstream trivial fun _ => Formed.regular

/-- No type in a module has a name that is spelled like a literal. -/
theorem annotations_of_parse (hparse : Module.parse text = .ok parsed) :
    (Node.module parsed.tree).Throughout fun n =>
      ∀ e ∈ n.annotations, (Node.expr e).Throughout Node.NoLiteral := by
  obtain ⟨stream, -, hstream, -⟩ := exists_of_parse hparse
  exact throughout_of_parse hparse hstream nofun fun _ => Formed.noLiteral

/-- The functions of a module are called by names of its text. -/
theorem functions_of_parse (hparse : Module.parse text = .ok parsed)
    (hstream : TokenStream.ofText text = .ok stream) :
    (Node.module parsed.tree).Throughout fun n =>
      ∀ f, n = .function f → ∃ a, ⟨.name f.name, a⟩ ∈ stream.tokens := by
  refine throughout_of_parse hparse hstream nofun ?_
  rintro _ hformed f rfl
  exact hformed.name_mem

end Module

end Vyper
