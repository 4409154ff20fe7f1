import Vyper.Proofs.Grammar.Rules
import Vyper.Proofs.Placement
import Mathlib.Data.List.Perm.Basic

/-!
# What the rules have in common

A rule makes one node out of the nodes among its symbols (`Rule.exists_parts`), and leaves as many
blocks open as there were (`Rule.depth_eq`).
-/

namespace Vyper

def Entry.nodes (e : Entry) : List Node := [.expr e.key, .expr e.value]

/-- The node of an argument of a call. -/
def Parser.argumentNode : Expr ⊕ Keyword → Node
  | .inl e => .expr e
  | .inr k => .keyword k

namespace Node

/-- A dictionary has its keys first and then its values; the text has them in turn. -/
theorem perm_parts_dict (span : Span) (entries : List Entry) :
    (entries.flatMap Entry.nodes).Perm ((expr (.dict span entries)).parts.map (·.2)) := by
  have h := List.flatMap_append_perm entries (fun e => [expr e.key]) fun e => [expr e.value]
  change (entries.flatMap fun e => [expr e.key] ++ [expr e.value]).Perm _
  simpa [parts, fields, Expr.fields, partsOf, FieldValue.exprs, Function.comp_def,
    ← List.map_eq_flatMap] using h.symm

/-- A call has its plain arguments first and then the named ones; the text has them in any order. -/
theorem perm_parts_call (span : Span) (func : Expr) (arguments : List (Expr ⊕ Keyword)) :
    (expr func :: arguments.map Parser.argumentNode).Perm
      ((expr (.call span func (arguments.filterMap Sum.getLeft?)
        (arguments.filterMap Sum.getRight?))).parts.map (·.2)) := by
  have h := List.flatMap_append_perm arguments (fun a => a.getLeft?.toList.map expr)
    fun a => a.getRight?.toList.map keyword
  have hnode : ∀ a : Expr ⊕ Keyword,
      a.getLeft?.toList.map expr ++ a.getRight?.toList.map keyword = [Parser.argumentNode a] := by
    rintro (e | k) <;> rfl
  simp only [hnode, ← List.map_eq_flatMap] at h
  simp [parts, fields, Expr.fields, partsOf, FieldValue.exprs, Function.comp_def,
    List.filterMap_eq_flatMap_toList, List.map_flatMap]
  exact h.symm

/-- A parameter list has its defaults behind all of its parameters. -/
theorem perm_parts_params (span : Span) (items : List (Param × Option Expr)) :
    (items.flatMap fun item => param item.1 :: item.2.toList.map expr).Perm
      ((params ⟨span, items.map (·.1), items.filterMap (·.2)⟩).parts.map (·.2)) := by
  have h := List.flatMap_append_perm items (fun item => [param item.1])
    fun item => item.2.toList.map expr
  simpa [parts, fields, partsOf, FieldValue.exprs, Function.comp_def, ← List.map_eq_flatMap,
    List.filterMap_eq_flatMap_toList, List.map_flatMap] using h.symm

end Node

namespace Grammar

open Vyper.Parser (joinBinary joinCompare liftDoc)
open Vyper.Grammar.Symbol (sign word)

/-! ### Nodes -/

section Nodes

variable {α : Type} {sep : TokenKind} {Item : List Symbol → α → Prop} {trailing : Bool}
  {row : List Symbol} {p : Punct} {l : Nat}

theorem Listed.nodes_eq {as : List α} (h : Listed sep Item trailing row as) {f : α → List Node}
    (hitem : ∀ row a, Item row a → nodes row = f a) : nodes row = as.flatMap f := by
  induction h with
  | nil => rfl
  | last ha => simp [hitem _ _ ha]
  | cons mark ha _ ih => simp [hitem _ _ ha, ih, Symbol.nodes]

theorem Listed.nodes_operands {es : List Expr} (h : Listed sep (Operand l) trailing row es) :
    nodes row = es.map .expr := by
  rw [h.nodes_eq (f := fun e => [.expr e]) (by rintro _ _ ⟨⟩; rfl), List.map_eq_flatMap]

theorem Tail.nodes_eq {value : Option Expr} (h : Tail p row value) :
    nodes row = value.toList.map .expr := by
  cases h <;> rfl

theorem Block.nodes_eq {ss : List Stmt} (h : Block row ss) : nodes row = ss.map .stmt := by
  cases h with
  | line h => exact h.1
  | lines a b c h => simp [h.1, Symbol.nodes]

theorem Otherwise.nodes_eq {ss : List Stmt} (h : Otherwise row ss) : nodes row = ss.map .stmt := by
  cases h with
  | nothing => rfl
  | further => rfl
  | other a b h => exact h.nodes_eq

theorem Decorators.nodes_eq {es : List Expr} (h : Decorators row es) :
    nodes row = es.map .expr := by
  induction h with
  | nil => rfl
  | cons a hmarks _ ih => simp [sign, Symbol.nodes, hmarks.1, ih]

theorem nodes_tokens (ts : List Token) : nodes (ts.map .token) = [] := by
  simp [nodes, Symbol.nodes]

end Nodes

theorem liftDoc_sublist (body : List Stmt) : (liftDoc body).2.Sublist body := by
  unfold liftDoc
  split
  · exact List.sublist_cons_self _ _
  · exact .refl _

/-- A rule makes one node. -/
theorem Rule.exists_node {notes : List Deprecation} {items : List Symbol} {x : Symbol}
    (h : Rule notes items x) : ∃ n, x.nodes = [n] := by
  cases h <;> exact ⟨_, rfl⟩

/-- The node is made of the nodes among the symbols. A text that documents a function is left out.
-/
theorem Rule.exists_parts {notes : List Deprecation} {items : List Symbol} {x : Symbol} {n : Node}
    (h : Rule notes items x) (hn : x.nodes = [n]) :
    ∃ ms : List Node, ms.Sublist (nodes items) ∧ ms.Perm (n.parts.map (·.2)) := by
  have hall : (nodes items).Perm (n.parts.map (·.2)) →
      ∃ ms : List Node, ms.Sublist (nodes items) ∧ ms.Perm (n.parts.map (·.2)) :=
    fun hperm => ⟨_, .refl _, hperm⟩
  cases h with
  | function hfront hrow hrest =>
    cases hn
    refine ⟨_, ?_, .refl _⟩
    simp only [Node.parts_function, List.map_append, List.map_cons, List.map_map, Function.comp_def,
      nodes_append, nodes_cons, hfront.nodes_eq, hrow.nodes_eq, hrest.nodes_eq, sign, word,
      Symbol.nodes, List.nil_append, List.append_assoc, List.cons_append]
    exact .append_left (.cons_cons _ (.append_left ((liftDoc_sublist _).map _) _)) _
  | dict h =>
    cases hn
    have hnodes := h.nodes_eq (f := Entry.nodes) (by rintro _ _ ⟨⟩; rfl)
    exact hall (by simpa [sign, Symbol.nodes, hnodes] using Node.perm_parts_dict _ _)
  | call h =>
    cases hn
    have hnodes := h.nodes_eq (f := fun a => [Parser.argumentNode a]) (by rintro _ _ ⟨⟩ <;> rfl)
    exact hall (by simpa [sign, Symbol.nodes, hnodes,
      ← List.map_eq_flatMap] using Node.perm_parts_call _ _ _)
  | params h =>
    cases hn
    have hnodes := h.nodes_eq (f := fun item => .param item.1 :: item.2.toList.map .expr)
      (by rintro _ _ ⟨h⟩; simp [Symbol.nodes, h.nodes_eq])
    exact hall (by simpa [sign, Symbol.nodes, hnodes] using Node.perm_parts_params _ _)
  | tuple h | list h | bare h | logical h =>
    cases hn
    refine hall (.of_eq ?_)
    simp [h.nodes_operands, sign, word, Symbol.nodes, Node.parts, Node.fields, Expr.fields,
      Node.partsOf, FieldValue.exprs, Function.comp_def]
  | compare h =>
    cases hn
    refine hall (.of_eq ?_)
    simp only [List.cons_append, nodes_cons, nodes_append, nodes_tokens]
    rfl
  | declare h | assert h | var h =>
    cases hn
    cases h <;> exact hall (.refl _)
  | branch hbody hrest =>
    cases hn
    refine hall (.of_eq ?_)
    simp [hbody.nodes_eq, hrest.nodes_eq, sign, word, Symbol.nodes, Node.parts, Node.fields,
      Stmt.fields, Node.partsOf, FieldValue.stmts, Function.comp_def]
  | loop hbody | members _ hbody =>
    cases hn
    refine hall (.of_eq ?_)
    simp [hbody.nodes_eq, sign, word, Symbol.nodes, Node.parts, Node.fields, Stmt.fields,
      LoopTarget.toNode, Node.partsOf, FieldValue.stmts, Function.comp_def]
  | interface hbody =>
    cases hn
    refine hall (.of_eq ?_)
    simp [hbody.1, sign, word, Symbol.nodes, Node.parts, Node.fields, Node.partsOf,
      Function.comp_def]
  | @importing i | @importFrom i =>
    cases hn
    refine hall (.of_eq ?_)
    cases hname : i.asName <;>
      simp [nodes_tokens, word, Symbol.nodes, Node.parts, Node.fields, Node.partsOf,
        FieldValue.text?, hname]
  | _ => cases hn; exact hall (.refl _)

/-! ### Blocks -/

/-- How many more blocks are open behind a symbol than before it. -/
def Symbol.blocks : Symbol → Int
  | .token ⟨.indent, _⟩ => 1
  | .token ⟨.dedent, _⟩ => -1
  | _ => 0

/-- How many more blocks are open behind a row than before it. -/
def depth : List Symbol → Int
  | [] => 0
  | x :: row => x.blocks + depth row

@[simp] theorem depth_nil : depth [] = 0 := rfl

@[simp] theorem depth_cons (x : Symbol) (row : List Symbol) :
    depth (x :: row) = x.blocks + depth row := rfl

@[simp] theorem depth_append (row more : List Symbol) :
    depth (row ++ more) = depth row + depth more := by
  induction row with
  | nil => simp
  | cons x row ih => simp [ih, Int.add_assoc]

@[simp] theorem blocks_sign (p : Punct) (a : Span) : (sign p a).blocks = 0 := rfl

@[simp] theorem blocks_word (w : String) (a : Span) : (word w a).blocks = 0 := rfl

@[simp] theorem blocks_newline (a : Span) : (Symbol.token ⟨.newline, a⟩).blocks = 0 := rfl

@[simp] theorem blocks_indent (a : Span) : (Symbol.token ⟨.indent, a⟩).blocks = 1 := rfl

@[simp] theorem blocks_dedent (a : Span) : (Symbol.token ⟨.dedent, a⟩).blocks = -1 := rfl

@[simp] theorem blocks_head (id : String) (a : Span) : (Symbol.head id a).blocks = 0 := rfl

@[simp] theorem blocks_operand (l : Nat) (k : TokenKind) (e : Expr) :
    (Symbol.operand l k e).blocks = 0 := rfl

@[simp] theorem blocks_listed (trailing : Bool) (e : Expr) :
    (Symbol.listed trailing e).blocks = 0 := rfl

@[simp] theorem blocks_node (n : Node) : (Symbol.node n).blocks = 0 := rfl

theorem blocks_token {t : Token} (h : t.kind.isMark = false) : (Symbol.token t).blocks = 0 := by
  obtain ⟨kind, span⟩ := t
  cases kind <;> first | rfl | cases h

section Depth

variable {α : Type} {sep : TokenKind} {Item : List Symbol → α → Prop} {trailing : Bool}
  {row : List Symbol}

theorem depth_tokens {ts : List Token} (h : ∀ t ∈ ts, t.kind.isMark = false) :
    depth (ts.map .token) = 0 := by
  induction ts with
  | nil => rfl
  | cons t ts ih =>
    obtain ⟨ht, hts⟩ := List.forall_mem_cons.mp h
    rw [List.map_cons, depth_cons, blocks_token ht, ih hts]
    rfl

theorem Filled.depth_eq {ns : List Node} (h : Filled row ns) : depth row = 0 := by
  obtain ⟨-, h⟩ := h
  induction row with
  | nil => rfl
  | cons x row ih =>
    obtain ⟨hx, hrow⟩ := List.forall_mem_cons.mp h
    rw [depth_cons, ih hrow]
    cases x with
    | token t =>
      obtain ⟨kind, span⟩ := t
      cases hx _ rfl
      rfl
    | _ => rfl

theorem Listed.depth_eq {as : List α} (h : Listed sep Item trailing row as)
    (hsep : sep.isMark = false) (hitem : ∀ row a, Item row a → depth row = 0) : depth row = 0 := by
  induction h with
  | nil => rfl
  | last ha => exact hitem _ _ ha
  | cons mark ha _ ih => simp [hitem _ _ ha, ih, blocks_token (t := ⟨sep, mark⟩) hsep]

theorem Listed.depth_operands {l : Nat} {es : List Expr}
    (h : Listed sep (Operand l) trailing row es) (hsep : sep.isMark = false) : depth row = 0 :=
  h.depth_eq hsep (by rintro _ _ ⟨⟩; rfl)

theorem Tail.depth_eq {p : Punct} {value : Option Expr} (h : Tail p row value) : depth row = 0 := by
  cases h <;> rfl

theorem Block.depth_eq {ss : List Stmt} (h : Block row ss) : depth row = 0 := by
  cases h with
  | line h => exact h.depth_eq
  | lines a b c h => simp [h.depth_eq]

theorem Otherwise.depth_eq {ss : List Stmt} (h : Otherwise row ss) : depth row = 0 := by
  cases h with
  | other a b h => simp [h.depth_eq]
  | _ => rfl

theorem Decorators.depth_eq {es : List Expr} (h : Decorators row es) : depth row = 0 := by
  induction h with
  | nil => rfl
  | cons a hmarks _ ih => simp [hmarks.depth_eq, ih]

end Depth

/-- A rule leaves as many blocks open as there were. -/
theorem Rule.depth_eq {notes : List Deprecation} {items : List Symbol} {x : Symbol}
    (h : Rule notes items x) : depth items = 0 ∧ x.blocks = 0 := by
  cases h with
  | @unary op kind k e a h =>
    have hkind : kind.isMark = false := by cases op <;> cases h <;> rfl
    simp [blocks_token (t := ⟨kind, a⟩) hkind]
  | @compare op k left k' right ts h =>
    have hall : (Piece.kindsOf op.pieces).all (!·.isMark) = true := by cases op <;> rfl
    rw [← h] at hall
    simp [@depth_tokens ts (by simpa using hall)]
  | tuple h | list h | bare h | logical h => simp [h.depth_operands rfl]
  | dict h => simp [h.depth_eq rfl (by rintro _ _ ⟨⟩; rfl)]
  | call h => simp [h.depth_eq rfl (by rintro _ _ ⟨⟩ <;> rfl)]
  | params h => simp [h.depth_eq rfl (by rintro _ _ ⟨h⟩; simp [h.depth_eq])]
  | declare h | assert h | var h => simp [h.depth_eq]
  | branch h h' => simp [h.depth_eq, h'.depth_eq]
  | loop h | members _ h => simp [h.depth_eq]
  | interface h => simp [h.depth_eq]
  | function h h' h'' => simp [h.depth_eq, h'.depth_eq, h''.depth_eq]
  | importing h | importFrom h => simp [depth_tokens h]
  | _ => exact ⟨rfl, rfl⟩

theorem Shift.depth_eq {items : List Symbol} {x : Symbol} (h : Shift items x) :
    depth items = 0 ∧ x.blocks = 0 := by
  cases h <;> exact ⟨rfl, rfl⟩

theorem Rule.length_pos {notes : List Deprecation} {items : List Symbol} {x : Symbol}
    (h : Rule notes items x) : 0 < items.length := by
  cases h <;> simp only [List.length_append, List.length_cons] <;> omega

theorem Shift.length_pos {items : List Symbol} {x : Symbol} (h : Shift items x) :
    0 < items.length := by
  cases h <;> simp

namespace Derives

variable {notes : List Deprecation} {row : List Symbol} {us : List Token}

/-- Every symbol is read from a token at least. -/
theorem length_le (h : Derives notes row us) : row.length ≤ us.length := by
  induction h with
  | nil => exact Nat.le_refl 0
  | shift t _ ih | head id a _ _ ih => simpa using ih
  | reduce _ hx ih =>
    have := hx.length_pos
    simp only [List.length_append, List.length_singleton] at ih ⊢
    omega
  | take _ hx ih =>
    have := hx.length_pos
    simp only [List.length_append, List.length_singleton] at ih ⊢
    omega

/-- The blocks that are open behind the symbols are those that are open behind the tokens. -/
theorem depth_eq (h : Derives notes row us) :
    depth row = (us.map Token.kind).count .indent - (us.map Token.kind).count .dedent := by
  induction h with
  | nil => rfl
  | shift t _ ih =>
    obtain ⟨kind, span⟩ := t
    rw [depth_append, ih]
    cases kind <;> simp [Symbol.blocks, List.count_append] <;> omega
  | head id a _ _ ih => simpa [List.count_append] using ih
  | reduce _ hx ih => simpa [hx.depth_eq] using ih
  | take _ hx ih => simpa [hx.depth_eq] using ih

end Derives

end Grammar

end Vyper
