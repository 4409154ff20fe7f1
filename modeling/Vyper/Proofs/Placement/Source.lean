import Vyper.Proofs.Losslessness
import Vyper.Proofs.Grammar.Source
import Vyper.Proofs.Placement.Rows
import Vyper.Compilation

/-!
# Trees of a source text

The tokens of a text come in its order (`TokenStream.row_tokens`), so the tree that is read from
them is well placed, with every leaf spelled at its span (`Module.row_of_parse`). Annotation writes
types into a tree and moves nothing (`Module.IsTreeOf.wellPlaced`).
-/

namespace Vyper

namespace Pos

theorem lt_iff (a b : Pos) : a < b ↔ a.line < b.line ∨ a.line = b.line ∧ a.col < b.col := by
  rw [← not_le, le_iff]
  omega

theorem lt_step (p : Pos) (c : Char) : p < p.step c := by
  rw [lt_iff, step]
  split
  · exact .inl (Nat.lt_succ_self _)
  · exact .inr ⟨rfl, Nat.lt_succ_self _⟩

theorem le_advance (p : Pos) (text : List Char) : p ≤ p.advance text := by
  induction text generalizing p with
  | nil => exact le_rfl
  | cons c cs ih => exact le_trans (p.lt_step c).le (ih (p.step c))

theorem lt_advance (p : Pos) {text : List Char} (h : text ≠ []) : p < p.advance text := by
  obtain ⟨c, cs, rfl⟩ := List.exists_cons_of_ne_nil h
  exact lt_of_lt_of_le (p.lt_step c) ((p.step c).le_advance cs)

end Pos

/-! ### The order of the tokens -/

namespace Token

variable {P : Token → Prop} {eof lo : Pos} {ts marks : List Token}

theorem Row.of_forall (h : Row (fun _ => True) eof lo ts)
    (hP : ∀ t ∈ ts, t.kind.isMark = false → P t) : Row P eof lo ts := by
  induction ts generalizing lo with
  | nil => exact h
  | cons t ts ih =>
    obtain ⟨hlo, hle, hlt, hrest⟩ := h
    obtain ⟨ht, hts⟩ := List.forall_mem_cons.mp hP
    exact ⟨hlo, hle, fun hmark => ⟨(hlt hmark).1, ht hmark⟩, ih hrest hts⟩

/-- Marks in one place before the first token. -/
theorem Row.marks_append (h : Row P eof lo ts)
    (hmarks : ∀ m ∈ marks, m.kind.isMark = true ∧ m.span = .point lo) :
    Row P eof lo (marks ++ ts) := by
  induction marks with
  | nil => exact h
  | cons m marks ih =>
    obtain ⟨⟨hmark, hspan⟩, hmarks⟩ := List.forall_mem_cons.mp hmarks
    refine ⟨?_, ?_, ?_, ?_⟩
    · rw [hspan]
      exact le_rfl
    · rw [hspan]
      exact le_rfl
    · intro hfalse
      rw [hmark] at hfalse
      cases hfalse
    · rw [hspan]
      exact ih hmarks

theorem Row.start_lt_stop (h : Row P eof lo ts) :
    ∀ t ∈ ts, t.kind.isMark = false → t.span.start < t.span.stop := by
  induction ts generalizing lo with
  | nil => nofun
  | cons t ts ih =>
    obtain ⟨-, -, hlt, hrest⟩ := h
    exact List.forall_mem_cons.mpr ⟨fun hmark => (hlt hmark).1, ih hrest⟩

theorem row_finish (s : Layout) (eof : Pos) : Row P eof eof (s.finish (.point eof)) := by
  have hall : ∀ m ∈ s.finish (.point eof), m.kind.isMark = true ∧ m.span = .point eof := by
    intro m hm
    rw [Layout.finish, List.mem_append, List.mem_map] at hm
    rcases hm with hm | ⟨_, -, rfl⟩
    · split at hm
      · cases List.mem_singleton.mp hm
        exact ⟨rfl, rfl⟩
      · cases hm
    · exact ⟨rfl, rfl⟩
  have hend : Row P eof eof [] := le_refl eof
  have hrow := hend.marks_append hall
  rwa [List.append_nil] at hrow

/-- The tokens of a text are in its order. -/
theorem row_tokens {m : Mark} {text : List Char} {s : Layout} {out : List Token}
    (h : s.tokens (.point (m.pos.advance text)) (Lexeme.scan m text) = .ok out) :
    Row (fun _ => True) (m.pos.advance text) m.pos out := by
  fun_induction Lexeme.scan m text generalizing s out with
  | case1 m =>
    cases h
    exact row_finish s m.pos
  | case2 m c cs next =>
    rename_i ih
    obtain ⟨first, t, more, hfeed, hmore, rfl⟩ := Layout.tokens_cons_eq_ok h
    have hnext : next.pos = m.pos.advance (Lexeme.cut c cs).text := Mark.pos_advance ..
    have hlt : m.pos < next.pos := by
      rw [hnext]
      exact m.pos.lt_advance (Lexeme.cut_text_ne_nil c cs)
    have heof : m.pos.advance (c :: cs) = next.pos.advance (Lexeme.cut c cs).rest := by
      rw [hnext, ← Pos.advance_append, Lexeme.cut_append]
    rw [heof] at hmore ⊢
    have hrow := ih hmore
    cases (Layout.fed_of_feed hfeed).1 with
    | silent => exact hrow.mono hlt.le
    | newline => exact ⟨le_rfl, hlt.le, fun hmark => Bool.noConfusion hmark, hrow⟩
    | token _ hspan hmarks =>
      rw [List.append_assoc]
      refine Row.marks_append ?_ hmarks
      refine ⟨?_, ?_, ?_, ?_⟩ <;> rw [hspan]
      · exact hlt.le
      · exact fun _ => ⟨hlt, trivial⟩
      · exact hrow

end Token

namespace TokenStream

variable {text : List Char} {stream : TokenStream}

theorem row_tokens (h : ofText text = .ok stream) :
    Token.Row (fun _ => True) stream.eof.stop .origin stream.tokens := by
  obtain ⟨heof, htokens⟩ := ofText_eq_ok h
  rw [heof] at htokens ⊢
  exact Token.row_tokens (m := Mark.origin) htokens

end TokenStream

/-- The text at the span of a token spells the token. -/
def Token.Spelled (text : List Char) (t : Token) : Prop := t.kind.Spells (Rows.slice text t.span)

theorem TokenStream.spelled_of_mem {text : List Char} {stream : TokenStream}
    (h : TokenStream.ofText text = .ok stream) :
    ∀ t ∈ stream.tokens, t.kind.isMark = false → t.Spelled text := by
  intro t ht hmark
  refine (TokenStream.laid_ofText h).spells_slice t ?_
  rw [TokenStream.content, List.mem_filter, hmark]
  exact ⟨ht, rfl⟩

/-- The declarations of a text are a row, whatever is known of its tokens. -/
theorem Module.row_of_tokens {P : Token → Prop} {text : List Char} {parsed : Parsed}
    (hparse : Module.parse text = .ok parsed) (hP : ∀ stream, TokenStream.ofText text = .ok stream →
      ∀ t ∈ stream.tokens, t.kind.isMark = false → P t) :
    Node.Row P parsed.tree.span.start (parsed.tree.body.map (·.toNode)) parsed.tree.span.stop := by
  obtain ⟨stream, -, hstream, -⟩ := exists_of_parse hparse
  obtain ⟨front, row, hfront, ⟨hbody, -⟩, hderives, -, hspan⟩ := derives_of_parse hparse hstream
  have htokens := (TokenStream.row_tokens hstream).of_forall (hP stream hstream)
  rw [← List.append_nil stream.tokens] at htokens
  obtain ⟨hi, hstand, hle⟩ := hderives.stand htokens
  have hrow := hstand.row_nodes
  rw [Grammar.nodes_append, hfront, hbody, List.nil_append] at hrow
  rw [hspan]
  exact hrow.mono le_rfl hle

/-- The declarations of a text are a row, and their leaves are spelled where they stand. -/
theorem Module.row_of_parse {text : List Char} {parsed : Parsed}
    (h : Module.parse text = .ok parsed) :
    Node.Row (Token.Spelled text) parsed.tree.span.start (parsed.tree.body.map (·.toNode))
      parsed.tree.span.stop :=
  row_of_tokens h fun _ => TokenStream.spelled_of_mem

/-! ### Annotation -/

namespace Node

open Annotate

variable {P : Token → Prop} {n n' : Node}

/-- A node whose parts look the same from outside is in its place with them. -/
theorem WellPlaced.congr (h : n.WellPlaced P) (hspan : n'.span = n.span)
    (hfront : n'.front = n.front) (htoken : n'.token? = n.token?)
    (haccess : n.Accessed P → n'.Accessed P) (f : Node → Node)
    (hparts : n'.parts = n.parts.map fun part => (part.1, f part.2))
    (hf : ∀ part ∈ n.parts, (f part.2).span = part.2.span ∧ (f part.2).front = part.2.front)
    (hbelow : ∀ part ∈ n.parts, (f part.2).WellPlaced P) : n'.WellPlaced P := by
  have hn := h.placed
  have hmem : ∀ {Q : String × Node → Prop}, (∀ part ∈ n.parts, Q (part.1, f part.2)) →
      ∀ part ∈ n'.parts, Q part := by
    intro Q hQ part hpart
    rw [hparts] at hpart
    obtain ⟨old, hold, rfl⟩ := List.mem_map.mp hpart
    exact hQ old hold
  refine wellPlaced_of_parts ?_ (hmem hbelow)
  constructor
  case front_le => rw [hfront, hspan]; exact hn.front_le
  case start_le => rw [hspan]; exact hn.start_le
  case nonempty =>
    refine hmem fun part hpart => ?_
    rw [(hf part hpart).1]
    exact hn.nonempty part hpart
  case apart =>
    rw [hparts, List.pairwise_map]
    refine hn.apart.imp_of_mem fun {a b} ha hb hab => ?_
    rw [Apart, (hf a ha).1, (hf a ha).2, (hf b hb).1, (hf b hb).2]
    exact hab
  case inside =>
    refine hmem fun part hpart hlabel => ?_
    rw [hspan, (hf part hpart).1, (hf part hpart).2]
    exact hn.inside part hpart hlabel
  case before =>
    refine hmem fun part hpart hlabel => ?_
    rw [hspan, hfront, (hf part hpart).1, (hf part hpart).2]
    exact hn.before part hpart hlabel
  case token => rw [htoken]; exact hn.token
  case access => exact haccess hn.access

/-- A node with the types of the names it declares written in; only functions and variables of a
module have any. -/
def typed (text : List Char) : Node → Node
  | .function f => .function
      { f with params := typeParams text f.params, body := typeStmts text f.body }
  | .params p => .params (typeParams text p)
  | .param p => .param { p with resolved := some (p.type.typeText text) }
  | .var v => .var { v with resolved := some (v.type.unwrap.typeText text) }
  | .stmt s => .stmt (typeStmt text s)
  | n => n

/-- Whether types are written into a node of this form, and then into its parts. -/
def takesTypes : Node → Bool
  | .function _ | .params _ | .param _ | .var _ | .stmt _ => true
  | _ => false

theorem typed_eq_self (text : List Char) (h : n.takesTypes = false) : n.typed text = n := by
  cases n with
  | function | params | param | var | stmt => cases h
  | _ => rfl

theorem typeStmts_eq (text : List Char) (ss : List Stmt) :
    typeStmts text ss = ss.map (typeStmt text) := by
  induction ss with
  | nil => rw [typeStmts, List.map_nil]
  | cons s ss ih => rw [typeStmts, ih, List.map_cons]

theorem span_typed (text : List Char) (n : Node) : (n.typed text).span = n.span := by
  cases n with
  | stmt s =>
    cases s with
    | loop span target => cases target <;> rfl
    | _ => rfl
  | _ => rfl

theorem front_typed (text : List Char) (n : Node) : (n.typed text).front = n.front := by
  cases n with
  | stmt s => exact congrArg Span.start (span_typed text (.stmt s))
  | _ => rfl

theorem token?_typed (text : List Char) (n : Node) : (n.typed text).token? = n.token? := by
  cases n <;> rfl

theorem accessed_typed {n : Node} (h : n.Accessed P) (text : List Char) :
    (n.typed text).Accessed P := by
  cases n with
  | expr e => exact h
  | _ => trivial

theorem parts_typed_stmt (text : List Char) (s : Stmt) :
    ((stmt s).typed text).parts = (stmt s).parts.map fun part => (part.1, part.2.typed text) := by
  cases s with
  | declare span target type value resolved =>
    cases value <;> cases resolved <;> rfl
  | ret span value => cases value <;> rfl
  | assert span test message => cases message <;> rfl
  | raise span error => cases error <;> rfl
  | branch span test body orelse =>
    simp [typed, typeStmt, parts, fields, Stmt.fields, partsOf, FieldValue.stmts, typeStmts_eq,
      Function.comp_def]
  | loop span target iter body =>
    cases target <;>
      simp [typed, typeStmt, parts, fields, Stmt.fields, partsOf, FieldValue.stmts, typeStmts_eq,
        LoopTarget.toNode, Function.comp_def]
  | _ => rfl

theorem parts_typed (text : List Char) (h : n.takesTypes = true) :
    (n.typed text).parts = n.parts.map fun part => (part.1, part.2.typed text) := by
  cases n with
  | stmt s => exact parts_typed_stmt text s
  | function f =>
    simp [typed, parts_function, typeStmts_eq, Function.comp_def]
  | params p =>
    simp [typed, typeParams, parts, fields, partsOf, FieldValue.exprs, Function.comp_def]
  | param p =>
    obtain ⟨span, name, type, resolved⟩ := p
    cases resolved <;> rfl
  | var v =>
    obtain ⟨span, target, type, value, modifiers, resolved⟩ := v
    cases value <;> cases resolved <;> rfl
  | _ => cases h

/-- Types written into a node move nothing. -/
theorem WellPlaced.typed {n : Node} (h : n.WellPlaced P) (text : List Char) :
    (n.typed text).WellPlaced P := by
  cases htakes : n.takesTypes with
  | false => rwa [typed_eq_self text htakes]
  | true =>
    refine h.congr (span_typed text n) (front_typed text n) (token?_typed text n)
      (fun haccess => accessed_typed haccess text) (Node.typed text) (parts_typed text htakes)
      (fun part _ => ⟨span_typed text part.2, front_typed text part.2⟩) ?_
    intro part hpart
    have hlt := sizeOf_lt_of_mem_parts hpart
    exact WellPlaced.typed (h.part hpart) text
termination_by sizeOf n

/-- The declarations a module is typed in: a statement among them stays. -/
def typedTop (text : List Char) : Node → Node
  | .stmt s => .stmt s
  | n => n.typed text

theorem typedTop_eq (text : List Char) (n : Node) :
    n.typedTop text = n ∨ n.typedTop text = n.typed text := by
  cases n with
  | stmt s => exact .inl rfl
  | _ => exact .inr rfl

theorem typedTop_declaration (text : List Char) (d : Declaration) :
    (typeDeclaration text d).toNode = d.toNode.typedTop text := by
  cases d <;> rfl

theorem WellPlaced.typeDeclarations {m : Module} (h : (Node.module m).WellPlaced P)
    (text : List Char) :
    (Node.module { m with body := m.body.map (typeDeclaration text) }).WellPlaced P := by
  refine h.congr rfl rfl rfl (fun haccess => haccess) (typedTop text) ?_ ?_ ?_
  · simp [parts_module, typedTop_declaration, Function.comp_def]
  · intro part _
    rcases typedTop_eq text part.2 with hsame | htyped
    · rw [hsame]
      exact ⟨rfl, rfl⟩
    · rw [htyped]
      exact ⟨span_typed text part.2, front_typed text part.2⟩
  · intro part hpart
    rcases typedTop_eq text part.2 with hsame | htyped
    · rw [hsame]
      exact h.part hpart
    · rw [htyped]
      exact (h.part hpart).typed text

end Node

namespace Module

/-- The tree as it is read from a text, or with types written in. -/
def IsTreeOf (m : Module) (text : List Char) : Prop :=
  ∃ parsed, Module.parse text = .ok parsed ∧
    (m = parsed.tree ∨ ∃ path importer tables,
      parsed.tree.annotate text path importer = .ok tables ∧ tables.tree = some m)

theorem tree_of_annotate {m : Module} {text : List Char} {path : Option Path}
    {importer : Importer} {tables : ModuleType} (h : m.annotate text path importer = .ok tables) :
    tables.tree = some { m with body := m.body.map (Annotate.typeDeclaration text) } := by
  unfold annotate at h
  dsimp only at h
  obtain ⟨draft, -, h⟩ := exists_of_bind_eq_ok h
  obtain ⟨_, -, h⟩ := exists_of_bind_eq_ok h
  obtain ⟨_, -, h⟩ := exists_of_bind_eq_ok h
  cases h
  rfl

/-- A tree begins where its text does, and ends in it. -/
theorem IsTreeOf.span_eq {m : Module} {text : List Char} (h : m.IsTreeOf text) :
    m.span.start = .origin ∧ m.span.stop ≤ Pos.origin.advance text := by
  obtain ⟨parsed, hparse, hm⟩ := h
  obtain ⟨stream, -, hstream, -⟩ := exists_of_parse hparse
  obtain ⟨heof, -⟩ := TokenStream.ofText_eq_ok hstream
  obtain ⟨-, -, -, -, -, -, hspan⟩ := derives_of_parse hparse hstream
  have hparsed : parsed.tree.span.start = .origin ∧
      parsed.tree.span.stop ≤ Pos.origin.advance text := by
    rw [hspan, heof]
    exact ⟨rfl, le_rfl⟩
  rcases hm with rfl | ⟨path, importer, tables, hannotate, htree⟩
  · exact hparsed
  · rw [tree_of_annotate hannotate] at htree
    cases htree
    exact hparsed

/-- Every tree of a text is well placed, whatever is known of the tokens of the text. -/
theorem IsTreeOf.wellPlaced_of_tokens {P : Token → Prop} {m : Module} {text : List Char}
    (h : m.IsTreeOf text) (hP : ∀ stream, TokenStream.ofText text = .ok stream →
      ∀ t ∈ stream.tokens, t.kind.isMark = false → P t) : (Node.module m).WellPlaced P := by
  obtain ⟨parsed, hparse, hm⟩ := h
  have hraw := Node.WellPlaced.module (row_of_tokens hparse hP)
  rcases hm with rfl | ⟨path, importer, tables, hannotate, htree⟩
  · exact hraw
  · rw [tree_of_annotate hannotate] at htree
    cases htree
    exact hraw.typeDeclarations text

/-- The leaves of a tree are spelled where they stand. -/
theorem IsTreeOf.wellPlaced {m : Module} {text : List Char} (h : m.IsTreeOf text) :
    (Node.module m).WellPlaced (Token.Spelled text) :=
  h.wellPlaced_of_tokens fun _ => TokenStream.spelled_of_mem

theorem IsTreeOf.wellPlaced_declaration {m : Module} {text : List Char} (h : m.IsTreeOf text)
    {d : Declaration} (hd : d ∈ m.body) : d.toNode.WellPlaced (Token.Spelled text) :=
  Node.Throughout.module h.wellPlaced d hd

/-- A declaration lies in the text. -/
theorem IsTreeOf.inside_text {m : Module} {text : List Char} (h : m.IsTreeOf text) {d : Declaration}
    (hd : d ∈ m.body) :
    Pos.origin ≤ d.toNode.front ∧ d.toNode.span.stop ≤ Pos.origin.advance text := by
  obtain ⟨hstart, hstop⟩ := h.span_eq
  have hpart : ("body", d.toNode) ∈ (Node.module m).parts := by
    rw [Node.parts_module]
    exact List.mem_map_of_mem hd
  obtain ⟨hfront, hend⟩ := h.wellPlaced.placed.inside _ hpart (by simp)
  exact ⟨hstart.symm.le.trans hfront, le_trans hend hstop⟩

end Module

end Vyper
