import Vyper.Proofs.Rereading

/-!
# What an expression was read from

The tokens of a symbol are read again as what the symbol stands for (`Grammar.Symbol.Rereads`). The
rules put together the tokens of their symbols, so each of them asks for one lemma of `Parser.Block`
(`Grammar.Rule.rereads`). Every node that a rule makes is restored from tokens of the text, and so
every expression of a module is (`Module.restored_of_parse`).
-/

namespace Vyper

open Token (Sorted Tight Closed)

namespace Grammar

open Vyper.Parser
open Vyper.Grammar.Symbol (sign word)

/-- Tokens that a symbol is read from, and that are read for it again. -/
def Symbol.Rereads : Symbol → List Token → Prop
  | .token t, us => us = [t]
  | .head id a, us => us = [⟨.name id, a⟩]
  | .operand l k e, us => Parser.Block l us e ∧ next (us.map Token.kind) = k
  | .listed trailing e, us => trailing = false → Block.Slice us e
  | .node (.keyword w), us =>
    Item (fun n => argument (expressionUpTo (n + 1))) argumentView EndsArgument us (.inr w)
  | .node _, _ => True

variable {notes : List Deprecation} {items row : List Symbol} {x : Symbol} {ts us : List Token}
  {e : Expr} {l : Nat} {trailing : Bool}

theorem along_tokens (h : Along Symbol.Rereads (ts.map .token) us) : us = ts := by
  induction ts generalizing us with
  | nil => exact h
  | cons t ts ih =>
    obtain ⟨_, ws, rfl, rfl, hws⟩ := h
    rw [ih hws]
    rfl

/-- What a list is read from. -/
theorem Listed.separated {α : Type} {sep : TokenKind} {Item : List Symbol → α → Prop} {as : List α}
    {P : List Token → α → Prop} (h : Listed sep Item trailing row as)
    (hItem : ∀ row a us, Item row a → Along Symbol.Rereads row us → P us a)
    (hrow : Along Symbol.Rereads row us) : Separated sep P trailing us as := by
  induction h generalizing us with
  | nil =>
    cases hrow
    exact .nil
  | last ha => exact .last (hItem _ _ us ha hrow)
  | cons mark ha _ ih =>
    obtain ⟨vs, _, rfl, hvs, _, ws, rfl, rfl, hws⟩ := along_append.mp hrow
    exact .cons (hItem _ _ vs ha hvs) rfl (ih hws)

theorem Listed.blocks {sep : TokenKind} {es : List Expr}
    (h : Listed sep (Operand l) trailing row es) (hrow : Along Symbol.Rereads row us) :
    Separated sep (Parser.Block l) trailing us es := by
  refine h.separated ?_ hrow
  rintro _ e us ⟨⟩ ⟨vs, _, rfl, he, rfl⟩
  rw [List.append_nil]
  exact he.1

theorem Listed.entries {entries : List Entry} (h : Listed (.punct .comma) Pair trailing row entries)
    (hrow : Along Symbol.Rereads row us) :
    Separated (.punct .comma) (Item (fun n => Parser.entry (expressionUpTo (n + 1))) Entry.unplaced
      (EndsAt 0)) trailing us entries := by
  refine h.separated ?_ hrow
  rintro _ _ us ⟨⟩ ⟨vs, _, rfl, hkey, _, _, rfl, rfl, ws, _, rfl, hvalue, rfl⟩
  rw [List.append_nil]
  exact hkey.1.entry rfl hvalue.1

theorem Listed.arguments {arguments : List (Expr ⊕ Keyword)}
    (h : Listed (.punct .comma) Argument trailing row arguments)
    (hrow : Along Symbol.Rereads row us) :
    Separated (.punct .comma) (Item (fun n => argument (expressionUpTo (n + 1))) argumentView
      EndsArgument) trailing us arguments := by
  refine h.separated ?_ hrow
  rintro _ _ us (_ | _) ⟨vs, _, rfl, ha, rfl⟩
  · rw [List.append_nil]
    exact ha.1.positional
  · rw [List.append_nil]
    exact ha

/-! ### Rules -/

/-- A name that is bound is a token of its own. -/
theorem restored_name {id : String} {a : Span} (h : [⟨.name id, a⟩] <:+: ts) :
    Restored ts (.expr (.name a id)) := by
  refine ⟨_, h, Token.spans_singleton _, List.forall_mem_singleton.mpr rfl, fun _ he n hn => ?_⟩
  have hid := he.lead id rfl
  have hblock := Block.of_name (t := ⟨.name id, a⟩) rfl (fun h => hid (by rw [h]; decide))
    fun h => hid (by rw [h]; decide)
  refine hblock.reads_group (Nat.le_refl 11) ?_ hn
  rintro _ ⟨⟩ rfl
  exact hid (by decide)

/-- What the tokens of an operand are good for, with what is made from them. -/
theorem rereads_operand {k : TokenKind} (hus : us <:+: ts) (h : Parser.Block l us e) (hl : l ≤ 11)
    (htight : Tight us e.span) (hk : next (us.map Token.kind) = k) :
    (Symbol.operand l k e).Rereads us ∧ ∀ n ∈ (Symbol.operand l k e).nodes, Restored ts n :=
  ⟨⟨h, hk⟩, List.forall_mem_singleton.mpr (h.restored hl hus htight)⟩

theorem next_of_block {more : List Token} (h : Parser.Block l us e) :
    next ((us ++ more).map Token.kind) = next (us.map Token.kind) := by
  rw [List.map_append, next_append h.kinds_ne_nil]

theorem rereads_unary {op : UnaryOp} {kind k : TokenKind} {a : Span}
    (hkind : Piece.kindsOf op.pieces = [kind]) (hsorted : Sorted (⟨kind, a⟩ :: us))
    (hus : ⟨kind, a⟩ :: us <:+: ts) (h : (Symbol.operand op.level k e).Rereads us) :
    (Symbol.operand op.level kind (.unary (a.cover e.span) op e)).Rereads (⟨kind, a⟩ :: us) ∧
      Restored ts (.expr (.unary (a.cover e.span) op e)) := by
  have hblock := Block.unaryOp hkind h.1 hsorted
  exact ⟨⟨hblock.1, rfl⟩, hblock.1.restored (by cases op <;> decide) hus hblock.2⟩

theorem rereads_binary {op : BinaryOp} {left right : Expr} {k k' : TokenKind} {a : Span}
    {vs : List Token} (hsorted : Sorted (us ++ [⟨.punct (.binary op), a⟩] ++ vs))
    (hus : us ++ [⟨.punct (.binary op), a⟩] ++ vs <:+: ts)
    (hleft : (Symbol.operand op.leftLevel k left).Rereads us)
    (hright : (Symbol.operand op.rightLevel k' right).Rereads vs) :
    (Symbol.operand op.level k (joinBinary left op right)).Rereads
      (us ++ [⟨.punct (.binary op), a⟩] ++ vs) ∧
      Restored ts (.expr (joinBinary left op right)) := by
  have hblock := hleft.1.binaryOp rfl hright.1 hsorted
  have hmark : Closed [⟨.punct (.binary op), a⟩] := Token.closed_singleton rfl rfl
  have htight := (hleft.1.tight_join hmark hright.1 hsorted).2
  refine ⟨⟨hblock, ?_⟩, hblock.restored (by cases op <;> decide) hus htight⟩
  rw [List.append_assoc, next_of_block hleft.1, hleft.2]

/-- The tokens of its symbols are read again as what a rule makes, and the node is restored from
tokens of the text. -/
theorem Rule.rereads (h : Rule notes items x) (hts : Sorted ts) (hus : us <:+: ts)
    (hitems : Along Symbol.Rereads items us) : x.Rereads us ∧ ∀ n ∈ x.nodes, Restored ts n := by
  have hsorted := hts.of_infix hus
  have hleaf : ∀ {k a e}, [⟨k, a⟩] <:+: ts → Parser.Block 11 [⟨k, a⟩] e → a = e.span →
      (Symbol.operand 11 k e).Rereads [⟨k, a⟩] ∧ ∀ n ∈ (Symbol.operand 11 k e).nodes,
      Restored ts n := by
    intro k a e hone hblock hspan
    exact rereads_operand hone hblock (Nat.le_refl 11) (hspan ▸ (Token.spans_singleton _).tight) rfl
  cases h with
  | name htrue hfalse =>
    obtain ⟨_, _, rfl, rfl, rfl⟩ := hitems
    exact hleaf hus (.of_name rfl htrue hfalse) rfl
  | truth value =>
    obtain ⟨_, _, rfl, rfl, rfl⟩ := hitems
    refine hleaf hus (.of_token rfl rfl rfl rfl rfl ?_ fun n rest =>
      reads_atom_truth value rest) rfl
    cases value <;> simp
  | @numeral form text =>
    obtain ⟨_, _, rfl, rfl, rfl⟩ := hitems
    exact hleaf hus (.of_token rfl rfl rfl rfl rfl nofun fun n rest =>
      reads_atom_numeral form text rest) rfl
  | str =>
    obtain ⟨_, _, rfl, rfl, rfl⟩ := hitems
    exact hleaf hus (.of_token rfl rfl rfl rfl rfl nofun fun n rest =>
      reads_atom_str (.inl rfl) rest) rfl
  | bytes =>
    obtain ⟨_, _, rfl, rfl, rfl⟩ := hitems
    exact hleaf hus (.of_token rfl rfl rfl rfl rfl nofun fun n rest =>
      reads_atom_str (.inr rfl) rest) rfl
  | tuple hes hmany =>
    obtain ⟨_, _, rfl, rfl, hrest⟩ := hitems
    obtain ⟨vs, _, rfl, hvs, _, _, rfl, rfl, rfl⟩ := along_append.mp hrest
    have htight := Token.tight_brackets hsorted
    cases hes.blocks hvs with
    | nil => exact rereads_operand hus (.unit rfl rfl hsorted) (Nat.le_refl 11) htight rfl
    | last => simp at hmany
    | cons hfirst hmark hmore =>
      exact rereads_operand hus (.tuple rfl hfirst hmark hmore rfl hsorted) (Nat.le_refl 11)
        htight rfl
  | list hes =>
    obtain ⟨_, _, rfl, rfl, hrest⟩ := hitems
    obtain ⟨vs, _, rfl, hvs, _, _, rfl, rfl, rfl⟩ := along_append.mp hrest
    exact rereads_operand hus (.list rfl (hes.blocks hvs) rfl hsorted) (Nat.le_refl 11)
      (Token.tight_brackets hsorted) rfl
  | dict hentries =>
    obtain ⟨_, _, rfl, rfl, hrest⟩ := hitems
    obtain ⟨vs, _, rfl, hvs, _, _, rfl, rfl, rfl⟩ := along_append.mp hrest
    exact rereads_operand hus (.dict rfl (hentries.entries hvs) rfl hsorted) (Nat.le_refl 11)
      (Token.tight_brackets hsorted) rfl
  | member =>
    obtain ⟨vs, _, rfl, hvalue, _, _, rfl, rfl, _, _, rfl, rfl, rfl⟩ := hitems
    rw [List.append_nil, ← List.append_assoc] at hsorted hus ⊢
    obtain ⟨hblock, htight⟩ := hvalue.1.member rfl rfl hsorted
    refine rereads_operand hus hblock (Nat.le_refl 11) htight ?_
    rw [List.append_assoc, next_of_block hvalue.1, hvalue.2]
  | call harguments =>
    obtain ⟨vs, _, rfl, hvalue, _, _, rfl, rfl, hrest⟩ := hitems
    obtain ⟨ws, _, rfl, hws, _, _, rfl, rfl, rfl⟩ := along_append.mp hrest
    rw [List.append_nil, List.singleton_append, ← List.cons_append, ← List.append_assoc]
      at hsorted hus ⊢
    obtain ⟨hblock, htight⟩ := hvalue.1.call rfl (harguments.arguments hws) rfl hsorted
    refine rereads_operand hus hblock (Nat.le_refl 11) htight ?_
    rw [List.append_assoc, next_of_block hvalue.1, hvalue.2]
  | subscript =>
    obtain ⟨vs, _, rfl, hvalue, _, _, rfl, rfl, ws, _, rfl, hslice, _, _, rfl, rfl, rfl⟩ := hitems
    rw [List.append_nil, List.singleton_append, ← List.cons_append, ← List.append_assoc]
      at hsorted hus ⊢
    obtain ⟨hblock, htight⟩ := hvalue.1.subscript rfl (hslice rfl) rfl hsorted
    refine rereads_operand hus hblock (Nat.le_refl 11) htight ?_
    rw [List.append_assoc, next_of_block hvalue.1, hvalue.2]
  | keyword =>
    obtain ⟨_, _, rfl, rfl, _, _, rfl, rfl, vs, _, rfl, hvalue, rfl⟩ := hitems
    rw [List.append_nil]
    exact ⟨hvalue.1.keyword rfl rfl, List.forall_mem_singleton.mpr trivial⟩
  | @bare _ _ trailing _ _ _ hes =>
    obtain ⟨vs, _, rfl, hfirst, _, ws, rfl, rfl, hws⟩ := hitems
    have hmore := hes.blocks hws
    refine ⟨?_, List.forall_mem_singleton.mpr (hfirst.1.restored_bare rfl hmore hsorted hus)⟩
    rintro rfl
    exact hfirst.1.slice_tuple rfl hmore
  | unary hkind =>
    obtain ⟨_, _, rfl, rfl, vs, _, rfl, he, rfl⟩ := hitems
    rw [List.append_nil] at hsorted hus ⊢
    obtain ⟨hreads, hrestored⟩ := rereads_unary hkind hsorted hus he
    exact ⟨hreads, List.forall_mem_singleton.mpr hrestored⟩
  | binary =>
    obtain ⟨vs, _, rfl, hleft, _, _, rfl, rfl, ws, _, rfl, hright, rfl⟩ := hitems
    rw [List.append_nil, ← List.append_assoc] at hsorted hus ⊢
    obtain ⟨hreads, hrestored⟩ := rereads_binary hsorted hus hleft hright
    exact ⟨hreads, List.forall_mem_singleton.mpr hrestored⟩
  | @compare op k left k' right ops hops =>
    obtain ⟨vs, _, rfl, hleft, hrest⟩ := hitems
    obtain ⟨ws, _, rfl, hws, zs, _, rfl, hright, rfl⟩ := along_append.mp hrest
    obtain rfl := along_tokens hws
    rw [List.append_nil, ← List.append_assoc] at hsorted hus ⊢
    have hblock := hleft.1.compare hops hright.1 hsorted
    have htight := (hleft.1.tight_join (Block.closed_compareOp hops) hright.1 hsorted).2
    refine rereads_operand hus hblock (by decide) htight ?_
    rw [List.append_assoc, next_of_block hleft.1, hleft.2]
  | @logical op _ _ _ _ _ hes =>
    obtain ⟨vs, _, rfl, hfirst, _, ws, rfl, rfl, hws⟩ := hitems
    have hmore := hes.blocks hws
    refine rereads_operand hus (hfirst.1.operands rfl hmore hsorted) (by cases op <;> decide)
      (Separated.tight hfirst.1 rfl hmore rfl hsorted) ?_
    rw [next_of_block hfirst.1, hfirst.2]
  | binder =>
    obtain ⟨_, _, rfl, rfl, rfl⟩ := hitems
    exact ⟨trivial, List.forall_mem_singleton.mpr (restored_name hus)⟩
  | _ => exact ⟨trivial, List.forall_mem_singleton.mpr trivial⟩

theorem Shift.rereads (h : Shift items x) (hitems : Along Symbol.Rereads items us) :
    x.Rereads us := by
  cases h with
  | group =>
    obtain ⟨_, _, rfl, rfl, vs, _, rfl, he, _, _, rfl, rfl, rfl⟩ := hitems
    exact ⟨he.1.group rfl rfl, rfl⟩
  | single =>
    obtain ⟨vs, _, rfl, he, rfl⟩ := hitems
    rw [List.append_nil]
    exact fun _ => he.1.slice
  | @loosen l k e hl hnot =>
    obtain ⟨vs, _, rfl, he, rfl⟩ := hitems
    rw [List.append_nil]
    exact ⟨he.1.loosen hl fun h => he.2 ▸ hnot h, he.2⟩

/-- All that is read is restored from the tokens. -/
theorem Derives.restored (h : Derives notes row ts) (hts : Sorted ts) :
    ∀ n ∈ nodes row, n.Throughout (Restored ts) := by
  have hall : Along (fun x us => x.Rereads us ∧ ∀ n ∈ x.nodes, n.Throughout (Restored ts))
      row ts := by
    refine h.along (fun t => ⟨rfl, nofun⟩) (fun id a => ⟨rfl, nofun⟩) ?_ ?_ (List.prefix_refl _)
    · intro items x us hus hrule hitems
      obtain ⟨hreads, hrestored⟩ := hrule.rereads hts hus (hitems.mono fun _ _ h => h.1)
      exact ⟨hreads, hrule.throughout (hitems.forall_mem fun _ _ h => h.2) hrestored⟩
    · intro items x us hshift hitems
      refine ⟨hshift.rereads (hitems.mono fun _ _ h => h.1), fun n hn => ?_⟩
      obtain ⟨y, hy, hmem⟩ := hshift.exists_mem hn
      exact hitems.forall_mem (fun _ _ h => h.2) y hy n hmem
  intro n hn
  obtain ⟨x, hx, hmem⟩ := List.mem_flatMap.mp hn
  exact hall.forall_mem (fun _ _ h => h.2) x hx n hmem

end Grammar

/-- Every expression of a module is restored from its tokens. -/
theorem Module.restored_of_parse {text : List Char} {stream : TokenStream} {parsed : Parsed}
    (hparse : Module.parse text = .ok parsed) (hstream : TokenStream.ofText text = .ok stream) :
    (Node.module parsed.tree).Throughout (Parser.Restored stream.tokens) :=
  throughout_of_derives hparse hstream trivial fun _ h =>
    h.restored (TokenStream.row_tokens hstream).sorted

end Vyper
