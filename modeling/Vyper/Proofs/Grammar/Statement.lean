import Vyper.Proofs.Extent
import Vyper.Proofs.Grammar.Expression

/-!
# Reading statements

A statement is put onto the stack with the end of its line (`Grammar.Lines`). A block ends with the
mark that closes it, for a text does not end inside a block. A loop variable has no type: a type
would be read together with the `in` behind it (`Grammar.yields_loopStatement`).
-/

namespace Vyper.Grammar

open Vyper.Parser
open Vyper.Grammar.Symbol (sign word)

variable {α : Type} {first : ParseState} {edge : Edge} {row : List Symbol} {s : ParseState}
  {inner : Parser Stmt}

/-! ### Lines -/

theorem filled_nil : Filled [] [] := ⟨rfl, by simp⟩

theorem filled_node (n : Node) : Filled [.node n] [n] := ⟨rfl, by simp [Symbol.token?]⟩

theorem filled_newline (a : Span) : Filled [.token ⟨.newline, a⟩] [] :=
  ⟨rfl, by simp [Symbol.token?]⟩

theorem Filled.append {r r' : List Symbol} {ns ns' : List Node} (h : Filled r ns)
    (h' : Filled r' ns') : Filled (r ++ r') (ns ++ ns') :=
  ⟨by rw [nodes_append, h.1, h'.1], List.forall_mem_append.mpr ⟨h.2, h'.2⟩⟩

/-- Nodes and ends of lines are put onto the stack, up to where a line begins. -/
def Lines (first : ParseState) (row : List Symbol) (ns : List Node) (s : ParseState) : Prop :=
  ∃ r, Filled r ns ∧ Reached first .line (row ++ r) s

theorem Lines.cons {r : List Symbol} {ns ns' : List Node} (hr : Filled r ns)
    (h : Lines first (row ++ r) ns' s) : Lines first row (ns ++ ns') s := by
  obtain ⟨r', hr', hs⟩ := h
  exact ⟨r ++ r', hr.append hr', hs.as⟩

theorem yields_lineEnd_lines (hs : Reached first edge row s) :
    Reads first lineEnd s fun _ t => Lines first row [] t := by
  have hstay : s.kind.isMark = true → Lines first row [] s :=
    fun hmark => ⟨[], filled_nil, by simpa using hs.line hmark⟩
  refine yields_peekKind ?_
  split
  · next hkind =>
    have ht := hs.shift (ParseState.peek_of_kind hkind) nofun
    exact yields_advance (yields_pure ⟨_, filled_newline _, ht⟩)
  · next hkind => exact yields_pure (hstay (by rw [hkind]; rfl))
  · next hkind => exact yields_pure (hstay (by rw [hkind]; rfl))
  · exact hs.unexpected

theorem yields_skipNewlines_lines (hs : Reached first .line row s) :
    Reads first skipNewlines s fun _ t => Lines first row [] t := by
  refine yields_limit ?_
  generalize s.limit = n
  induction n generalizing s row with
  | zero => exact yields_pure ⟨[], filled_nil, by simpa using hs⟩
  | succ n ih =>
    refine hs.accept nofun (fun _ a t ht => ?_) fun _ => ?_
    · exact (ih ht).mono fun _ _ h => h.cons (filled_newline a)
    · exact yields_pure ⟨[], filled_nil, by simpa using hs⟩

/-! ### Statements of a line -/

/-- What may be left out at the end of a line. -/
theorem yields_optional {value : Parser Expr} {post : Expr → ParseState → Prop}
    (hvalue : Reads first value s post) :
    Reads first (Parser.optional value) s fun r t =>
      (r = none ∧ t = s) ∨ ∃ e, r = some e ∧ post e t := by
  refine yields_peekKind ?_
  split
  · exact yields_pure (.inl ⟨rfl, rfl⟩)
  · exact hvalue.bind fun e t he => yields_pure (.inr ⟨e, rfl, he⟩)

theorem yields_afterTarget {target : Expr} {trailing : Bool}
    (hs : Reached first .any (row ++ [.listed trailing target]) s) :
    Reads first (afterTarget target) s fun st t =>
      Reached first .any (row ++ [.node (.stmt st)]) t := by
  refine yields_peekKind ?_
  split
  · next hkind =>
    have hcolon := hs.shift (ParseState.peek_of_kind hkind) nofun
    refine yields_advance ?_
    split
    · refine (readsOperand_expression hcolon).bind fun type s₁ hs₁ => ?_
      refine hs₁.accept nofun (fun _ a s₂ hs₂ => ?_) fun _ => ?_
      · refine (readsOperand_expression hs₂).bind fun value t ht => yields_pure ?_
        exact ht.reduce fun _ _ => .declare .some
      · exact yields_pure (hs₁.reduce fun _ _ => .declare .none)
    · exact hcolon.fail (n := .expr target) (by simp [Symbol.nodes])
  · next hkind =>
    have hassign := hs.shift (ParseState.peek_of_kind hkind) nofun
    refine yields_advance ((yields_expressions hassign).bind ?_)
    rintro value t ⟨trailing, ht⟩
    exact yields_pure (ht.reduce fun _ _ => .assign)
  · next op hkind =>
    have hupdate := hs.shift (ParseState.peek_of_kind hkind) (by simp)
    refine yields_advance ((readsOperand_expression hupdate).bind fun value t ht => yields_pure ?_)
    exact ht.reduce fun _ _ => .update
  · exact yields_pure (hs.reduce fun _ _ => .eval)

theorem yields_smallStatement (hs : Reached first .clear row s) :
    Reads first smallStatement s fun st t => Reached first .any (row ++ [.node (.stmt st)]) t := by
  refine yields_peek ?_
  split
  · next a hpeek =>
    exact yields_advance (yields_pure ((hs.shift hpeek nofun).any.reduce fun _ _ => .pass))
  · next a hpeek =>
    exact yields_advance (yields_pure ((hs.shift hpeek nofun).any.reduce fun _ _ => .leave))
  · next a hpeek =>
    exact yields_advance (yields_pure ((hs.shift hpeek nofun).any.reduce fun _ _ => .next))
  · next a hpeek =>
    have hword := hs.shift hpeek nofun
    refine yields_advance ((yields_optional (yields_expressions hword)).bind ?_)
    rintro _ t (⟨rfl, rfl⟩ | ⟨e, rfl, trailing, ht⟩)
    · exact yields_pure (hword.any.reduce fun _ _ => .ret)
    · exact yields_pure (ht.reduce fun _ _ => .retValue)
  · next a hpeek =>
    refine yields_advance ((readsOperand_expression (hs.shift hpeek nofun)).bind fun e t ht =>
      yields_pure ?_)
    exact ht.reduce fun _ _ => .log
  · next a hpeek =>
    refine yields_advance ((readsOperand_expression (hs.shift hpeek nofun)).bind
      fun test s₁ hs₁ => ?_)
    refine hs₁.accept nofun (fun _ a s₂ hs₂ => ?_) fun _ => ?_
    · refine (readsOperand_expression hs₂).bind fun message t ht => yields_pure ?_
      exact ht.reduce fun _ _ => .assert .some
    · exact yields_pure (hs₁.reduce fun _ _ => .assert .none)
  · next a hpeek =>
    have hword := hs.shift hpeek nofun
    refine yields_advance ((yields_optional (readsOperand_expression hword)).bind ?_)
    rintro _ t (⟨rfl, rfl⟩ | ⟨e, rfl, ht⟩)
    · exact yields_pure (hword.any.reduce fun _ _ => .raise)
    · exact yields_pure (ht.reduce fun _ _ => .raiseValue)
  · refine (yields_expressions hs).bind ?_
    rintro target t ⟨trailing, ht⟩
    exact yields_afterTarget ht

theorem yields_simpleStatement (hs : Reached first .clear row s) :
    Reads first simpleStatement s fun st t => Lines first row [.stmt st] t := by
  refine (yields_smallStatement hs).bind fun st s₁ hs₁ =>
    (yields_lineEnd_lines hs₁).bind fun _ t ht => ?_
  exact yields_pure (ht.cons (filled_node _))

/-! ### Blocks -/

theorem yields_openBlock (hs : Reached first edge row s) (hkind : s.kind = .newline) :
    Reads first openBlock s fun _ t => ∃ a b,
      Reached first .line (row ++ [.token ⟨.newline, a⟩, .token ⟨.indent, b⟩]) t := by
  have hnewline := hs.shift (ParseState.peek_of_kind hkind) nofun
  exact yields_advance (hnewline.expect nofun fun _ b t ht => yields_pure ⟨_, b, ht.as⟩)

/-- A parser that puts a statement with the end of its line onto the stack. -/
def ReadsStatement (first : ParseState) (p : Parser Stmt) : Prop :=
  ∀ ⦃row s⦄, Reached first .clear row s → Reads first p s fun st t => Lines first row [.stmt st] t

section Block

variable (hfirst : first.Sound) (hinner : ReadsStatement first inner)
include hfirst hinner

theorem yields_blockItems {n : Nat} (hs : Reached first .line row s) (hdepth : 0 < depth row)
    (hn : first.tokens.length < n + row.length) :
    Reads first (blockItems inner n) s fun ss t => ∃ r c, Filled r (ss.map .stmt) ∧
      Reached first .line (row ++ (r ++ [.token ⟨.dedent, c⟩])) t := by
  induction n generalizing s row with
  | zero =>
    have hle := hs.length_le
    omega
  | succ n ih =>
    refine (yields_skipNewlines_lines hs).bind ?_
    rintro _ s₁ ⟨marks, hmarks, hs₁⟩
    have hdepth₁ : 0 < depth (row ++ marks) := by simpa [hmarks.depth_eq] using hdepth
    refine yields_peekKind ?_
    split
    · next hkind =>
      have ht := hs₁.shift (ParseState.peek_of_kind hkind) nofun
      exact yields_advance (yields_pure ⟨marks, _, hmarks, ht.as⟩)
    · next hkind => exact absurd hkind (hs₁.kind_ne_eof hfirst hdepth₁)
    · refine (hinner hs₁.clear).bind ?_
      rintro st s₂ ⟨r, hr, hs₂⟩
      have hpos : r ≠ [] := by rintro rfl; cases hr.1
      have hlength := List.length_pos_iff.mpr hpos
      refine (ih hs₂ (by simpa [hr.depth_eq] using hdepth₁) (by simp; omega)).bind ?_
      rintro more t ⟨r', c, hr', ht⟩
      exact yields_pure ⟨_, c, (hmarks.append hr).append hr', ht.as⟩

theorem yields_block (hs : Reached first .clear row s) :
    Reads first (block inner) s fun r t => ∃ r' last, Block r' r.1 ∧ r.1.getLast? = some last ∧
      r.2 = last.span ∧ Reached first .line (row ++ r') t := by
  -- What is returned behind the statements, and refused where there are none.
  have hlast : ∀ {p : Parser (List Stmt × Span)} {body : List Stmt} {r t}, Block r body →
      Reached first .line (row ++ r) t → (∀ last, body.getLast? = some last →
        p = pure (body, last.span)) →
      (body.getLast? = none → p = unexpected .block) →
      Reads first p t fun r t => ∃ r' last, Block r' r.1 ∧ r.1.getLast? = some last ∧
        r.2 = last.span ∧ Reached first .line (row ++ r') t := by
    intro p body r t hr ht hsome hnone
    cases hlast : body.getLast? with
    | some last =>
      rw [hsome last hlast]
      exact yields_pure ⟨r, last, hr, hlast, rfl, ht⟩
    | none =>
      rw [hnone hlast]
      exact ht.unexpected
  refine yields_peekKind ?_
  dsimp only
  split
  · next hkind =>
    refine (yields_openBlock hs hkind).bind ?_
    rintro _ s₁ ⟨a, b, hs₁⟩
    have hdepth := hs.depth_nonneg hfirst
    refine yields_limit ?_
    refine (yields_blockItems hfirst hinner hs₁ (by simp; omega)
      (by have := hs₁.limit; omega)).bind ?_
    rintro body t ⟨r, c, hr, ht⟩
    exact hlast (.lines a b c hr) ht.as (fun last h => by rw [h]) fun h => by rw [h]
  · refine (yields_simpleStatement hs).bind ?_
    rintro only t ⟨r, hr, ht⟩
    exact hlast (.line hr) ht (fun last h => by cases h; rfl) fun h => by cases h

theorem yields_branchUpTo {w : String} {n : Nat} (hs : Reached first .clear row s)
    (hw : s.kind = .name w) :
    Reads first (branchUpTo inner n) s fun st t =>
      Reached first .line (row ++ [.node (.stmt st)]) t := by
  induction n generalizing s row w with
  | zero => exact hs.unexpected
  | succ n ih =>
    have hword := hs.shift (ParseState.peek_of_kind hw) nofun
    refine yields_advance ((readsOperand_expression hword).bind fun test s₁ hs₁ => ?_)
    refine hs₁.expect nofun fun _ c s₂ hs₂ => ?_
    refine (yields_block hfirst hinner hs₂).bind ?_
    rintro ⟨body, stop⟩ s₃ ⟨r, last, hr, hlast, rfl, hs₃⟩
    refine yields_peekKind ?_
    split
    · next hkind =>
      refine (ih hs₃.clear hkind).bind fun nested t ht => yields_pure ?_
      exact ht.reduce fun _ _ => .branch hr .further (by simp)
    · next hkind =>
      have helse := hs₃.shift (ParseState.peek_of_kind hkind) nofun
      refine yields_advance (helse.expect nofun fun _ d s₄ hs₄ => ?_)
      refine (yields_block hfirst hinner hs₄).bind ?_
      rintro ⟨orelse, stop⟩ t ⟨r', last', hr', hlast', rfl, ht⟩
      refine yields_pure (ht.reduce fun _ _ => .branch hr (.other _ d hr') ?_)
      simp [List.getLast?_append, hlast']
    · have ht := hs₃.as (List.append_nil _).symm
      exact yields_pure (ht.reduce fun _ _ => .branch hr .nothing (by simpa using hlast))

/-- A loop variable has no type: the `in` behind it would be an operator of the type. -/
theorem yields_loopStatement (hs : Reached first .clear row s) (hw : s.kind = .name "for") :
    Reads first (loopStatement inner) s fun st t =>
      Reached first .line (row ++ [.node (.stmt st)]) t := by
  have hfor := hs.shift (ParseState.peek_of_kind hw) nofun
  have htarget : Reads first loopTarget s.advance fun target t =>
      (t.kind ≠ .name "in" ∧ ∃ row, Reached first .any row t) ∨
        ∃ a id, target = .bare (.name a id) ∧
        Reached first .clear (row ++ [word "for" s.peek.span, .node (.expr (.name a id))]) t := by
    refine hfor.name fun id a _ hid => ?_
    have hname := hid.reduce fun _ _ => .binder
    refine hname.accept nofun (fun _ c s₁ hs₁ => ?_) fun _ =>
      yields_pure (.inr ⟨a, id, rfl, hname.as⟩)
    refine ((readsOperand_expression hs₁).and (goesTo_expression hs₁.length_tokens_le)).bind ?_
    rintro type s₂ ⟨hs₂, -, hends⟩
    refine yields_pure (.inl ⟨fun hin => ?_, _, hs₂⟩)
    rw [s₂.kind_eq_next] at hin
    exact absurd hends.operatorLevel_eq_none (by simp [operatorLevel, hin])
  refine yields_advance (htarget.bind ?_)
  rintro target s₁ (⟨hne, _, hs₁⟩ | ⟨a, id, rfl, hs₁⟩)
  · exact (yields_expect_peek hs₁.blames_peek).bind fun _ _ h => absurd h.2.1 hne
  · refine hs₁.expect (by simp) fun _ b s₂ hs₂ => ?_
    refine (readsOperand_expression hs₂).bind fun iter s₃ hs₃ => ?_
    refine hs₃.expect (by simp) fun _ c s₄ hs₄ => ?_
    refine (yields_block hfirst hinner hs₄).bind ?_
    rintro ⟨body, stop⟩ t ⟨r, last, hr, hlast, rfl, ht⟩
    exact yields_pure (ht.reduce fun _ _ => .loop hr hlast)

end Block

theorem readsStatement_statementUpTo (hfirst : first.Sound) (n : Nat) :
    ReadsStatement first (statementUpTo n) := by
  induction n with
  | zero => exact fun _ _ hs => hs.unexpected
  | succ n ih =>
    intro row s hs
    refine yields_peekKind ?_
    split
    · next hkind =>
      exact yields_limit ((yields_branchUpTo hfirst ih hs hkind).mono fun _ _ ht =>
        ⟨_, filled_node _, ht⟩)
    · next hkind =>
      exact (yields_loopStatement hfirst ih hs hkind).mono fun _ _ ht => ⟨_, filled_node _, ht⟩
    · exact yields_simpleStatement hs

theorem readsStatement_statement (hfirst : first.Sound) : ReadsStatement first statement :=
  fun _ s hs =>
  yields_limit (readsStatement_statementUpTo hfirst (s.limit + 1) hs)

end Vyper.Grammar
