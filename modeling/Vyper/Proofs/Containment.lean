import Vyper.Proofs.DocumentOrder
import Vyper.Proofs.FoldedReads
import Vyper.Proofs.SymbolTables

/-!
# Errors of a compilation

An error of the lexemes or the layout is at a place reading has come to, one of the grammar at
tokens. Every span in a tree that was read lies inside the text
(`Module.IsTreeOf.throughout_inside`), and what annotation and folding complain about is a node of
the tree; an error of an imported file is moved to the import. So every error of the front end is
about places of its own text (`Frontend.within_of_error`, `Frontend.within_of_problem`).
-/

namespace Vyper

variable {lo hi : Pos}

/-! ### Reading -/

namespace Layout

variable {s : Layout} {p : Placed} {e : CompileError}

theorem indentTo_eq_error {width : Nat} {place : Pos} (h : s.indentTo width place = .error e) :
    e = .located .inconsistentIndent (.point place) := by
  unfold indentTo at h
  dsimp only at h
  split at h
  · cases h
  · split at h
    · split at h <;> cases h
      rfl
    · cases h

/-- A lexeme that cannot be taken in is at fault where it starts. -/
theorem feed_eq_error (h : s.feed p = .error e) :
    ∃ fault, e = .located fault (.point p.span.start) := by
  unfold feed at h
  split at h
  · cases h
  · cases h
    exact ⟨_, rfl⟩
  · split at h <;> cases h
  · dsimp only at h
    split at h
    · rcases exists_of_bind_eq_error h with hindent | ⟨_, -, h⟩
      · exact ⟨_, indentTo_eq_error hindent⟩
      · cases h
    · cases h

/-- A text without tokens has its error at a place inside. -/
theorem within_of_tokens {m : Mark} {text : List Char} {eof : Span} (hlo : lo ≤ m.pos)
    (h : s.tokens eof (Lexeme.scan m text) = .error e) : e.Within lo (m.pos.advance text) := by
  fun_induction Lexeme.scan m text generalizing s with
  | case1 m => cases h
  | case2 m c cs next =>
    rename_i ih
    have hnext : next.pos = m.pos.advance (Lexeme.cut c cs).text := Mark.pos_advance ..
    have hle : m.pos ≤ next.pos := hnext ▸ m.pos.le_advance _
    have heof : m.pos.advance (c :: cs) = next.pos.advance (Lexeme.cut c cs).rest := by
      rw [hnext, ← Pos.advance_append, Lexeme.cut_append]
    rcases exists_of_bind_eq_error h with hfeed | ⟨fed, -, h⟩
    · obtain ⟨fault, rfl⟩ := feed_eq_error hfeed
      exact CompileError.within_located fault (Span.within_point hlo (m.pos.le_advance _))
    · rcases exists_of_bind_eq_error h with hmore | ⟨_, -, h⟩
      · rw [heof]
        exact ih (le_trans hlo hle) hmore
      · cases h

end Layout

/-! ### Trees -/

namespace Node

variable {n : Node}

/-- The span of a node lies between two places. -/
def Inside (lo hi : Pos) (n : Node) : Prop := n.span.Within lo hi

theorem WellPlaced.throughout_inside {P : Token → Prop} (h : n.WellPlaced P) (hlo : lo ≤ n.front)
    (hhi : n.span.stop ≤ hi) : n.Throughout (Inside lo hi) := by
  intro path c hc
  obtain ⟨hfront, hstop⟩ := h.around hc
  have hplaced := h path c hc
  exact ⟨le_trans hlo (le_trans hfront hplaced.front_le), hplaced.start_le, le_trans hstop hhi⟩

end Node

namespace Module

variable {text : List Char} {e : CompileError}

/-- A text that cannot be read has its error inside. -/
theorem within_of_parse (h : parse text = .error e) :
    e.Within .origin (Pos.origin.advance text) := by
  rcases exists_of_bind_eq_error h with hstream | ⟨stream, hstream, h⟩
  · rcases exists_of_bind_eq_error hstream with htokens | ⟨_, -, h⟩
    · exact Layout.within_of_tokens (m := Mark.origin) le_rfl htokens
    · cases h
  · rcases exists_of_bind_eq_error h with hread | ⟨_, -, h⟩
    · obtain ⟨heof, -⟩ := TokenStream.ofText_eq_ok hstream
      have hreads := Grammar.yields_wholeModule (ParseState.sound_ofStream hstream) le_rfl
        (List.nil_subset _)
      have hwithin := hreads.2 e hread .origin (TokenStream.row_tokens hstream)
      rw [ParseState.ofStream, heof] at hwithin
      exact hwithin (Span.within_point (Pos.origin.le_advance text) le_rfl)
    · cases h

/-- A tree that is read from a text, with types or without, lies inside it. -/
theorem IsTreeOf.throughout_inside {m : Module} (h : m.IsTreeOf text) :
    (Node.module m).Throughout (Node.Inside .origin (Pos.origin.advance text)) := by
  obtain ⟨hstart, hstop⟩ := h.span_eq
  exact h.wellPlaced.throughout_inside (le_of_eq hstart.symm) hstop

end Module

/-! ### Annotation -/

/-- What annotation finds wrong is in the tree, whatever the imports bring. -/
theorem Module.within_of_annotate {m : Module} {text : List Char} {path : Option Path}
    {files : FileSystem} {search : List Path} {e : CompileError}
    (hm : (Node.module m).Throughout (Node.Inside lo hi))
    (h : m.annotate text path (.fromFiles files search) = .error e) : e.Within lo hi := by
  have hbody := hm.module
  rcases annotate_eq_error hm h with ⟨before, first, between, again, rest, name, hsplit, -,
    -, -, rfl⟩ | ⟨d, hd, request, hspan, himport⟩ | ⟨n, fault, hn, rfl, -⟩
  · -- The name is taken: the error is about both declarations.
    refine List.forall_mem_cons.mpr ⟨(hbody again ?_).self,
      List.forall_mem_singleton.mpr (hbody first ?_).self⟩
    · rw [hsplit]; simp
    · rw [hsplit]; simp
  · obtain ⟨fault, rfl, -⟩ := Importer.fromFiles_eq_error himport
    exact CompileError.within_located fault (hspan ▸ (hbody d hd).self)
  · exact CompileError.within_located fault hn

/-! ### Folding -/

namespace Folding

variable {cs : Constants} {e : CompileError}

/-- A division by zero is a part of what is evaluated. -/
theorem within_of_evaluate {value : Expr}
    (hvalue : (Node.expr value).Throughout (Node.Inside lo hi)) (h : evaluate cs value = .error e) :
    e.Within lo hi := by
  obtain ⟨path, span, left, op, right, l, hat, -, -, -, rfl⟩ := division_of_evaluate h
  exact CompileError.within_located _ (hvalue.at? hat).self

theorem within_of_constantsOf {ds : List Declaration}
    (hds : ∀ d ∈ ds, d.toNode.Throughout (Node.Inside lo hi)) (h : constantsOf cs ds = .error e) :
    e.Within lo hi := by
  obtain ⟨before, v, after, earlier, value, rfl, -, hvalue, hev⟩ := declaration_of_constantsOf h
  have hv : (Node.var v).Throughout (Node.Inside lo hi) :=
    hds (.var v) (List.mem_append_right before List.mem_cons_self)
  have hfield : ("value", .node (.expr value)) ∈ (Node.var v).fields := by
    simp [Node.fields, FieldValue.expr?, hvalue]
  exact within_of_evaluate (hv.node hfield) hev

end Folding

theorem Module.within_of_fold {m : Module} {e : CompileError}
    (hm : (Node.module m).Throughout (Node.Inside lo hi)) (h : m.fold = .error e) :
    e.Within lo hi := by
  cases hcs : Folding.constantsOf [] m.body with
  | error e' =>
    rw [Module.fold_of_error hcs] at h
    cases h
    exact Folding.within_of_constantsOf hm.module hcs
  | ok cs =>
    obtain ⟨path, operation, hpath, -, hevaluate⟩ := Module.operation_of_fold hcs h
    exact Folding.within_of_evaluate (hm.at? hpath) hevaluate

/-! ### The front end -/

namespace Frontend

variable {files : FileSystem} {text : List Char} {search : List Path} {e : CompileError}

/-- An error that keeps a text from being read lies inside it. -/
theorem within_of_error (h : builtIn files text search = .error e) :
    e.Within .origin (Pos.origin.advance text) := by
  rcases exists_of_bind_eq_error h with hparse | ⟨_, -, h⟩
  · exact Module.within_of_parse hparse
  · cases h

/-- So does what is wrong with a text that can be read, whatever the files say that it imports. -/
theorem within_of_problem {c : Compilation} (h : builtIn files text search = .ok c)
    (hproblem : c.problem? = some e) : e.Within .origin (Pos.origin.advance text) := by
  obtain ⟨parsed, hparse, h⟩ := exists_of_bind_eq_ok h
  cases h
  have hraw : parsed.tree.IsTreeOf text := ⟨parsed, hparse, .inl rfl⟩
  unfold Compilation.problem? at hproblem
  dsimp only at hproblem
  cases hannotate : parsed.tree.annotate text none (.fromFiles files search) with
  | error e' =>
    rw [hannotate] at hproblem
    cases hproblem
    exact Module.within_of_annotate hraw.throughout_inside
      hannotate
  | ok tables =>
    rw [hannotate] at hproblem
    cases htree : tables.tree with
    | none =>
      rw [Except.toOption, Option.bind_some, htree] at hproblem
      cases hproblem
    | some tree =>
      have hannotated : tree.IsTreeOf text :=
        ⟨parsed, hparse, .inr ⟨none, _, tables, hannotate, htree⟩⟩
      rw [Except.toOption, Option.bind_some, htree, Option.map_some] at hproblem
      cases hfold : tree.fold with
      | ok folded =>
        rw [hfold] at hproblem
        cases hproblem
      | error e' =>
        rw [hfold] at hproblem
        cases hproblem
        exact Module.within_of_fold hannotated.throughout_inside hfold

end Frontend

end Vyper
