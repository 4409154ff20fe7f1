import Vyper.Proofs.Grammar.Statement

/-!
# Reading modules

A module is read to the nodes of its declarations, with nothing but ends of lines between them and a
text that documents it in front (`Grammar.yields_wholeModule`).
-/

namespace Vyper

/-- A variable opens with its name. -/
def Declaration.OpensWith (t : Token) : Declaration → Prop
  | .var v => ∃ id, v.target = .name t.span id ∧ t.kind = .name id
  | _ => True

namespace Grammar

open Vyper.Parser
open Vyper.Grammar.Symbol (sign word)

variable {α : Type} {first : ParseState} {edge : Edge} {row : List Symbol} {s : ParseState}

/-! ### Functions -/

theorem readsItem_param : ReadsItem first Parameter param := by
  intro row s hs
  refine hs.name fun name a _ hs₁ => hs₁.expect nofun fun _ b s₂ hs₂ => ?_
  refine (readsOperand_expression hs₂).bind fun type s₃ hs₃ => ?_
  have hparam := hs₃.reduce fun _ _ => .param
  refine hparam.accept nofun (fun _ c s₄ hs₄ => ?_) fun _ => yields_pure ⟨_, .mk .none, hparam⟩
  exact (readsOperand_expression hs₄).bind fun value t ht => yields_pure ⟨_, .mk .some, ht.as⟩

theorem yields_params (hs : Reached first edge row s) :
    Reads first params s fun p t => Reached first .any (row ++ [.node (.params p)]) t := by
  refine hs.expect nofun fun _ a s₁ hs₁ => (yields_bracketed_listed readsItem_param hs₁).bind ?_
  rintro ⟨items, b⟩ t ⟨trailing, r, hitems, ht⟩
  exact yields_pure (ht.reduce fun _ _ => .params hitems)

/-- What follows an expression that may be left out, with the sign before it. -/
theorem yields_tail {β : Type} {post : β → ParseState → Prop} {p : Punct}
    {f : Option Expr → Parser β}
    (hs : Reached first .any row s) (hp : Edge.after (.punct p) = .clear)
    (hf : ∀ {r value t}, Tail p r value → Reached first .any (row ++ r) t →
      Reads first (f value) t post) :
    Reads first (acceptPunct p >>= fun found => match found with
      | some _ => some <$> expression >>= f
      | none => pure none >>= f) s post := by
  refine hs.accept (by simp) (fun _ c s₁ hs₁ => ?_) fun _ => hf .none (by simpa using hs)
  rw [hp] at hs₁
  refine (yields_some (readsOperand_expression hs₁)).bind ?_
  rintro _ t ⟨e, rfl, ht⟩
  exact hf .some ht.as

theorem yields_decoratorsUpTo (n : Nat) (hs : Reached first .line row s) :
    Reads first (decoratorsUpTo n) s fun es t => ∃ r, Decorators r es ∧
    Reached first .line (row ++ r) t := by
  have hnone : ∃ r, Decorators r [] ∧ Reached first .line (row ++ r) s :=
    ⟨[], .nil, by simpa using hs⟩
  induction n generalizing s row with
  | zero => exact yields_pure hnone
  | succ n ih =>
    refine hs.accept nofun (fun _ a s₁ hs₁ => ?_) fun _ => yields_pure hnone
    refine (readsOperand_expression hs₁).bind fun e s₂ hs₂ => (yields_lineEnd_lines hs₂).bind ?_
    rintro _ s₃ ⟨r, hr, hs₃⟩
    refine (yields_skipNewlines_lines hs₃).bind ?_
    rintro _ s₄ ⟨r', hr', hs₄⟩
    refine (ih hs₄ ⟨[], .nil, by simpa using hs₄⟩).bind ?_
    rintro es t ⟨r'', hes, ht⟩
    exact yields_pure ⟨_, .cons a (hr.append hr') hes, ht.as⟩

section Sound

variable (hfirst : first.Sound)
include hfirst

theorem yields_functionDef {front : List Symbol} {decorators : List Expr}
    (hfront : Decorators front decorators) (hs : Reached first edge (row ++ front) s) :
    Reads first (functionDef decorators) s fun f t =>
      Reached first .line (row ++ [.node (.function f)]) t := by
  refine hs.expect (by simp) fun _ a s₁ hs₁ => hs₁.identifier fun name b _ hs₂ => ?_
  refine (yields_params hs₂).bind fun params s₃ hs₃ => yields_tail hs₃ rfl fun hr ht => ?_
  refine ht.expect (by simp) fun _ c s₄ hs₄ => ?_
  refine (yields_block hfirst (readsStatement_statement hfirst) hs₄).bind ?_
  rintro ⟨body, stop⟩ u ⟨r', last, hr', hlast, rfl, hu⟩
  exact yields_pure (hu.reduce (fun _ _ => .function hfront hr hr' hlast))

theorem yields_decorated (hs : Reached first .line row s) :
    Reads first decorated s fun f t => Reached first .line (row ++ [.node (.function f)]) t := by
  refine yields_limit ((yields_decoratorsUpTo _ hs).bind ?_)
  rintro decorators s₁ ⟨r, hr, hs₁⟩
  refine yields_peekKind ?_
  split
  · exact yields_functionDef hfirst hr hs₁
  · exact hs₁.unexpected

/-! ### Other declarations -/

theorem yields_memberDef {kind : MemberKind} {w : String} (hs : Reached first edge row s)
    (hw : s.kind = .name w)
    (hopens : ∀ notes, first.notes ⊆ notes → Opens notes kind w) :
    Reads first (memberDef kind) s fun d t =>
      Reached first .line (row ++ [.node (.members d)]) t := by
  have hword := hs.shift (ParseState.peek_of_kind hw) nofun
  refine yields_advance (hword.identifier fun name b _ hs₁ => hs₁.expect nofun fun _ c s₂ hs₂ => ?_)
  refine (yields_block hfirst (readsStatement_statement hfirst) hs₂).bind ?_
  rintro ⟨body, stop⟩ t ⟨r, last, hr, hlast, rfl, ht⟩
  dsimp only
  split
  · next stray hstray =>
    have hmem := List.mem_of_find?_eq_some hstray
    exact ht.fail (n := .stmt stray) (by simp [hr.nodes_eq, Symbol.nodes, hmem])
  · exact yields_pure (ht.reduce fun _ hnotes =>
      .members (hopens _ (List.Subset.trans ht.notes hnotes)) hr hlast)

theorem yields_interfaceItems {n : Nat} (hs : Reached first .line row s) (hdepth : 0 < depth row)
    (hn : first.tokens.length < n + row.length) :
    Reads first (interfaceItems n) s fun items t =>
      ∃ r c, Filled r (items.map InterfaceItem.toNode) ∧
      Reached first .line (row ++ (r ++ [.token ⟨.dedent, c⟩])) t := by
  induction n generalizing s row with
  | zero =>
    have hle := hs.length_le
    omega
  | succ n ih =>
    refine (yields_skipNewlines_lines hs).bind ?_
    rintro _ s₁ ⟨marks, hmarks, hs₁⟩
    have hdepth₁ : 0 < depth (row ++ marks) := by simpa [hmarks.depth_eq] using hdepth
    -- One more line: what was read is filled in before the others.
    have hmore : ∀ (item : InterfaceItem) {r t}, Filled r [item.toNode] →
        Reached first .line (row ++ marks ++ r) t →
        Reads first (interfaceItems n) t fun items u => ∃ r' c,
          Filled r' ((item :: items).map InterfaceItem.toNode) ∧
          Reached first .line (row ++ (r' ++ [.token ⟨.dedent, c⟩])) u := by
      intro item r t hr ht
      have hpos : r ≠ [] := by rintro rfl; cases hr.1
      have hlength := List.length_pos_iff.mpr hpos
      refine (ih ht (by simpa [hr.depth_eq] using hdepth₁) (by simp; omega)).mono ?_
      rintro items u ⟨r', c, hr', hu⟩
      exact ⟨_, c, (hmarks.append hr).append hr', hu.as⟩
    refine yields_peekKind ?_
    split
    · next hkind =>
      have ht := hs₁.shift (ParseState.peek_of_kind hkind) nofun
      exact yields_advance (yields_pure ⟨marks, _, hmarks, ht.as⟩)
    · next hkind => exact absurd hkind (hs₁.kind_ne_eof hfirst hdepth₁)
    · refine (yields_functionDef hfirst .nil (hs₁.as (List.append_nil _).symm)).bind
        fun f s₂ hs₂ => ?_
      exact (hmore (.function f) (filled_node _) hs₂).bind fun items t ht => yields_pure ht
    · refine (yields_simpleStatement hs₁.clear).bind ?_
      rintro st s₂ ⟨r, hr, hs₂⟩
      exact (hmore (.stmt st) hr hs₂).bind fun items t ht => yields_pure ht
    · exact hs₁.unexpected

theorem yields_interfaceDef (hs : Reached first edge row s) (hw : s.kind = .name "interface") :
    Reads first interfaceDef s fun i t =>
      Reached first .line (row ++ [.node (.interface i)]) t := by
  have hword := hs.shift (ParseState.peek_of_kind hw) nofun
  refine yields_advance (hword.identifier fun name b _ hs₁ => hs₁.expect nofun fun _ c s₂ hs₂ => ?_)
  refine yields_peekKind ?_
  dsimp only
  split
  · have hstop : Reads first (Parser.unexpected .lineEnd) s₂ fun (_ : Unit) _ => False :=
      hs₂.unexpected
    exact hstop.bind fun _ _ h => h.elim
  · next hkind =>
    refine (yields_openBlock hs₂ (by simpa using hkind)).bind ?_
    rintro _ s₃ ⟨d, e, hs₃⟩
    have hdepth := hs.depth_nonneg hfirst
    refine yields_limit ?_
    refine (yields_interfaceItems hfirst hs₃ (by simp; omega) (by have := hs₃.limit; omega)).bind ?_
    rintro body t ⟨r, f, hr, ht⟩
    split
    · next last hlast => exact yields_pure (ht.reduce fun _ _ => .interface hr hlast)
    · exact ht.unexpected

end Sound

/-- Words of one line are put onto the stack. -/
def Passed (first : ParseState) (row : List Symbol) (ts : List Token) (s : ParseState) : Prop :=
  (∀ t ∈ ts, t.kind.isMark = false) ∧ Reached first .any (row ++ ts.map .token) s

theorem Passed.concat {ts : List Token} {t : Token} (h : Passed first row ts s)
    (ht : t.kind.isMark = false) {u : ParseState}
    (hu : Reached first edge (row ++ ts.map .token ++ [.token t]) u) :
    Passed first row (ts ++ [t]) u :=
  ⟨List.forall_mem_append.mpr ⟨h.1, List.forall_mem_singleton.mpr ht⟩, by simpa using hu.any⟩

theorem yields_dottedName {ts : List Token} (hs : Passed first row ts s) :
    Reads first dottedName s fun r t => ∃ ts, Words ts r.2 ∧ Passed first row ts t := by
  have hrest : ∀ (n : Nat) {ts span s}, Words ts span → Passed first row ts s →
      Reads first (dottedRest n) s fun more t => ∃ ts,
        Words ts (more.foldl (fun s part => s.cover part.2) span) ∧ Passed first row ts t := by
    intro n
    induction n with
    | zero => exact fun hts hs => yields_pure ⟨_, hts, hs⟩
    | succ n ih =>
      intro ts span s hts hs
      refine hs.2.accept nofun (fun _ a s₁ hs₁ => ?_) fun _ => yields_pure ⟨ts, hts, hs⟩
      have hdot := hs.concat rfl hs₁
      refine hdot.2.identifier fun name b _ hs₂ => ?_
      have hname := hdot.concat rfl hs₂
      rw [List.append_assoc] at hname
      exact (ih (.dotted hts) hname).bind fun more t ht => yields_pure ht
  refine hs.2.identifier fun name a _ hs₁ => yields_limit ?_
  exact (hrest _ .last (hs.concat rfl hs₁)).bind fun more t ht => yields_pure ht

theorem yields_importAlias {ts : List Token} {stop : Span} (hts : Words ts stop)
    (hs : Passed first row ts s) :
    Reads first (importAlias stop) s fun r t => ∃ ts, Words ts r.2 ∧ Passed first row ts t := by
  refine hs.2.accept nofun (fun _ a s₁ hs₁ => ?_) fun _ => yields_pure ⟨ts, hts, hs⟩
  have has := hs.concat rfl hs₁
  exact has.2.identifier fun name b _ ht => yields_pure ⟨_, .last, has.concat rfl ht⟩

theorem yields_importDef (hs : Reached first edge row s) (hw : s.kind = .name "import") :
    Reads first importDef s fun i t => Lines first row [.importing i] t := by
  have hword : Passed first (row ++ [word "import" s.peek.span]) [] s.advance :=
    ⟨by simp, by simpa using (hs.shift (ParseState.peek_of_kind hw) nofun).any⟩
  refine yields_advance ((yields_dottedName hword).bind ?_)
  rintro ⟨name, stop⟩ s₁ ⟨ts, hts, hs₁⟩
  refine (yields_importAlias hts hs₁).bind ?_
  rintro ⟨asName, stop⟩ s₂ ⟨ts, hts, hunmarked, hs₂⟩
  have hnode := hs₂.reduce fun _ _ =>
    @Rule.importing _ ⟨s.peek.span.cover stop, name, asName⟩ _ stop ts hunmarked hts rfl
  exact (yields_lineEnd_lines hnode).bind fun _ t ht => yields_pure (ht.cons (filled_node _))

/-- What is read in one of two ways is handed on. -/
theorem yields_ite_bind {β : Type} {c : Prop} [Decidable c] {p q : Parser α} {f : α → Parser β}
    {mid : α → ParseState → Prop} {post : β → ParseState → Prop}
    (h : Reads first (if c then p else q) s mid) (hf : ∀ a t, mid a t → Reads first (f a) t post) :
    Reads first (if c then p >>= f else q >>= f) s post := by
  by_cases hc : c
  · rw [if_pos hc] at h ⊢
    exact h.bind hf
  · rw [if_neg hc] at h ⊢
    exact h.bind hf

theorem yields_dotsUpTo (n : Nat) {ts : List Token} (hs : Passed first row ts s) :
    Reads first (dotsUpTo n) s fun _ t => ∃ ts, Passed first row ts t := by
  induction n generalizing s ts with
  | zero => exact yields_pure ⟨ts, hs⟩
  | succ n ih =>
    refine hs.2.accept nofun (fun _ a s₁ hs₁ => ?_) fun _ => yields_pure ⟨ts, hs⟩
    exact (ih (hs.concat rfl hs₁)).bind fun _ t ht => yields_pure ht

theorem yields_importFromDef (hs : Reached first edge row s) (hw : s.kind = .name "from") :
    Reads first importFromDef s fun i t => Lines first row [.importFrom i] t := by
  have hword : Passed first (row ++ [word "from" s.peek.span]) [] s.advance :=
    ⟨by simp, by simpa using (hs.shift (ParseState.peek_of_kind hw) (by simp)).any⟩
  refine yields_advance (yields_limit ((yields_dotsUpTo _ hword).bind ?_))
  rintro level s₁ ⟨ts, hs₁⟩
  have hpackage :
      Reads first (if s₁.kind = .name "import" then pure "" else (·.1) <$> dottedName) s₁ fun _ t =>
        ∃ ts, Passed first (row ++ [word "from" s.peek.span]) ts t := by
    split
    · exact yields_pure ⟨ts, hs₁⟩
    · refine .map ((yields_dottedName hs₁).mono ?_)
      rintro _ t ⟨ts, -, ht⟩
      exact ⟨ts, ht⟩
  refine yields_peekKind (yields_ite_bind hpackage ?_)
  rintro package t ⟨ts, ht⟩
  refine ht.2.expect (by simp) fun _ a s₂ hs₂ => ?_
  have himport := ht.concat rfl hs₂
  refine himport.2.identifier fun name b _ hs₃ => ?_
  refine (yields_importAlias .last (himport.concat rfl hs₃)).bind ?_
  rintro ⟨asName, stop⟩ s₄ ⟨ts, hts, hunmarked, hs₄⟩
  have hnode := hs₄.reduce fun _ _ =>
    @Rule.importFrom _ ⟨s.peek.span.cover stop, package, name, level, asName⟩ _ stop ts
      hunmarked hts rfl
  exact (yields_lineEnd_lines hnode).bind fun _ t ht => yields_pure (ht.cons (filled_node _))

theorem yields_clause {kind : ClauseKind} {w : String} (hs : Reached first edge row s)
    (hw : s.kind = .name w) :
    Reads first (clause kind) s fun c t => Lines first row [.clause c] t := by
  have hword := hs.shift (ParseState.peek_of_kind hw) nofun
  refine yields_advance (hword.expect nofun fun _ b s₁ hs₁ => ?_)
  refine (readsOperand_expression hs₁).bind fun subject s₂ hs₂ => ?_
  have hnode := hs₂.reduce fun _ _ => @Rule.clause _ w kind ..
  exact (yields_lineEnd_lines hnode).bind fun _ t ht => yields_pure (ht.cons (filled_node _))

theorem yields_variableDef (hs : Reached first .clear row s) :
    Reads first variableDef s fun v t => Lines first row [.var v] t ∧
      ∃ id, v.target = .name s.peek.span id ∧ s.kind = .name id := by
  refine hs.name fun id a hpeek hid => ?_
  have hname := hid.reduce fun _ _ => .binder
  refine hname.expect (by simp) fun _ b s₁ hs₁ =>
    (readsOperand_expression hs₁).bind fun type s₂ hs₂ => ?_
  refine yields_tail hs₂ rfl fun hr ht => ?_
  have hnode := ht.reduce fun _ _ => .var hr
  refine (yields_lineEnd_lines hnode).bind fun _ u hu =>
    yields_pure ⟨hu.cons (filled_node _), id, ?_⟩
  rw [ParseState.kind, hpeek]
  exact ⟨rfl, rfl⟩

/-! ### Modules -/

section Sound

variable (hfirst : first.Sound)
include hfirst

theorem yields_wordDeclaration {w : String} {a : Span} (hs : Reached first .line row s)
    (hpeek : s.peek = ⟨.name w, a⟩) :
    Reads first (wordDeclaration w a) s fun d t => Lines first row [d.toNode] t ∧
      d.OpensWith s.peek := by
  have hw := ParseState.kind_of_peek hpeek
  have hlines : ∀ {α : Type} {p : Parser α} {make : α → Declaration} {u : ParseState},
      (∀ a, (make a).OpensWith s.peek) →
        Reads first p u (fun a t => Lines first row [(make a).toNode] t) →
      Reads first (make <$> p) u fun d t => Lines first row [d.toNode] t ∧ d.OpensWith s.peek :=
    fun hmake hp => .map (hp.mono fun a _ ha => ⟨ha, hmake a⟩)
  have hnode : ∀ {α : Type} {p : Parser α} {make : α → Declaration} {u : ParseState},
      (∀ a, (make a).OpensWith s.peek) →
      Reads first p u (fun a t => Reached first .line (row ++ [.node (make a).toNode]) t) →
      Reads first (make <$> p) u fun d t => Lines first row [d.toNode] t ∧ d.OpensWith s.peek :=
    fun hmake hp => hlines hmake (hp.mono fun _ _ ht => ⟨_, filled_node _, ht⟩)
  refine yields_peekSecond ?_
  dsimp only
  split
  · exact hnode (fun _ => trivial) (yields_functionDef hfirst .nil (hs.as (List.append_nil _).symm))
  · exact hnode (fun _ => trivial) (yields_memberDef hfirst hs hw fun _ _ => .struct)
  · exact hnode (fun _ => trivial) (yields_memberDef hfirst hs hw fun _ _ => .event)
  · exact hnode (fun _ => trivial) (yields_memberDef hfirst hs hw fun _ _ => .flag)
  · -- The note is taken before the word is read, so it is there when the flag is made.
    have hfirst' : ParseState.Sound { first with notes := .enum :: first.notes } :=
      ⟨hfirst.no_eof, hfirst.fronts, hfirst.total⟩
    have hnoted := (hs.note (d := .enum) (by decide)).rebase (.enum :: first.notes)
      (List.cons_subset_cons _ hs.notes)
    refine hnode (fun _ => trivial)
      ((yields_memberDef hfirst' hnoted hw fun notes hnotes => ?_).mono ?_)
    · exact .enum (hnotes List.mem_cons_self)
    · exact fun d t ht => ht.rebase first.notes (List.cons_subset.mp ht.notes).2
  · exact hnode (fun _ => trivial) (yields_interfaceDef hfirst hs hw)
  · exact hlines (fun _ => trivial) (yields_importDef hs hw)
  · exact hlines (fun _ => trivial) (yields_importFromDef hs hw)
  · exact hlines (fun _ => trivial) (yields_clause hs hw)
  · exact hlines (fun _ => trivial) (yields_clause hs hw)
  · exact hlines (fun _ => trivial) (yields_clause hs hw)
  · exact hlines (fun _ => trivial) (yields_clause hs hw)
  · exact .map ((yields_variableDef hs.clear).mono fun v t h => h)
  · exact yields_fail (by simpa only [hpeek] using hs.blames_peek .invalidTopLevel)

theorem yields_declaration (hs : Reached first .line row s) :
    Reads first declaration s fun d t => s.kind.isMark = false ∧ Lines first row [d.toNode] t ∧
      d.OpensWith s.peek := by
  refine yields_peek ?_
  split
  · next hpeek =>
    refine .map ((yields_decorated hfirst hs).mono fun f t ht =>
      ⟨?_, ⟨_, filled_node _, ht⟩, trivial⟩)
    rw [ParseState.kind_of_peek hpeek]
    rfl
  · next hpeek =>
    refine .map ((yields_simpleStatement hs.clear).mono fun st t ht => ⟨?_, ht, trivial⟩)
    rw [ParseState.kind_of_peek hpeek]
    rfl
  · next w a hpeek =>
    refine (yields_wordDeclaration hfirst hs hpeek).mono fun d t h => ⟨?_, h⟩
    rw [ParseState.kind_of_peek hpeek]
    rfl
  · next hpeek => exact yields_fail (by simpa only [hpeek] using hs.blames_peek .unexpectedIndent)
  · exact hs.unexpected

theorem yields_declarations {n : Nat} (hs : Reached first .line row s)
    (hn : first.tokens.length < n + row.length) :
    Reads first (declarations n) s fun ds t => t.kind = .eof ∧
      Lines first row (ds.map (·.toNode)) t := by
  induction n generalizing s row with
  | zero =>
    have hle := hs.length_le
    omega
  | succ n ih =>
    refine (yields_skipNewlines_lines hs).bind ?_
    rintro _ s₁ ⟨marks, hmarks, hs₁⟩
    refine yields_peekKind ?_
    split
    · next hkind => exact yields_pure ⟨hkind, marks, hmarks, hs₁⟩
    · refine (yields_declaration hfirst hs₁).bind ?_
      rintro d s₂ ⟨-, ⟨r, hr, hs₂⟩, -⟩
      have hpos : r ≠ [] := by rintro rfl; cases hr.1
      have hlength := List.length_pos_iff.mpr hpos
      refine (ih hs₂ (by simp; omega)).bind ?_
      rintro ds t ⟨heof, ht⟩
      exact yields_pure ⟨heof, (ht.cons hr).cons hmarks⟩

end Sound

/-- A module is read to its end, and its declarations are left on the stack. -/
theorem yields_wholeModule {first : ParseState} (hfirst : first.Sound)
    (hlimit : first.tokens.length ≤ first.limit) (hknown : first.notes ⊆ Deprecation.known) :
    Reads first wholeModule first fun m t => m.span = ⟨.origin, first.eof.stop⟩ ∧ t.tokens = [] ∧
      ∃ front row, nodes front = [] ∧ Filled row (m.body.map (·.toNode)) ∧
        Reached first .line (front ++ row) t := by
  have hbegin : Reached first .line [] first :=
    ⟨⟨[], rfl, fun _ _ h => absurd h (Option.not_mem_none _), fun _ _ => .nil⟩, rfl, hlimit,
      List.Subset.refl _, hknown⟩
  refine (yields_skipNewlines_lines hbegin).bind ?_
  rintro _ s₁ ⟨marks, hmarks, hs₁⟩
  have hdoc : Reads first moduleDoc s₁ fun _ t => ∃ front, nodes front = [] ∧
      Reached first .line front t := by
    refine yields_peekKind (yields_peekSecond ?_)
    split
    · next hkind hsecond =>
      have hstr := hs₁.shift (ParseState.peek_of_kind hkind) nofun
      refine yields_advance (yields_pure ⟨_, ?_, hstr.line (by rw [s₁.kind_advance, hsecond]; rfl)⟩)
      simp [hmarks.1, Symbol.nodes]
    · exact yields_pure ⟨_, by simpa using hmarks.1, hs₁⟩
  refine hdoc.bind ?_
  rintro doc s₂ ⟨front, hfront, hs₂⟩
  refine yields_limit ((yields_declarations hfirst hs₂ (by have := hs₂.limit; omega)).bind ?_)
  rintro body t ⟨heof, row, hrow, ht⟩
  obtain ⟨us, hus, -⟩ := ht.derives
  have hdone : t.tokens = [] := by
    cases htokens : t.tokens with
    | nil => rfl
    | cons u rest =>
      rw [ParseState.kind, ParseState.peek, htokens] at heof
      exact absurd heof (hfirst.no_eof u (by rw [hus, htokens]; simp))
  refine yields_peek (yields_pure ⟨?_, hdone, front, row, hfront, hrow, ht⟩)
  rw [ParseState.peek, hdone, ← ht.eof]
  rfl

end Grammar

end Vyper
