import Vyper.Proofs.Placement.Rows

/-!
# Parsers as readers with a stack

The tokens before a state of a run are read to a row of symbols (`Grammar.Reached`). A parser of the
grammar puts what it returns behind the row. The steps here are those the parsers are made of: a
token goes onto the stack, and symbols on top of it are put together by a rule. An error is about
the next token or a symbol, so it lies where the tokens are (`Grammar.Reads`).
-/

namespace Vyper

namespace ParseState

/-- The tokens that are left close every block they open, and none marks the end of the text. -/
structure Sound (first : ParseState) : Prop where
  no_eof : ∀ t ∈ first.tokens, t.kind ≠ .eof
  fronts : ∀ front, front <+: first.tokens.map Token.kind →
    front.count .dedent ≤ front.count .indent
  total : (first.tokens.map Token.kind).count .dedent = (first.tokens.map Token.kind).count .indent

/-- An error about places among the tokens that are left, if they come in the order of the text. -/
def Blames (first : ParseState) (e : CompileError) : Prop :=
  ∀ lo, Token.Row (fun _ => True) first.eof.stop lo first.tokens →
    first.eof.Within lo first.eof.stop → e.Within lo first.eof.stop

variable {s : ParseState}

theorem tokens_eq_cons (h : s.kind ≠ .eof) : s.tokens = s.peek :: s.advance.tokens := by
  cases hts : s.tokens with
  | nil =>
    rw [kind, peek, hts] at h
    exact absurd rfl h
  | cons t ts =>
    rw [peek, advance, hts]
    rfl

theorem kind_of_peek {k : TokenKind} {a : Span} (h : s.peek = ⟨k, a⟩) :
    s.kind = k := by rw [kind, h]

theorem peek_of_kind {k : TokenKind} (h : s.kind = k) :
    s.peek = ⟨k, s.peek.span⟩ := by rw [← h]; rfl

end ParseState

namespace Grammar

open Vyper.Parser
open Vyper.Grammar.Symbol (sign word)

/-- What is known of the token before the next one: nothing, that it takes no name behind it, or
that it ends a line or a block. -/
inductive Edge where
  | any | clear | line

def Edge.admits : Edge → TokenKind → Prop
  | .any, _ => True
  | .clear, k => k.attaches = false
  | .line, k => k.isMark = true

/-- What is known behind a token. -/
def Edge.after (k : TokenKind) : Edge :=
  if k.isMark then .line else if k.attaches then .any else .clear

theorem Edge.admits_after (k : TokenKind) : (after k).admits k := by
  unfold after
  split
  · assumption
  split
  · trivial
  · next h => exact Bool.eq_false_iff.mpr h

/-- The tokens from a first state up to another are read to a row of symbols. What is said of the
last of them holds unless a mark comes next. -/
structure Reached (first : ParseState) (edge : Edge) (row : List Symbol) (s : ParseState) :
    Prop where
  derives : ∃ us, first.tokens = us ++ s.tokens ∧
    (s.kind.isMark = false → ∀ x ∈ us.getLast?, edge.admits x.kind) ∧
    ∀ notes, s.notes ⊆ notes → Derives notes row us
  eof : s.eof = first.eof
  limit : first.tokens.length ≤ s.limit
  notes : first.notes ⊆ s.notes
  known : s.notes ⊆ Deprecation.known

variable {α β : Type} {first : ParseState} {edge : Edge} {row row' items : List Symbol} {x : Symbol}
  {s : ParseState} {k : TokenKind} {p : Punct} {w : String} {post : β → ParseState → Prop}

/-- What a parser returns behind tokens that were read, with errors about the tokens of the whole.
-/
abbrev Reads (first : ParseState) (p : Parser α) (s : ParseState) (post : α → ParseState → Prop) :
    Prop :=
  Yields first.Blames p s post

theorem yields_some {p : Parser α} {post : α → ParseState → Prop} (hp : Reads first p s post) :
    Reads first (some <$> p) s fun r t => ∃ a, r = some a ∧ post a t :=
  .map (hp.mono fun a _ ha => ⟨a, rfl, ha⟩)

namespace Reached

theorem mono {edge' : Edge} (h : Reached first edge row s)
    (hedge : s.kind.isMark = false → ∀ k, edge.admits k → edge'.admits k) :
    Reached first edge' row s := by
  obtain ⟨⟨us, hus, hlast, hrow⟩, heof, hlimit, hnoted, hknown⟩ := h
  exact ⟨⟨us, hus, fun hs x hx => hedge hs _ (hlast hs x hx), hrow⟩, heof, hlimit, hnoted, hknown⟩

theorem any (h : Reached first edge row s) : Reached first .any row s := h.mono fun _ _ _ => trivial

theorem clear (h : Reached first .line row s) : Reached first .clear row s := by
  refine h.mono fun _ k hk => ?_
  change k.isMark = true at hk
  cases k <;> first | rfl | cases hk

theorem line (h : Reached first edge row s) (hs : s.kind.isMark = true) :
    Reached first .line row s :=
  h.mono fun hfalse => by rw [hs] at hfalse; cases hfalse

/-- From where the reading began, more or less may have been noted. -/
theorem rebase (h : Reached first edge row s) (notes : List Deprecation)
    (hnotes : notes ⊆ s.notes) : Reached { first with notes := notes } edge row s :=
  ⟨h.derives, h.eof, h.limit, hnotes, h.known⟩

theorem length_le (h : Reached first edge row s) : row.length ≤ first.tokens.length := by
  obtain ⟨us, hus, -, hrow⟩ := h.derives
  have hle := (hrow s.notes (List.Subset.refl _)).length_le
  rw [hus, List.length_append]
  omega

theorem length_tokens_le (h : Reached first edge row s) : s.tokens.length ≤ s.limit := by
  obtain ⟨us, hus, -⟩ := h.derives
  have hle := h.limit
  rw [hus, List.length_append] at hle
  omega

theorem depth_nonneg (hfirst : first.Sound) (h : Reached first edge row s) : 0 ≤ depth row := by
  obtain ⟨us, hus, -, hrow⟩ := h.derives
  rw [(hrow s.notes (List.Subset.refl _)).depth_eq]
  have hle := hfirst.fronts (us.map Token.kind)
    (by rw [hus, List.map_append]; exact List.prefix_append _ _)
  omega

/-- A text does not end inside a block. -/
theorem kind_ne_eof (hfirst : first.Sound) (h : Reached first edge row s) (hrow : 0 < depth row) :
    s.kind ≠ .eof := by
  obtain ⟨us, hus, -, hderives⟩ := h.derives
  rw [(hderives s.notes (List.Subset.refl _)).depth_eq] at hrow
  intro heof
  cases hts : s.tokens with
  | nil =>
    have htotal := hfirst.total
    rw [hus, hts, List.append_nil] at htotal
    omega
  | cons t ts =>
    rw [ParseState.kind, ParseState.peek, hts] at heof
    exact hfirst.no_eof t (by rw [hus, hts]; simp) heof

/-- What was read lies between the ends of the text, and so does what is next. -/
theorem within (h : Reached first edge row s) {lo : Pos}
    (hfirst : Token.Row (fun _ => True) first.eof.stop lo first.tokens)
    (heof : first.eof.Within lo first.eof.stop) :
    (∀ x ∈ row, x.span.Within lo first.eof.stop) ∧ s.peek.span.Within lo first.eof.stop := by
  obtain ⟨us, hus, -, hrow⟩ := h.derives
  obtain ⟨hi, hstand, hrest⟩ := (hrow s.notes (List.Subset.refl _)).stand (hus ▸ hfirst)
  refine ⟨(hstand.mono le_rfl hrest.le).within, ?_⟩
  rw [ParseState.peek]
  cases htokens : s.tokens with
  | nil => exact h.eof ▸ heof
  | cons t ts =>
    rw [htokens] at hrest
    obtain ⟨hlo, hle, -, hts⟩ := hrest
    exact ⟨le_trans hstand.le hlo, hle, hts.le⟩

theorem blames_peek (h : Reached first edge row s) (fault : Fault) :
    first.Blames (.located fault s.peek.span) :=
  fun _ hfirst heof => CompileError.within_located fault (h.within hfirst heof).2

/-- An error about the next token. -/
theorem unexpected (h : Reached first edge row s) {what : Expectation} :
    Reads first (Parser.unexpected what) s post :=
  yields_unexpected h.blames_peek what

/-- An error about something that was read. -/
theorem fail (h : Reached first edge row s) {fault : Fault} {n : Node} (hn : n ∈ nodes row) :
    Reads first (Parser.fail fault n.span) s post := by
  obtain ⟨x, hx, hn⟩ := List.mem_flatMap.mp hn
  refine yields_fail fun lo hfirst heof => CompileError.within_located fault ?_
  exact span_of_mem_nodes hn ▸ (h.within hfirst heof).1 x hx

/-! ### Steps -/

theorem as (h : Reached first edge row' s)
    (hrow : row' = row := by first | rfl | (simp only [List.append_assoc] <;> rfl)) :
    Reached first edge row s :=
  hrow ▸ h

/-- The next token goes onto the stack. -/
theorem shift {a : Span} (h : Reached first edge row s) (hs : s.peek = ⟨k, a⟩) (hne : k ≠ .eof) :
    Reached first (.after k) (row ++ [.token ⟨k, a⟩]) s.advance := by
  obtain ⟨⟨us, hus, -, hrow⟩, heof, hlimit, hnoted, hknown⟩ := h
  refine ⟨⟨us ++ [⟨k, a⟩], ?_, ?_, fun notes hnotes => (hrow notes hnotes).shift _⟩, heof, hlimit,
    hnoted, hknown⟩
  · rw [hus, ParseState.tokens_eq_cons (by rwa [ParseState.kind_of_peek hs]), hs, List.append_assoc]
    rfl
  · rintro - x hx
    rw [List.getLast?_concat] at hx
    cases hx
    exact Edge.admits_after k

/-- The next token is a name of its own. -/
theorem shiftName {id : String} {a : Span} (h : Reached first .clear row s)
    (hs : s.peek = ⟨.name id, a⟩) : Reached first .clear (row ++ [.head id a]) s.advance := by
  have hkind := ParseState.kind_of_peek hs
  obtain ⟨⟨us, hus, hlast, hrow⟩, heof, hlimit, hnoted, hknown⟩ := h
  refine ⟨⟨us ++ [⟨.name id, a⟩], ?_, ?_, fun notes hnotes => ?_⟩, heof, hlimit, hnoted, hknown⟩
  · rw [hus, ParseState.tokens_eq_cons (by rw [hkind]; nofun), hs, List.append_assoc]
    rfl
  · rintro - x hx
    rw [List.getLast?_concat] at hx
    cases hx
    rfl
  · exact (hrow notes hnotes).head id a (hlast (by rw [hkind]; rfl))

/-- The symbols on top of the stack are put together by a rule. -/
theorem reduce (h : Reached first edge row' s) (hx : ∀ notes, s.notes ⊆ notes → Rule notes items x)
    (hrow : row' = row ++ items := by first | rfl | (simp only [List.append_assoc] <;> rfl)) :
    Reached first edge (row ++ [x]) s := by
  subst hrow
  obtain ⟨⟨us, hus, hlast, hrow⟩, heof, hlimit, hnoted, hknown⟩ := h
  exact ⟨⟨us, hus, hlast, fun notes hnotes => (hrow notes hnotes).reduce (hx notes hnotes)⟩, heof,
    hlimit, hnoted, hknown⟩

theorem take (h : Reached first edge row' s) (hx : Shift items x)
    (hrow : row' = row ++ items := by first | rfl | (simp only [List.append_assoc] <;> rfl)) :
    Reached first edge (row ++ [x]) s := by
  subst hrow
  obtain ⟨⟨us, hus, hlast, hrow⟩, heof, hlimit, hnoted, hknown⟩ := h
  exact ⟨⟨us, hus, hlast, fun notes hnotes => (hrow notes hnotes).take hx⟩, heof, hlimit,
    hnoted, hknown⟩

theorem note (h : Reached first edge row s) {d : Deprecation} (hd : d ∈ Deprecation.known) :
    Reached first edge row { s with notes := d :: s.notes } := by
  obtain ⟨⟨us, hus, hlast, hrow⟩, heof, hlimit, hnoted, hknown⟩ := h
  exact ⟨⟨us, hus, hlast, fun notes hnotes => hrow notes (List.cons_subset.mp hnotes).2⟩,
    heof, hlimit, List.subset_cons_of_subset d hnoted, List.cons_subset.mpr ⟨hd, hknown⟩⟩

/-! ### Parsers of tokens -/

theorem accept (h : Reached first edge row s) {f : Option Span → Parser β} (hne : k ≠ .eof)
    (hsome : s.kind = k → ∀ a t, Reached first (.after k) (row ++ [.token ⟨k, a⟩]) t →
      Reads first (f (some a)) t post)
    (hnone : s.kind ≠ k → Reads first (f none) s post) :
    Reads first (Parser.accept k >>= f) s post := by
  refine (yields_accept_peek k).bind ?_
  rintro _ _ (⟨rfl, hk, rfl⟩ | ⟨rfl, hk, rfl⟩)
  · exact hsome hk _ _ (h.shift (ParseState.peek_of_kind hk) hne)
  · exact hnone hk

theorem expect (h : Reached first edge row s) {f : Span → Parser β} {what : Expectation}
    (hne : k ≠ .eof)
    (hf : s.kind = k → ∀ a t, Reached first (.after k) (row ++ [.token ⟨k, a⟩]) t →
      Reads first (f a) t post) :
    Reads first (Parser.expect k what >>= f) s post := by
  refine (yields_expect_peek h.blames_peek).bind ?_
  rintro _ _ ⟨rfl, hk, rfl⟩
  exact hf hk _ _ (h.shift (ParseState.peek_of_kind hk) hne)

theorem identifier (h : Reached first edge row s) {f : String × Span → Parser β}
    (hf : ∀ id a, s.peek = ⟨.name id, a⟩ → Reached first .clear (row ++ [word id a]) s.advance →
      Reads first (f (id, a)) s.advance post) :
    Reads first (Parser.identifier >>= f) s post := by
  refine (yields_identifier_peek h.blames_peek).bind ?_
  rintro ⟨id, a⟩ _ ⟨hpeek, rfl⟩
  exact hf id a hpeek (h.shift hpeek nofun)

/-- The name that is read is taken by no token before it. -/
theorem name (h : Reached first .clear row s) {f : String × Span → Parser β}
    (hf : ∀ id a, s.peek = ⟨.name id, a⟩ → Reached first .clear (row ++ [.head id a]) s.advance →
      Reads first (f (id, a)) s.advance post) :
    Reads first (Parser.identifier >>= f) s post := by
  refine (yields_identifier_peek h.blames_peek).bind ?_
  rintro ⟨id, a⟩ _ ⟨hpeek, rfl⟩
  exact hf id a hpeek (h.shiftName hpeek)

end Reached

end Grammar

end Vyper
