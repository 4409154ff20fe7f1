import Vyper.Proofs.ModuleBody

/-!
# Trees along a token stream

Every tree of a text is anchored in the tokens of the text, as it is read and with types written in.
A name stands at a token of its own, and not at the word behind a dot or one that touches a numeral
(`Module.IsTreeOf.heads`). A declaration ends where a token ends (`Module.IsTreeOf.closed`) and
opens at the start of a line, behind the one before it (`Module.IsTreeOf.opens`).
-/

namespace Vyper

namespace TokenKind

theorem attaches_of_isMark {kind : TokenKind} (h : kind.isMark = true) : kind.attaches = false := by
  cases kind with
  | newline | indent | dedent | eof => rfl
  | _ => cases h

/-- Only marks open and close blocks. -/
theorem count_of_content {kind : TokenKind} (h : kind.isMark = false) (n : Nat) :
    n + [kind].count .indent = n + [kind].count .dedent := by
  cases kind with
  | newline | indent | dedent | eof => cases h
  | _ => rfl

end TokenKind

/-! ### Places in a stream -/

namespace Token

/-- So many blocks are open behind the tokens. -/
def Level (ts : List Token) (blocks : Nat) : Prop :=
  (ts.map kind).count .indent = (ts.map kind).count .dedent + blocks

/-- A token at the start of a line, outside every block. -/
def Begins (ts : List Token) (t : Token) : Prop :=
  ∃ front back, ts = front ++ t :: back ∧ Level front 0 ∧ ∀ x ∈ front.getLast?, x.kind.isMark = true

theorem Level.concat {ts : List Token} {n m : Nat} {t : Token} (h : Level ts n)
    (ht : n + [t.kind].count .indent = m + [t.kind].count .dedent) : Level (ts ++ [t]) m := by
  unfold Level at *
  rw [List.map_append, List.count_append, List.count_append, List.map_singleton]
  omega

theorem Begins.headed {ts : List Token} {t : Token} (h : Begins ts t) : Headed ts t := by
  obtain ⟨front, back, hts, -, hlast⟩ := h
  exact ⟨front, back, hts, fun x hx => TokenKind.attaches_of_isMark (hlast x hx)⟩

variable {ts front back front' back' : List Token} {t : Token}

/-- A token stands in one place of a row. -/
theorem eq_of_append_cons (h : ts.Pairwise fun a b => a.span.stop ≤ b.span.start)
    (ht : t.span.start < t.span.stop) (hts : ts = front ++ t :: back)
    (hts' : ts = front' ++ t :: back') : front = front' := by
  -- Were one front longer, the token would stand behind itself.
  have hsame : ∀ {xs ys more others : List Token}, ts = xs ++ t :: more →
      ys ++ t :: others = t :: more → ys = [] := by
    intro xs ys more others hxs hys
    cases ys with
    | nil => rfl
    | cons y ys =>
      obtain ⟨rfl, rfl⟩ := List.cons.inj hys
      rw [hxs, List.pairwise_append, List.pairwise_cons] at h
      have hle := h.2.1.1 y (List.mem_append_right ys List.mem_cons_self)
      exact absurd hle (not_le.mpr ht)
  rcases List.append_eq_append_iff.mp (hts.symm.trans hts') with ⟨xs, rfl, hxs⟩ | ⟨xs, rfl, hxs⟩
  · rw [hsame hts hxs.symm, List.append_nil]
  · rw [hsame hts' hxs.symm, List.append_nil]

end Token

/-- A span that ends where a token does. -/
def Span.Closed (ts : List Token) (span : Span) : Prop :=
  ∃ t ∈ ts, t.kind.isMark = false ∧ span.stop = t.span.stop

theorem Span.Closed.cover {ts : List Token} {a b : Span} (ha : a.Closed ts) (hb : b.Closed ts) :
    (a.cover b).Closed ts := by
  unfold Closed Span.cover Pos.max
  dsimp only
  split
  · exact hb
  · exact ha

/-- A name, or the name of a parameter, stands at a token of its own. -/
def Node.Heads (ts : List Token) : Node → Prop
  | .expr (.name span id) => Token.Headed ts ⟨.name id, span⟩
  | .param p => ∃ span, span.start = p.span.start ∧ Token.Headed ts ⟨.name p.name, span⟩
  | _ => True

/-- Where a declaration opens: at the start of a line of the module, behind a place. -/
def Declaration.Opens (ts : List Token) (lo : Pos) (d : Declaration) : Prop :=
  ∃ t, Token.Begins ts t ∧ t.kind.isMark = false ∧ d.OpensWith t ∧ lo ≤ t.span.start ∧
    t.span.start ≤ d.toNode.front

namespace Grammar

open Vyper.Parser
open Vyper.Grammar.Symbol (word)

variable {notes : List Deprecation} {items row : List Symbol} {x : Symbol} {n : Node}
  {ts us : List Token}

/-! ### Names -/

theorem Formed.heads (h : Formed ts notes n) : n.Heads ts := by
  obtain ⟨items, x, lo, hi, hrule, hx, hof, hstand, -⟩ := h
  have hcovers := hrule.covers hx
  cases hrule with
  | name | binder => cases hx; exact (hof _ List.mem_cons_self).head _ _ rfl
  | @param name k type a b =>
    cases hx
    exact ⟨a, (hstand.start_eq (hcovers rfl)).symm, (hof _ List.mem_cons_self).head _ _ rfl⟩
  | _ => cases hx; trivial

/-! ### Ends -/

/-- The tokens of a symbol are in the text, and its nodes end with such tokens. -/
structure Symbol.Closed (ts : List Token) (x : Symbol) : Prop where
  token : ∀ t ∈ x.token?, t ∈ ts
  node : ∀ n ∈ x.nodes, n.span.Closed ts

theorem Symbol.Closed.span (h : x.Closed ts) (hcontent : ∀ t ∈ x.token?, t.kind.isMark = false) :
    x.span.Closed ts := by
  cases x with
  | token t => exact ⟨t, h.token t rfl, hcontent t rfl, rfl⟩
  | head id a => exact ⟨_, h.token _ rfl, rfl, rfl⟩
  | operand l k e | listed trailing e | node n => exact h.node _ List.mem_cons_self

theorem closed_of_mem_nodes (hitems : ∀ y ∈ items, y.Closed ts) (hn : n ∈ nodes items) :
    n.span.Closed ts := by
  obtain ⟨y, hy, hn⟩ := List.mem_flatMap.mp hn
  exact (hitems y hy).node n hn

theorem Words.closed {ws : List Token} {stop : Span} (h : Words ws stop)
    (hws : ∀ t ∈ ws, t.kind.isMark = false ∧ t ∈ ts) : stop.Closed ts := by
  have hself : ∀ {t}, t ∈ ws → t.span.Closed ts := fun ht => ⟨_, (hws _ ht).2, (hws _ ht).1, rfl⟩
  induction h with
  | last => exact hself (by simp)
  | dotted _ ih =>
    refine Span.Closed.cover ?_ (hself (by simp))
    exact ih (fun t ht => hws t (by simp [ht])) fun ht => hself (by simp [ht])

theorem Covers.closed {span : Span} (h : Covers items span) (hitems : ∀ y ∈ items, y.Closed ts) :
    span.Closed ts := by
  cases h with
  | only hy => exact (hitems _ List.mem_cons_self).span hy.content
  | between hy hstop =>
    refine ((hitems _ List.mem_cons_self).span hy.content).cover ?_
    cases hstop with
    | token hsplit hz hcontent => exact (hitems _ (by rw [hsplit]; simp)).span hcontent
    | node hlast => exact closed_of_mem_nodes hitems (List.mem_of_getLast? hlast)
  | @words w a stop ws hws hwords =>
    have hword := (hitems _ List.mem_cons_self).span (by rintro _ ⟨⟩; rfl)
    refine hword.cover (hwords.closed fun t ht => ⟨hws t ht, ?_⟩)
    exact (hitems (.token t) (.tail _ (List.mem_map_of_mem ht))).token t rfl

theorem Rule.closed (h : Rule notes items x) (hitems : ∀ y ∈ items, y.Closed ts) : x.Closed ts := by
  obtain ⟨n, hx⟩ := h.exists_node
  refine ⟨fun t ht => (by cases h <;> cases ht), ?_⟩
  rw [hx, List.forall_mem_singleton]
  cases hplain : n.isPlain with
  | true => exact (h.covers hx hplain).closed hitems
  | false =>
    -- A function ends with its last statement.
    cases h with
    | @function front decorators name params row returns rest body last a b c _ _ hbody hlast =>
      cases hx
      have hword := (hitems (word "def" a) (by simp)).span (by rintro _ ⟨⟩; rfl)
      refine hword.cover (b := last.span) ?_
      refine closed_of_mem_nodes (n := .stmt last) hitems ?_
      simp [hbody.nodes_eq, List.mem_of_getLast? hlast]
    | _ => cases hx; cases hplain

/-- Every node that is read ends with a token. -/
theorem Derives.closed (h : Derives notes row us) : ∀ x ∈ row, x.Closed us := by
  refine h.forall_mem ?_ ?_ (fun _ _ _ _ _ _ hrule => hrule.closed) ?_ (List.prefix_refl _)
  · exact fun t ht => ⟨by rintro _ ⟨⟩; exact ht, nofun⟩
  · rintro id a ⟨front, back, rfl, -⟩
    exact ⟨by rintro _ ⟨⟩; simp, nofun⟩
  · intro items x hshift hitems
    refine ⟨fun t ht => (by cases hshift <;> cases ht), fun n hn => ?_⟩
    obtain ⟨y, hy, hmem⟩ := hshift.exists_mem hn
    exact (hitems y hy).node n hmem

/-! ### Declarations one behind the other -/

/-- A state outside every block, where a line begins or is about to end. -/
structure Fresh (ts : List Token) (s : ParseState) : Prop where
  front : ∃ front, ts = front ++ s.tokens ∧ Token.Level front 0 ∧
    (s.kind.isMark = false → ∀ x ∈ front.getLast?, x.kind.isMark = true)
  sound : s.Sound
  limit : s.tokens.length ≤ s.limit
  known : s.notes ⊆ Deprecation.known

variable {s t : ParseState} {lo eof : Pos}

/-- A line is read as if the text began with it. -/
theorem Fresh.reached (h : Fresh ts s) : Reached s .line [] s :=
  ⟨⟨[], rfl, fun _ _ hx => absurd hx (Option.not_mem_none _), fun _ _ => .nil⟩, rfl, h.limit,
    List.Subset.refl _, h.known⟩

theorem Fresh.onward (h : Fresh ts s) (ht : Reached s .line row t) (hrow : depth row = 0) :
    Fresh ts t := by
  obtain ⟨front, hts, hlevel, hlast⟩ := h.front
  obtain ⟨us, hus, hedge, hderives⟩ := ht.derives
  have hdepth := (hderives t.notes (List.Subset.refl _)).depth_eq
  rw [hrow] at hdepth
  refine ⟨⟨front ++ us, by rw [hts, hus, List.append_assoc], ?_, fun hmark x hx => ?_⟩, ?_,
    ht.length_tokens_le, ht.known⟩
  · unfold Token.Level at *
    rw [List.map_append, List.count_append, List.count_append]
    omega
  · cases us with
    | nil =>
      rw [List.append_nil] at hx
      have hsame : s.kind = t.kind := by
        rw [ParseState.kind, ParseState.kind, ParseState.peek, ParseState.peek, hus, ht.eof]
        rfl
      exact hlast (hsame ▸ hmark) x hx
    | cons u us =>
      rw [List.getLast?_append, List.getLast?_cons] at hx
      exact hedge hmark x (by rw [List.getLast?_cons]; exact hx)
  · have hkinds : s.tokens.map Token.kind = us.map Token.kind ++ t.tokens.map Token.kind := by
      rw [hus, List.map_append]
    constructor
    · exact fun u hu => h.sound.no_eof u (by rw [hus]; exact List.mem_append_right _ hu)
    · intro ks hks
      have hfronts : us.map Token.kind ++ ks <+: s.tokens.map Token.kind := by
        rw [hkinds]
        exact (List.prefix_append_right_inj _).mpr hks
      have hle := h.sound.fronts _ hfronts
      rw [List.count_append, List.count_append] at hle
      omega
    · have htotal := h.sound.total
      rw [hkinds, List.count_append, List.count_append] at htotal
      omega

/-- What is read of tokens in their order is a row, and the rest comes behind it. -/
theorem Reached.row_nodes {edge : Edge} (h : Reached s edge row t)
    (hs : Token.Row (fun _ => True) eof lo s.tokens) :
    ∃ hi, Node.Row (fun _ => True) lo (nodes row) hi ∧
      Token.Row (fun _ => True) eof hi t.tokens := by
  obtain ⟨us, hus, -, hderives⟩ := h.derives
  rw [hus] at hs
  obtain ⟨hi, hstand, hrest⟩ := (hderives t.notes (List.Subset.refl _)).stand hs
  exact ⟨hi, hstand.row_nodes, hrest⟩

theorem opens_declarations {k : Nat} (h : Fresh ts s)
    (hs : Token.Row (fun _ => True) eof lo s.tokens) :
    Returns (declarations k) s fun ds _ => (∀ d ∈ ds, d.Opens ts lo) ∧
      ds.Pairwise fun a b => b.Opens ts a.toNode.span.stop := by
  induction k generalizing s lo with
  | zero => exact yields_pure ⟨nofun, .nil⟩
  | succ k ih =>
    refine (yields_skipNewlines_lines h.reached).returns.bind ?_
    rintro _ s₁ ⟨marks, hmarks, hs₁⟩
    have h₁ := h.onward hs₁ hmarks.depth_eq
    obtain ⟨hi, hle, hrow₁⟩ := hs₁.row_nodes hs
    refine yields_peekKind ?_
    split
    · exact yields_pure ⟨nofun, .nil⟩
    · refine (yields_declaration h₁.sound h₁.reached).returns.bind ?_
      rintro d s₂ ⟨hmark, ⟨r, hr, hs₂⟩, hopens⟩
      -- The declaration is read from its first token on, and does not begin before it.
      have htokens := ParseState.tokens_eq_cons (s := s₁)
        (by rintro heof; rw [heof] at hmark; cases hmark)
      have hfrom := hrow₁
      rw [htokens] at hfrom
      have hhere : Token.Row (fun _ => True) eof s₁.peek.span.start s₁.tokens :=
        htokens ▸ ⟨le_rfl, hfrom.2⟩
      obtain ⟨hstop, hd, hrow₂⟩ := hs₂.row_nodes hhere
      rw [List.nil_append, hr.1] at hd
      obtain ⟨front, hts, hlevel, hlast⟩ := h₁.front
      have hbegins : Token.Begins ts s₁.peek := ⟨front, _, htokens ▸ hts, hlevel, hlast hmark⟩
      have hfront := (hd.within _ List.mem_cons_self).1
      have hafter := (hd.within _ List.mem_cons_self).2
      refine (ih (h₁.onward hs₂ hr.depth_eq) (hrow₂.mono hafter)).bind ?_
      rintro ds t ⟨hds, hpairs⟩
      have hbound : lo ≤ d.toNode.span.stop := by
        have hlt := hd.nonempty _ List.mem_cons_self
        have hfront' := (hd.wellPlaced _ List.mem_cons_self).placed.front_le
        have hlo := hle.le
        have := hfrom.1
        order
      refine yields_pure ⟨List.forall_mem_cons.mpr ⟨?_, fun e he => ?_⟩, .cons hds hpairs⟩
      · exact ⟨s₁.peek, hbegins, hmark, hopens, le_trans hle.le hfrom.1, hfront⟩
      · obtain ⟨u, hu, hcontent, hwith, hlo, hfront⟩ := hds e he
        exact ⟨u, hu, hcontent, hwith, le_trans hbound hlo, hfront⟩

theorem opens_wholeModule {stream : TokenStream} (hsound : (ParseState.ofStream stream).Sound)
    (hrow : Token.Row (fun _ => True) eof lo stream.tokens) :
    Returns wholeModule (.ofStream stream) fun m _ => (∀ d ∈ m.body, d.Opens stream.tokens lo) ∧
      m.body.Pairwise fun a b => b.Opens stream.tokens a.toNode.span.stop := by
  have hbegin : Fresh stream.tokens (.ofStream stream) :=
    ⟨⟨[], rfl, rfl, fun _ _ hx => absurd hx (Option.not_mem_none _)⟩, hsound, le_rfl,
      List.nil_subset _⟩
  refine (yields_skipNewlines_lines hbegin.reached).returns.bind ?_
  rintro _ s₁ ⟨marks, hmarks, hs₁⟩
  have h₁ := hbegin.onward hs₁ hmarks.depth_eq
  obtain ⟨hi, hle, hrow₁⟩ := hs₁.row_nodes hrow
  have hdoc : Returns moduleDoc s₁ fun _ t =>
      Fresh stream.tokens t ∧ Token.Row (fun _ => True) eof lo t.tokens := by
    refine yields_peekKind (yields_peekSecond ?_)
    split
    · next hkind hsecond =>
      have hmark : s₁.advance.kind.isMark = true := by
        rw [s₁.kind_advance, hsecond]
        rfl
      have hstr := (h₁.reached.shift (ParseState.peek_of_kind hkind) nofun).line hmark
      obtain ⟨hi', hle', hrow₂⟩ := hstr.row_nodes hrow₁
      exact yields_advance (yields_pure ⟨h₁.onward hstr rfl, hrow₂.mono (le_trans hle.le hle'.le)⟩)
    · exact yields_pure ⟨h₁, hrow₁.mono hle.le⟩
  refine hdoc.bind ?_
  rintro doc s₂ ⟨h₂, hrow₂⟩
  refine yields_limit ((opens_declarations h₂ hrow₂).bind fun body t hbody => ?_)
  exact yields_peek (yields_pure hbody)

end Grammar

/-! ### Trees of a text -/

namespace Node

open Annotate

variable {text : List Char} {ts : List Token} {n c : Node}

/-- A place in a typed tree is a place in the tree, and holds what stands there, perhaps typed. -/
theorem exists_of_at?_typed {path : List Nat} (h : (n.typed text).at? path = some c) :
    ∃ raw, n.at? path = some raw ∧ (c = raw ∨ c = raw.typed text) := by
  induction path generalizing n with
  | nil =>
    cases h
    exact ⟨n, rfl, .inr rfl⟩
  | cons i path ih =>
    cases htakes : n.takesTypes with
    | false =>
      rw [typed_eq_self text htakes] at h
      exact ⟨c, h, .inl rfl⟩
    | true =>
      obtain ⟨field, part, hpart, hc⟩ := at?_cons_eq_some h
      rw [parts_typed text htakes, List.getElem?_map] at hpart
      obtain ⟨⟨label, raw⟩, hraw, heq⟩ := Option.map_eq_some_iff.mp hpart
      cases heq
      obtain ⟨below, hbelow, hsame⟩ := ih hc
      exact ⟨below, (at?_cons hraw path).trans hbelow, hsame⟩

theorem Heads.typed (h : n.Heads ts) (text : List Char) : (n.typed text).Heads ts := by
  cases n with
  | expr | param => exact h
  | _ => trivial

end Node

namespace Module.IsTreeOf

open Grammar

variable {m : Module} {text : List Char} {stream : TokenStream} (h : m.IsTreeOf text)
  (hstream : TokenStream.ofText text = .ok stream)
include h hstream

/-- A name, or the name of a parameter, stands at a token of its own wherever it is in a tree. -/
theorem heads {path : List Nat} {c : Node} (hc : (Node.module m).at? path = some c) :
    c.Heads stream.tokens := by
  obtain ⟨parsed, hparse, hbody⟩ := h.body_eq
  have hraw := throughout_of_parse hparse hstream (P := Node.Heads stream.tokens) trivial fun _ =>
    Formed.heads
  cases path with
  | nil =>
    cases hc
    trivial
  | cons i path =>
    obtain ⟨field, part, hpart, hc⟩ := Node.at?_cons_eq_some hc
    have hmem := List.mem_of_getElem? hpart
    rw [Node.parts_module] at hmem
    obtain ⟨d, hd, heq⟩ := List.mem_map.mp hmem
    cases heq
    have hdeclared := hraw.module
    rcases hbody with hbody | hbody
    · exact hdeclared d (hbody ▸ hd) path c hc
    · rw [hbody] at hd
      obtain ⟨raw, hin, rfl⟩ := List.mem_map.mp hd
      rw [Node.typedTop_declaration] at hc
      rcases Node.typedTop_eq text raw.toNode with hsame | htyped
      · exact hdeclared raw hin path c (hsame ▸ hc)
      · rw [htyped] at hc
        obtain ⟨below, hbelow, rfl | rfl⟩ := Node.exists_of_at?_typed hc
        · exact hdeclared raw hin path _ hbelow
        · exact (hdeclared raw hin path below hbelow).typed text

/-- Every declaration ends with a token. -/
theorem closed : ∀ d ∈ m.body, d.toNode.span.Closed stream.tokens := by
  obtain ⟨parsed, hparse, hbody⟩ := h.body_eq
  obtain ⟨front, row, hfront, ⟨hnodes, -⟩, hderives, -⟩ := derives_of_parse hparse hstream
  have hraw : ∀ raw ∈ parsed.tree.body, raw.toNode.span.Closed stream.tokens := by
    intro raw hmem
    refine closed_of_mem_nodes hderives.closed ?_
    rw [nodes_append, hnodes]
    exact List.mem_append_right _ (List.mem_map_of_mem hmem)
  rcases hbody with hbody | hbody
  · rwa [hbody]
  · rw [hbody]
    intro d hd
    obtain ⟨raw, hmem, rfl⟩ := List.mem_map.mp hd
    have hspan : (Annotate.typeDeclaration text raw).toNode.span = raw.toNode.span :=
      span_typeDeclaration text raw
    rw [hspan]
    exact hraw raw hmem

/-- The declarations open at the start of a line, one behind the other. -/
theorem opens : (∀ d ∈ m.body, d.Opens stream.tokens .origin) ∧
    m.body.Pairwise fun a b => b.Opens stream.tokens a.toNode.span.stop := by
  obtain ⟨parsed, hparse, hbody⟩ := h.body_eq
  obtain ⟨stream', state, hstream', hread, -⟩ := exists_of_parse hparse
  cases hstream.symm.trans hstream'
  have hraw :=
    (opens_wholeModule (ParseState.sound_ofStream hstream) (TokenStream.row_tokens hstream)).1 _
    state hread
  have htyped : ∀ {lo : Pos} {d : Declaration}, d.Opens stream.tokens lo →
      (Annotate.typeDeclaration text d).Opens stream.tokens lo := by
    intro lo d hd
    cases d <;> exact hd
  rcases hbody with hbody | hbody
  · rwa [hbody]
  · rw [hbody, List.forall_mem_map, List.pairwise_map]
    refine ⟨fun d hd => htyped (hraw.1 d hd), hraw.2.imp fun {a b} hab => ?_⟩
    have hspan : (Annotate.typeDeclaration text a).toNode.span = a.toNode.span :=
      span_typeDeclaration text a
    rw [hspan]
    exact htyped hab

end Module.IsTreeOf

end Vyper
