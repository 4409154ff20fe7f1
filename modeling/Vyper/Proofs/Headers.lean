import Mathlib.Data.List.Chain
import Mathlib.Data.List.Infix
import Vyper.Editor.Hover
import Vyper.Proofs.Nesting

/-!
# Headers of functions

A hover shows the header of a function, which it finds in the text by counting brackets up to a
colon (`uptoColon`). The grammar has a header too: the tokens from `def` to the colon before the
block (`HeaderRow`). The two agree exactly if that colon is the first one outside brackets in the
text, and that is so unless a bracket stands in a literal or in a comment, or another colon outside
the parameters (`Tree.header?_function`).
-/

namespace Vyper

open LineCursor (bracketDepth)

/-! ### Colons -/

/-- A text ends with its first colon outside brackets. -/
def EndsAtColon (d : Nat) (text : List Char) : Prop :=
  ∃ body, text = body ++ [':'] ∧ body.foldl bracketDepth d = 0 ∧
    ∀ q, q ++ [':'] <+: body → q.foldl bracketDepth d ≠ 0

theorem EndsAtColon.uptoColon_append {d : Nat} {header : List Char} (h : EndsAtColon d header)
    (more : List Char) : uptoColon d (header ++ more) = some header := by
  obtain ⟨body, rfl, hend, hcolons⟩ := h
  induction body generalizing d with
  | nil =>
    obtain rfl : d = 0 := hend
    rfl
  | cons c body ih =>
    have hc : ¬ (c = ':' ∧ d = 0) := by
      rintro ⟨rfl, rfl⟩
      exact hcolons [] (by simp) rfl
    rw [List.cons_append, List.cons_append, uptoColon, if_neg hc,
      ih hend fun q hq => hcolons (c :: q) (by simpa using hq)]
    rfl

theorem endsAtColon_of_uptoColon {d : Nat} {text header : List Char}
    (h : uptoColon d text = some header) : EndsAtColon d header := by
  induction text generalizing d header with
  | nil => cases h
  | cons c text ih =>
    rw [uptoColon] at h
    split at h
    · next hc =>
      obtain ⟨rfl, rfl⟩ := hc
      cases h
      exact ⟨[], rfl, rfl, by simp⟩
    · next hc =>
      obtain ⟨header, hheader, rfl⟩ := Option.map_eq_some_iff.mp h
      obtain ⟨body, rfl, hend, hcolons⟩ := ih hheader
      refine ⟨c :: body, rfl, hend, fun q hq hd => ?_⟩
      cases q with
      | nil => exact hc ⟨(List.cons_prefix_cons.mp hq).1.symm, hd⟩
      | cons e q =>
        obtain ⟨rfl, hrest⟩ := List.cons_prefix_cons.mp hq
        exact hcolons q hrest hd

/-! ### Headers in the grammar -/

open Token (Held Unspoiled signs Laid)

/-- The tokens of the header of a function. -/
structure HeaderRow (f : FunctionDef) where
  word : Token
  name : Token
  opening : Token
  list : List Token
  closing : Token
  returned : List Token
  colon : Token
  word_kind : word.kind = .name "def"
  name_kind : name.kind = .name f.name
  opening_kind : opening.kind = .punct .openParen
  list_held : Held true list
  closing_kind : closing.kind = .punct .closeParen
  params_span : f.params.span = opening.span.cover closing.span
  returned_held : Held false returned
  colon_kind : colon.kind = .punct .colon

namespace HeaderRow

variable {f : FunctionDef} {text : List Char}

/-- The tokens between `def` and the colon. -/
def inner (r : HeaderRow f) : List Token :=
  r.name :: r.opening :: (r.list ++ r.closing :: r.returned)

/-- The text from `def` to the colon. -/
def source (r : HeaderRow f) (text : List Char) : List Char :=
  Rows.slice text ⟨r.word.span.start, r.colon.span.stop⟩

/-- The brackets that are counted. -/
def isBracket (c : Char) : Bool := c ∈ ['(', ')', '[', ']']

theorem isSign_of_isBracket (c : Char) (h : isBracket c = true) : TokenKind.isSign c = true := by
  have hall : ∀ d ∈ ['(', ')', '[', ']'], TokenKind.isSign d = true := by simp [TokenKind.isSign]
  exact hall c (of_decide_eq_true h)

/-- No bracket stands in a literal or between two tokens, and no colon but the last outside the
parentheses of the parameters. -/
structure Clear (r : HeaderRow f) (text : List Char) : Prop where
  brackets : Unspoiled isBracket text r.colon.span.start r.word.span.stop (r.inner ++ [r.colon])
  colons : ∀ q, q ++ [':'] <+: r.source text → q ++ [':'] = r.source text ∨
    r.opening.span.start < r.word.span.start.advance q ∧
    r.word.span.start.advance q ≤ r.closing.span.start

theorem plain (r : HeaderRow f) : ∀ t ∈ r.word :: r.inner ++ [r.colon], t.kind.isMark = false := by
  have hlist := r.list_held.plain
  have hreturned := r.returned_held.plain
  simp only [inner, List.cons_append, List.append_assoc, List.forall_mem_cons,
    List.forall_mem_append]
  simp only [r.word_kind, r.name_kind, r.opening_kind, r.closing_kind, r.colon_kind]
  exact ⟨rfl, rfl, rfl, hlist, rfl, hreturned, rfl, by simp⟩

end HeaderRow

/-- A function has a header, and its block is behind the colon. -/
theorem Grammar.Formed.exists_header {ts : List Token} {notes : List Deprecation} {f : FunctionDef}
    (h : Formed ts notes (.function f)) :
    (Node.function f).span.Closed ts ∧ ∃ (r : HeaderRow f) (front back : List Token),
      ts = front ++ (r.word :: r.inner ++ r.colon :: back) ∧ r.word.span.start = f.span.start ∧
      r.colon.span.stop < f.span.stop ∧ ∀ s ∈ f.body, r.colon.span.stop ≤ s.span.start := by
  obtain ⟨hclosed, items, x, lo, hi, us, hrule, hx, hstand, ⟨front, back, rfl⟩, halong⟩ := h.along
  refine ⟨hclosed, ?_⟩
  cases hrule with
  | @function _ decorators name params row returns rest body last a b c hdecorators hreturns
      hbody hlast =>
    cases hx
    rw [List.append_assoc] at hstand halong
    obtain ⟨vs, _, rfl, -, _, _, rfl, rfl, _, _, rfl, rfl, _, _, rfl,
      ⟨opening, list, closing, rfl, hlist, hopening, hclosing, hparams⟩, hrest⟩ :=
      along_append.mp halong
    obtain ⟨returned, _, rfl, hreturned, _, block, rfl, rfl, -⟩ := along_append.mp hrest
    have hheld : Held false returned := hreturned.held (by cases hreturns <;> rfl)
    obtain ⟨_, -, hcore⟩ := stand_append.mp hstand
    obtain ⟨mid, hhead, -, hmid, hle, hblock⟩ := stand_append.mp hcore
    obtain ⟨-, hdef, hstop⟩ := hhead.within (Symbol.word "def" a) List.mem_cons_self
    have hrow := hblock.row_nodes
    rw [hbody.nodes_eq] at hrow
    have hbehind := fun s (hs : s ∈ body) => hrow.behind (List.mem_map_of_mem (f := Node.stmt) hs)
    obtain ⟨hstart, hlt⟩ := hbehind last (List.mem_of_getLast? hlast)
    dsimp only [Symbol.span, Symbol.front, Node.span] at *
    refine ⟨⟨⟨.name "def", a⟩, ⟨.name name, b⟩, opening, list, closing, returned,
      ⟨.punct .colon, c⟩, rfl, rfl,
      hopening, hlist, hclosing, hparams, hheld, rfl⟩, front ++ vs,
        block ++ back, by simp [HeaderRow.inner], ?_⟩
    dsimp only
    rw [Span.cover_eq (by order) (by order)]
    exact ⟨rfl, by order, fun s hs => (hbehind s ((liftDoc_sublist body).subset hs)).1⟩
  | _ => cases hx

/-! ### Headers in the text -/

namespace HeaderRow

variable {f : FunctionDef} {r : HeaderRow f} {text own : List Char}

/-- Of a clear header, every colon but the last is in brackets. -/
theorem endsAtColon {before : List Char} (hown : ∀ {q}, q <+: own → ∃ vs ws, r.inner = vs ++ ws ∧
      (∀ t ∈ vs, t.span.start < Pos.origin.advance (before ++ q)) ∧
      (∀ t ∈ ws, Pos.origin.advance (before ++ q) ≤ t.span.start) ∧
      q.filter isBracket = (signs vs).filter isBracket)
    (hinner : ∀ t ∈ r.inner, t.span.start < Pos.origin.advance (before ++ own))
    (hcolons : ∀ q, q ++ [':'] <+: own → r.opening.span.start < Pos.origin.advance (before ++ q) ∧
      Pos.origin.advance (before ++ q) ≤ r.closing.span.start) :
    own.foldl bracketDepth 0 = 0 ∧ ∀ q, q ++ [':'] <+: own → q.foldl bracketDepth 0 ≠ 0 := by
  have hkeep : ∀ c ∈ ['(', ')', '[', ']'], isBracket c = true := by simp [isBracket]
  constructor
  · obtain ⟨vs, ws, hsplit, -, hws, hfilter⟩ := hown List.prefix_rfl
    obtain rfl : ws = [] := List.eq_nil_iff_forall_not_mem.mpr fun t ht =>
      absurd (hws t ht) (not_le.mpr (hinner t (by simp [hsplit, ht])))
    have hnested : Nested false (signs r.inner) := by
      have hpair := Nested.pair .round r.list_held.nested r.returned_held.nested
      simpa [inner, r.name_kind, r.opening_kind, r.closing_kind, TokenKind.sign?] using hpair
    rw [List.append_nil] at hsplit
    rw [foldl_bracketDepth_of_filter hkeep hfilter, ← hsplit, hnested.foldl_bracketDepth]
  · intro q hq
    obtain ⟨hopening, hclosing⟩ := hcolons q hq
    obtain ⟨vs, ws, hsplit, hvs, hws, hfilter⟩ := hown ((List.prefix_append q _).trans hq)
    obtain ⟨part, rfl⟩ := @Token.prefix_of_start_lt [r.name] _ _ _ _ _ hsplit hws hopening
    have hlist : [r.name] ++ [r.opening] ++ part <+: r.name :: r.opening :: r.list :=
      Token.prefix_of_le_start (by rw [← hsplit]; rfl) hvs hclosing
    have hpart : signs part <+: signs r.list := by
      obtain ⟨more, hmore⟩ := hlist
      exact ⟨signs more, by rw [← Token.signs_append]; simp at hmore; rw [hmore]⟩
    rw [foldl_bracketDepth_of_filter hkeep hfilter]
    have hdepth := (r.list_held.nested.front hpart 1).1
    simp [r.name_kind, r.opening_kind, TokenKind.sign?, bracketDepth]
    omega

/-- Where the header stands in the text. -/
theorem exists_source {front back : List Token}
    (h : Laid [] (front ++ (r.word :: (r.inner ++ r.colon :: back))) text) :
    ∃ pre post, text = pre ++ r.source text ++ post ∧ Rows.Exact pre (r.source text ++ post) ∧
      r.word.span.start = Pos.origin.advance pre ∧
      (∀ c ∈ (pre ++ r.source text).getLast?, c ≠ '\r') ∧
      Laid (pre ++ r.source text) back post ∧
      ((∀ t ∈ r.inner, t.span.start < r.colon.span.start) → r.Clear text →
        EndsAtColon 0 (r.source text)) := by
  obtain ⟨pre, lexeme, _, rfl, hword, hwspan, hlaid, -⟩ := h.split (by simp)
  have hsolid := hword.solid
  rw [r.word_kind] at hword
  obtain rfl : lexeme = "def".toList := hword.2
  obtain ⟨own, lexeme, post, rfl, hcolon, hcspan, hback, hfilter⟩ := hlaid.split (by simp)
  rw [r.colon_kind] at hcolon
  obtain rfl : lexeme = [':'] := hcolon.2
  rw [List.nil_append] at hwspan hcspan hback hfilter
  have htext : pre ++ ("def".toList ++ (own ++ ([':'] ++ post))) =
      pre ++ ("def".toList ++ own ++ [':']) ++ post := by simp
  have hexact : Rows.Exact pre ("def".toList ++ own ++ [':'] ++ post) := by
    simpa using Token.exact_before hsolid (own ++ ([':'] ++ post))
  have hlast : ∀ c ∈ (pre ++ ("def".toList ++ own ++ [':'])).getLast?, c ≠ '\r' := by
    rw [← List.append_assoc, List.getLast?_concat]
    simp
  have hsource : r.source (pre ++ ("def".toList ++ (own ++ ([':'] ++ post)))) =
      "def".toList ++ own ++ [':'] := by
    have hslice := Rows.slice_advance hexact (.inl hlast)
    rw [source, htext, hwspan, hcspan]
    simpa using hslice
  rw [hsource]
  refine ⟨pre, post, htext, hexact, by rw [hwspan], hlast, by simpa using hback,
    fun hinner hclear => ?_⟩
  obtain ⟨hbrackets, hcolons⟩ := hclear
  rw [hsource, hwspan] at hcolons
  rw [hwspan, hcspan, ← List.append_assoc] at hbrackets
  rw [hcspan] at hinner
  have hplaces : ∀ q, q ++ [':'] <+: own →
      r.opening.span.start < Pos.origin.advance (pre ++ "def".toList ++ q) ∧
      Pos.origin.advance (pre ++ "def".toList ++ q) ≤ r.closing.span.start := by
    intro q hq
    have hplace := hcolons ("def".toList ++ q) (by simpa using hq.trans (List.prefix_append own _))
    rw [← Pos.advance_append, ← List.append_assoc] at hplace
    refine hplace.resolve_left fun heq => ?_
    have hlength := hq.length_le
    have hlength' := congrArg List.length heq
    simp at hlength hlength'
    omega
  obtain ⟨hend, hinside⟩ := endsAtColon
    (fun hq => hfilter isSign_of_isBracket hbrackets hq (Token.advance_le_of_isPrefix _ hq))
    hinner hplaces
  refine ⟨"def".toList ++ own, rfl, by rwa [List.foldl_append], fun q hq => ?_⟩
  -- No colon is in the word itself.
  rcases prefix_append_cases hq with hq | ⟨part, heq, hne, hpart⟩
  · exact absurd (hq.subset (List.mem_append_right q List.mem_cons_self)) (by simp)
  · obtain ⟨part, c, rfl⟩ := (List.eq_nil_or_concat' part).resolve_left hne
    rw [← List.append_assoc] at heq
    obtain ⟨rfl, hc⟩ := List.append_inj' heq rfl
    cases hc
    rw [List.foldl_append]
    exact hinside part hpart

/-- The only `def` of a text begins at `start`, its only parentheses at `opening` and `closing`, and
`colon` is its only colon behind these: what this asks of a token. -/
def isSole (start opening closing : Pos) (colon : Span) (t : Token) : Bool :=
  (t.kind != .name "def" || t.span.start == start) &&
    (t.kind != .punct .openParen || t.span.start == opening) &&
    (t.kind != .punct .closeParen || t.span.start == closing) &&
    (t.kind != .punct .colon || !decide (closing ≤ t.span.start) || t.span == colon)

theorem places_of_isSole {stream : TokenStream} {front back : List Token}
    {start opening closing : Pos} {colon : Span}
    (h : stream.tokens = front ++ (r.word :: r.inner ++ r.colon :: back))
    (hstream : TokenStream.ofText text = .ok stream)
    (hsole : ∀ t ∈ stream.tokens, isSole start opening closing colon t = true) :
    r.word.span.start = start ∧ r.opening.span.start = opening ∧ r.closing.span.start = closing ∧
      r.source text = Rows.slice text ⟨start, colon.stop⟩ := by
  have hrow := TokenStream.row_tokens hstream
  have hlt := hrow.start_lt_stop r.closing (by simp [h, inner]) (r.plain _ (by simp [inner]))
  have hapart := hrow.apart.1
  rw [h, ← List.append_assoc] at hapart
  have hbehind := (List.pairwise_append.mp hapart).2.2 r.closing (by simp [inner]) r.colon (by simp)
  have hword := hsole r.word (by simp [h])
  have hopening := hsole r.opening (by simp [h, inner])
  have hclosing := hsole r.closing (by simp [h, inner])
  have hcolon := hsole r.colon (by simp [h])
  simp only [isSole, r.word_kind, r.opening_kind, r.closing_kind, r.colon_kind]
    at hword hopening hclosing hcolon
  simp at hword hopening hclosing hcolon
  have hstop := hcolon.resolve_left (not_lt.mpr (hclosing ▸ hlt.le.trans hbehind))
  exact ⟨hword, hopening, hclosing, by rw [source, hword, hstop]⟩

end HeaderRow

namespace Tree

/-- The header of a function is the text from `def` to the colon before its block, exactly if that
colon is the first one outside brackets in the text. It is, if no bracket stands in a literal or a
comment of the header and no other colon outside its parameters. -/
theorem header?_function {text : List Char} {parsed : Parsed} {stream : TokenStream}
    {path : List Nat} {f : FunctionDef} (hparse : Module.parse text = .ok parsed)
    (hstream : TokenStream.ofText text = .ok stream)
    (hf : (Node.module parsed.tree).at? path = some (.function f)) :
    ∃ (r : HeaderRow f) (front back : List Token),
      stream.tokens = front ++ (r.word :: r.inner ++ r.colon :: back) ∧
      r.word.span.start = f.span.start ∧
      (∀ s ∈ f.body, r.colon.span.stop ≤ s.span.start) ∧
      ((ofModule parsed.tree text).header? (.function f) = some (String.ofList (r.source text)) ↔
        EndsAtColon 0 (r.source text)) ∧
      (r.Clear text →
        (ofModule parsed.tree text).header? (.function f) =
          some (String.ofList (r.source text))) := by
  obtain ⟨⟨t, ht, hmark, hstop⟩, r, front, back, htokens, hstart, hlt, hbody⟩ :=
    (Module.throughout_of_parse hparse hstream (P := fun n => ∀ f, n = .function f →
      Grammar.Formed stream.tokens parsed.notes n) (by simp) (fun _ h _ _ => h) path _ hf f
      rfl).exists_header
  refine ⟨r, front, back, htokens, hstart, hbody, ?_⟩
  have hrow := TokenStream.row_tokens hstream
  have hapart := hrow.apart.1
  rw [htokens, ← List.append_assoc] at hapart
  have hbefore := fun u hu => (List.pairwise_append.mp hapart).2.2 u hu r.colon List.mem_cons_self
  have hinner : ∀ u ∈ r.inner, u.span.start < r.colon.span.start := fun u hu =>
    lt_of_lt_of_le (hrow.start_lt_stop u (by simp [htokens, hu]) (r.plain u (by simp [hu])))
      (hbefore u (by simp [hu]))
  -- The function ends with a token behind the colon.
  have hbehind : t ∈ back.filter (!·.kind.isMark) := by
    have hle := hrow.start_lt_stop r.colon (by simp [htokens]) (r.plain _ (by simp))
    rw [htokens, ← List.append_assoc] at ht
    rcases List.mem_append.mp ht with ht | ht
    · have := hbefore t ht
      dsimp only [Node.span] at hstop
      order
    · rcases List.mem_cons.mp ht with rfl | ht
      · exact absurd (hstop ▸ hlt) (lt_irrefl _)
      · simp [ht, hmark]
  have hlaid := @TokenStream.laid_append _ _ front _ back hstream (by simp [htokens]) r.plain
  obtain ⟨pre, post, htext, hexact, hword, hlast, hlaid, hclear⟩ :=
    r.exists_source (by simpa using hlaid)
  obtain ⟨start, more, hsplit⟩ := List.append_of_mem hbehind
  rw [hsplit] at hlaid
  obtain ⟨mid, lexeme, rest, rfl, hlexeme, htspan, -⟩ := hlaid.split hlast
  have hsource : (ofModule parsed.tree text).sourceOf (.function f) =
      r.source text ++ (mid ++ lexeme) := by
    have hslice := @Rows.slice_advance pre (r.source text ++ (mid ++ lexeme)) rest
      (by simpa using hexact)
      (by simpa using @Token.exact_after (pre ++ r.source text ++ mid) _ hlexeme.solid rest)
    have hspan : f.span = ⟨Pos.origin.advance pre,
        Pos.origin.advance (pre ++ (r.source text ++ (mid ++ lexeme)))⟩ := by
      have hend : f.span.stop = Pos.origin.advance (pre ++ r.source text ++ mid ++ lexeme) :=
        hstop.trans (congrArg Span.stop htspan)
      rw [← hword, hstart, ← List.append_assoc, ← List.append_assoc, ← hend]
    have htext' : text = pre ++ (r.source text ++ (mid ++ lexeme)) ++ rest := by simpa using htext
    rw [← htext', ← hspan] at hslice
    exact hslice
  have hiff : (ofModule parsed.tree text).header? (.function f) =
      some (String.ofList (r.source text)) ↔ EndsAtColon 0 (r.source text) := by
    rw [header?, hsource, Option.map_eq_some_iff]
    refine ⟨?_, fun h => ⟨_, h.uptoColon_append _, rfl⟩⟩
    rintro ⟨header, hheader, heq⟩
    exact String.ofList_injective heq ▸ endsAtColon_of_uptoColon hheader
  exact ⟨hiff, fun h => hiff.mpr (hclear hinner h)⟩

/-- A text that begins with a function. -/
theorem exists_header {text : List Char} {header : Option String}
    (h : ((Module.parse text).toOption.bind fun parsed =>
      (parsed.tree.body.head?.bind Declaration.function?).map fun f =>
        (ofModule parsed.tree text).header? (.function f)) = some header) :
    ∃ parsed f, Module.parse text = .ok parsed ∧
      (Node.module parsed.tree).at? [0] = some (.function f) ∧
      (ofModule parsed.tree text).header? (.function f) = header := by
  obtain ⟨parsed, hparsed, hshown⟩ := Option.bind_eq_some_iff.mp h
  obtain ⟨f, hfunction, hheader⟩ := Option.map_eq_some_iff.mp hshown
  obtain ⟨d, hd, hf⟩ := Option.bind_eq_some_iff.mp hfunction
  refine ⟨parsed, f, eq_ok_of_toOption hparsed, ?_, hheader⟩
  cases d with
  | function g =>
    cases hf
    obtain ⟨body, hbody⟩ := List.head?_eq_some_iff.mp hd
    simp [Node.at?, Node.parts, Node.fields, Node.partsOf, hbody, Declaration.toNode]
  | _ => cases hf

/-- A header on two lines, with a colon in a literal, in a comment and in its parameters. -/
def wrapped : List Char := "def f(x: T = \":\", # :\n) -> D[u]: pass".toList

theorem header?_function_wrapped : ∃ parsed f, Module.parse wrapped = .ok parsed ∧
    (Node.module parsed.tree).at? [0] = some (.function f) ∧
    ∃ r : HeaderRow f, r.Clear wrapped ∧
      (ofModule parsed.tree wrapped).header? (.function f) =
        some (String.ofList (r.source wrapped)) ∧
      r.source wrapped = "def f(x: T = \":\", # :\n) -> D[u]:".toList := by
  obtain ⟨parsed, f, hparse, hf, -⟩ :=
    @exists_header wrapped (some "def f(x: T = \":\", # :\n) -> D[u]:") (by decide +kernel)
  have htokens : (TokenStream.ofText wrapped).toOption.map (fun stream => (
      stream.tokens.all (HeaderRow.isSole ⟨1, 0⟩ ⟨1, 5⟩ ⟨2, 0⟩ ⟨⟨2, 9⟩, ⟨2, 10⟩⟩),
      stream.tokens.all (fun t => !t.kind.isLiteral ||
        decide (Token.Quiet HeaderRow.isBracket (Rows.slice wrapped t.span))),
      decide (stream.tokens.IsChain fun a b =>
        Token.Quiet HeaderRow.isBracket (Rows.slice wrapped ⟨a.span.stop, b.span.start⟩)))) =
        some (true, true, true) := by decide +kernel
  obtain ⟨stream, hstream, hchecks⟩ := Option.map_eq_some_iff.mp htokens
  simp only [Prod.mk.injEq, List.all_eq_true, decide_eq_true_eq] at hchecks
  obtain ⟨hsole, hliterals, hgaps⟩ := hchecks
  have hread := eq_ok_of_toOption hstream
  obtain ⟨r, front, back, hrow, -, -, -, hclear⟩ := header?_function hparse hread hf
  obtain ⟨hword, hopening, hclosing, hsource⟩ := r.places_of_isSole hrow hread hsole
  have hheader : r.Clear wrapped := by
    constructor
    · refine Token.unspoiled_of_isChain ( List.IsChain.infix hgaps ⟨front, back, by simp [hrow]⟩)
        fun t ht hliteral _ => ?_
      have hmem : t ∈ stream.tokens := by
        rw [hrow]
        simp at ht ⊢
        tauto
      simpa [hliteral] using hliterals t hmem
    · have hall : ∀ p ∈ (Rows.slice wrapped ⟨⟨1, 0⟩, ⟨2, 10⟩⟩).inits, p.getLast? = some ':' →
          p = Rows.slice wrapped ⟨⟨1, 0⟩, ⟨2, 10⟩⟩ ∨
          (⟨1, 5⟩ : Pos) < Pos.advance ⟨1, 0⟩ p.dropLast ∧
            Pos.advance ⟨1, 0⟩ p.dropLast ≤ ⟨2, 0⟩ := by
        decide +kernel
      rw [hword, hopening, hclosing, hsource]
      intro q hq
      simpa using hall (q ++ [':']) (List.mem_inits _ _ |>.mpr hq) (by simp)
  exact ⟨parsed, f, hparse, hf, r, hheader, hclear hheader, hsource.trans (by decide +kernel)⟩

/-- A header with a closing parenthesis and a colon in a literal. -/
def spoiled : List Char := "def f(x: T = \"):\"): pass".toList

/-- The parenthesis in the literal ends the parameters for the hover, and the colon in it the
header. -/
theorem header?_literal : ∃ parsed stream f, Module.parse spoiled = .ok parsed ∧
    TokenStream.ofText spoiled = .ok stream ∧
    (Node.module parsed.tree).at? [0] = some (.function f) ∧
    (ofModule parsed.tree spoiled).header? (.function f) = some "def f(x: T = \"):" ∧
    ∀ (r : HeaderRow f) (front back : List Token),
      stream.tokens = front ++ (r.word :: r.inner ++ r.colon :: back) →
      r.source spoiled = "def f(x: T = \"):\"):".toList := by
  obtain ⟨parsed, f, hparse, hf, hheader⟩ :=
    @exists_header spoiled (some "def f(x: T = \"):") (by decide +kernel)
  have htokens : (TokenStream.ofText spoiled).toOption.map (fun stream => stream.tokens.all
      (HeaderRow.isSole ⟨1, 0⟩ ⟨1, 5⟩ ⟨1, 17⟩ ⟨⟨1, 18⟩, ⟨1, 19⟩⟩)) = some true := by decide +kernel
  obtain ⟨stream, hstream, hsole⟩ := Option.map_eq_some_iff.mp htokens
  have hread := eq_ok_of_toOption hstream
  refine ⟨parsed, stream, f, hparse, hread, hf, hheader, fun r front back hrow => ?_⟩
  rw [(r.places_of_isSole hrow hread (List.all_eq_true.mp hsole)).2.2.2]
  decide +kernel

end Tree

end Vyper
