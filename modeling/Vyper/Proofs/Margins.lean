import Vyper.Proofs.Anchoring
import Vyper.Proofs.CursorWords
import Vyper.Proofs.WordBoundaries

/-!
# Margins

A token that begins a line of the module, outside every block, stands at the margin of the document
(`Token.Begins.current_eq_nil`), on a line below everything that was read before it
(`Token.Begins.stop_line_lt`). So declarations share no line, and the name of a variable is what its
line begins with.
-/

namespace Vyper

theorem Pos.line_le_of_le {p q : Pos} (h : p ≤ q) : p.line ≤ q.line := by
  rw [Pos.le_iff] at h
  omega

/-- Behind a break a line is empty. -/
theorem Lines.current_eq_nil {breaks : Char → Bool} {text : List Char}
    (h : ∀ c ∈ text.getLast?, breaks c = true) : current breaks text = [] := by
  induction text with
  | nil => rfl
  | cons c cs ih =>
    cases cs with
    | nil =>
      rw [current, split, endsAfter, h c rfl]
      simp [split]
    | cons d ds =>
      rw [List.getLast?_cons_cons] at h
      have hsplit := split_eq breaks (d :: ds)
      have hflatten := flatten_finished_append breaks (d :: ds)
      rw [ih h] at hsplit hflatten
      -- The text behind is not empty, so a line of it has ended.
      cases hfinished : finished breaks (d :: ds) with
      | nil =>
        rw [hfinished] at hflatten
        cases hflatten
      | cons line lines =>
        rw [hfinished] at hsplit
        rw [current, split, hsplit]
        split
        · change (([c] :: line :: lines) ++ [[]]).getLastD [] = []
          exact List.getLastD_concat
        · change (((c :: line) :: lines) ++ [[]]).getLastD [] = []
          exact List.getLastD_concat

namespace Layout

variable {s t : Layout} {p : Placed} {ps qs : List Placed} {out more : List Token}
  {before rest text : List Char}

/-- Tokens that have been put out, between the text read and the text to read. They end by the line
that is being read, and above it where a token is to begin a line; before that token the line is
blank. -/
structure Settled (s : Layout) (out : List Token) (before rest : List Char) : Prop where
  depth : s.fresh = true → s.depth = 0
  last : s.fresh = false → ∃ x ∈ out.getLast?, x.kind.isMark = false
  lines : ∀ x ∈ out, x.kind.isMark = false → x.span.stop.line ≤ (Pos.origin.advance before).line
  above : s.fresh = true → ∀ x ∈ out, x.kind.isMark = false →
    x.span.stop.line < (Pos.origin.advance before).line
  blank : s.fresh = true → (∀ c ∈ before.getLast?, c = '\n' ∨ Lexeme.isBlank c = true) ∨
    ∀ c ∈ rest.head?, c = '\n'

theorem Settled.start (text : List Char) : Settled {} [] [] text where
  depth _ := rfl
  last hfresh := Bool.noConfusion hfresh
  lines _ hx := absurd hx List.not_mem_nil
  above _ _ hx := absurd hx List.not_mem_nil
  blank _ := .inl fun _ hc => absurd hc (Option.not_mem_none _)

/-- A gap puts nothing out. -/
theorem Settled.gap (h : s.Settled out before (text ++ rest))
    (hblank : (∀ c ∈ (before ++ text).getLast?, c = '\n' ∨ Lexeme.isBlank c = true) ∨
      ∀ c ∈ rest.head?, c = '\n') : s.Settled out (before ++ text) rest := by
  have hle : (Pos.origin.advance before).line ≤ (Pos.origin.advance (before ++ text)).line := by
    rw [Pos.advance_append]
    exact Pos.line_le_of_le (Pos.le_advance _ text)
  exact ⟨h.depth, h.last, fun x hx hmark => (h.lines x hx hmark).trans hle,
    fun hfresh x hx hmark => (h.above hfresh x hx hmark).trans_le hle, fun _ => hblank⟩

/-- Behind a line feed everything is above. -/
theorem Settled.lineFeed (h : s.Settled out before ('\n' :: rest)) {width : Nat} {span : Span}
    (hfeed : s.feed ⟨.lineFeed, span, width⟩ = .ok (more, t)) :
    t.Settled (out ++ more) (before ++ ['\n']) rest := by
  have hline : (Pos.origin.advance (before ++ ['\n'])).line =
      (Pos.origin.advance before).line + 1 := by
    rw [Pos.advance_append]
    rfl
  have hbreak : ∀ c ∈ (before ++ ['\n']).getLast?, c = '\n' ∨ Lexeme.isBlank c = true := by
    intro c hc
    rw [List.getLast?_concat] at hc
    cases hc
    exact .inl rfl
  unfold feed at hfeed
  dsimp only at hfeed
  split at hfeed
  · next hdepth =>
    have hmem : ∀ x ∈ out ++ more, x.kind.isMark = false →
        x.span.stop.line < (Pos.origin.advance (before ++ ['\n'])).line := by
      intro x hx hmark
      rw [hline, Nat.lt_succ_iff]
      rcases List.mem_append.mp hx with hx | hx
      · exact h.lines x hx hmark
      · cases hfeed
        split at hx
        · cases List.mem_singleton.mp hx
          cases hmark
        · cases hx
    cases hfeed
    exact ⟨fun _ => hdepth, fun hfresh => Bool.noConfusion hfresh,
      fun x hx hmark => (hmem x hx hmark).le, fun _ => hmem, fun _ => .inl hbreak⟩
  · cases hfeed
    rw [List.append_nil]
    have hgap : s.Settled out (before ++ ['\n']) rest := h.gap (.inl hbreak)
    exact hgap

/-- A token is the last of the line that is being read. -/
theorem Settled.token (h : s.Settled out before (text ++ rest)) {kind : TokenKind} {width : Nat}
    {start : Pos} (hkind : kind.isMark = false)
    (hfeed : s.feed ⟨.token kind, ⟨start, Pos.origin.advance (before ++ text)⟩, width⟩ =
      .ok (more, t)) :
    t.Settled (out ++ more) (before ++ text) rest := by
  have hfresh := (feed_token_eq_ok hfeed rfl).2
  have hfed := (fed_of_feed hfeed).1
  have hle : (Pos.origin.advance before).line ≤ (Pos.origin.advance (before ++ text)).line := by
    rw [Pos.advance_append]
    exact Pos.line_le_of_le (Pos.le_advance _ text)
  have hnot : ∀ {P : Prop}, t.fresh = true → P := fun hfalse =>
    absurd (hfresh.symm.trans hfalse) Bool.false_ne_true
  cases hfed with
  | silent hnone | newline hnone => cases hnone
  | @token marks x hx hspan hmarks =>
    cases hx
    refine ⟨hnot, fun _ => ?_, ?_, hnot, hnot⟩
    · refine ⟨⟨kind, ⟨start, Pos.origin.advance (before ++ text)⟩⟩, ?_, hkind⟩
      rw [← List.append_assoc, List.getLast?_concat]
      rfl
    · intro x hx hmark
      rcases List.mem_append.mp hx with hx | hx
      · exact (h.lines x hx hmark).trans hle
      · rcases List.mem_append.mp hx with hx | hx
        · rw [(hmarks x hx).1] at hmark
          cases hmark
        · cases List.mem_singleton.mp hx
          exact le_rfl

/-- What one lexeme preserves. -/
theorem Settled.feed {c : Char} {cs : List Char} (h : s.Settled out before (c :: cs))
    (hlexeme : p.lexeme = (Lexeme.cut c cs).lexeme)
    (hspan : p.span =
      ⟨Pos.origin.advance before, Pos.origin.advance (before ++ (Lexeme.cut c cs).text)⟩)
    (hfeed : s.feed p = .ok (more, t)) :
    t.Settled (out ++ more) (before ++ (Lexeme.cut c cs).text) (Lexeme.cut c cs).rest := by
  have hsorted := Lexeme.sorted_cut c cs
  have hne := Lexeme.cut_text_ne_nil c cs
  rw [← Lexeme.cut_append c cs] at h
  obtain ⟨lexeme, span, width⟩ := p
  dsimp only at hlexeme hspan
  generalize Lexeme.cut c cs = piece at *
  cases hsorted with
  | blanks hblanks =>
    cases hlexeme
    cases hfeed
    rw [List.append_nil]
    refine h.gap (.inl fun d hd => .inr ?_)
    rw [List.getLast?_append_of_ne_nil _ hne] at hd
    exact List.all_eq_true.mp hblanks d (List.mem_of_getLast? hd)
  | comment _ hstop =>
    cases hlexeme
    cases hfeed
    rw [List.append_nil]
    exact h.gap (.inr hstop)
  | continuation _ =>
    cases hlexeme
    cases hfeed
    rw [List.append_nil]
    refine h.gap (.inl fun d hd => .inl ?_)
    rw [← List.append_assoc, List.getLast?_concat] at hd
    cases hd
    rfl
  | lineFeed =>
    cases hlexeme
    exact h.lineFeed hfeed
  | token hspells =>
    cases hlexeme
    subst hspan
    exact h.token hspells.isMark_eq_false hfeed
  | bad =>
    cases hlexeme
    cases hfeed

/-- What a run preserves. -/
theorem Settled.run (h : s.Settled out before text)
    (hscan : Lexeme.scan (Mark.origin.advance before) text = ps ++ qs)
    (hrun : s.run ps = .ok (more, t)) :
    ∃ read rest, text = read ++ rest ∧
      qs = Lexeme.scan (Mark.origin.advance (before ++ read)) rest ∧
      t.Settled (out ++ more) (before ++ read) rest := by
  induction ps generalizing s out before text more with
  | nil =>
    cases hrun
    refine ⟨[], text, rfl, ?_, ?_⟩
    · rw [List.append_nil]
      exact hscan.symm
    · rw [List.append_nil, List.append_nil]
      exact h
  | cons p ps ih =>
    obtain ⟨⟨first, s'⟩, hfeed, hrun⟩ := exists_of_bind_eq_ok hrun
    obtain ⟨⟨others, t'⟩, hothers, hout⟩ := exists_of_bind_eq_ok hrun
    cases hout
    obtain ⟨c, cs, rfl, hlexeme, hspan, hps⟩ := Lexeme.scan_cons_eq hscan
    rw [Mark.pos_advance, ← Pos.advance_append] at hspan
    have hfed := h.feed hlexeme hspan hfeed
    have hmark : (Mark.origin.advance before).advance (Lexeme.cut c cs).text =
        Mark.origin.advance (before ++ (Lexeme.cut c cs).text) := by
      rw [Mark.advance, Mark.advance, Mark.advance, List.foldl_append]
    rw [hmark] at hps
    obtain ⟨read, rest, hread, hqs, hsettled⟩ := ih hfed hps.symm hothers
    refine ⟨(Lexeme.cut c cs).text ++ read, rest, ?_, ?_, ?_⟩
    · rw [List.append_assoc, ← hread, Lexeme.cut_append]
    · rw [← List.append_assoc]
      exact hqs
    · rw [← List.append_assoc, ← List.append_assoc]
      exact hsettled

/-- The first token of a line is as far in as the block it stands in. -/
theorem width_of_indentTo {width : Nat} {place : Pos} (h : s.indentTo width place = .ok (out, t)) :
    t.levels.headD 0 = width := by
  unfold indentTo at h
  dsimp only at h
  split at h
  · cases h
    rfl
  split at h
  · split at h
    · next houter =>
      cases h
      exact houter
    · cases h
  · cases h
    omega

end Layout

/-- The blanks without a width are breaks of an editor. -/
theorem Mark.isBreak_of_width {m : Mark} {c : Char} (hblank : Lexeme.isBlank c = true)
    (h : (m.step c).width = 0) : Lines.isBreak c = true := by
  simp only [Lexeme.isBlank, Bool.or_eq_true, beq_iff_eq] at hblank
  rcases hblank with ((rfl | rfl) | rfl) | rfl
  · change m.width + 1 = 0 at h
    omega
  · change (m.width / 8 + 1) * 8 = 0 at h
    omega
  · rfl
  · rfl

theorem Lexeme.width_of_scan {m : Mark} {text : List Char} {p : Placed} {ps : List Placed}
    (h : Lexeme.scan m text = p :: ps) : p.width = m.width := by
  cases text with
  | nil =>
    rw [scan] at h
    cases h
  | cons c cs =>
    rw [scan] at h
    cases h
    rfl

namespace TokenStream

variable {text : List Char} {stream : TokenStream} {front back : List Token} {t : Token}

/-- How a token of a text was put out: the text and the tokens before it, and the marks of its line.
-/
structure Fed (text : List Char) (front : List Token) (t : Token) (s s' : Layout)
    (before rest : List Char) (out marks : List Token) : Prop where
  text_eq : text = before ++ rest
  front_eq : front = out ++ marks
  start_eq : t.span.start = Pos.origin.advance before
  settled : s.Settled out before rest
  opened : s.Open (out.map Token.kind)
  feed : s.feed ⟨.token t.kind, t.span, (Mark.origin.advance before).width⟩ = .ok (marks ++ [t], s')
  head : ∃ c cs, rest = c :: cs ∧ (Lexeme.cut c cs).lexeme = .token t.kind

theorem exists_fed (h : ofText text = .ok stream) (hts : stream.tokens = front ++ t :: back)
    (hmark : t.kind.isMark = false) :
    ∃ s s' before rest out marks, Fed text front t s s' before rest out marks := by
  obtain ⟨-, htokens⟩ := ofText_eq_ok h
  have ht : t ∈ stream.tokens := hts ▸ List.mem_append_right front List.mem_cons_self
  obtain ⟨ps, p, qs, hscan, hlexeme, hspan⟩ := exists_placed h ht hmark
  rw [hscan] at htokens
  obtain ⟨out, s, more, hrun, hmore, hout⟩ := Layout.exists_run_of_tokens htokens
  obtain ⟨first, s', others, hfeed, -, rfl⟩ := Layout.tokens_cons_eq_ok hmore
  obtain ⟨before, rest, htext, hqs, hsettled⟩ := (Layout.Settled.start text).run hscan hrun
  obtain ⟨c, cs, rfl, hcut, hplace, -⟩ := Lexeme.scan_cons_eq hqs.symm
  have hwidth := Lexeme.width_of_scan hqs.symm
  obtain ⟨⟨marks, rfl⟩, -⟩ := Layout.feed_token_eq_ok hfeed hlexeme
  obtain ⟨lexeme, span, width⟩ := p
  dsimp only at hlexeme hspan hcut hplace hwidth hfeed hout
  subst hlexeme hspan hwidth
  have hmarks : ∀ q ∈ ps, ∀ kind, q.lexeme = .token kind → kind.isMark = false := fun q hq =>
    Lexeme.isMark_eq_false_of_mem_scan q (hscan ▸ List.mem_append_left _ hq)
  have hrow := row_tokens h
  have hts' : stream.tokens = (out ++ marks) ++ t :: others := by
    rw [hout]
    simp
  have hfront := Token.eq_of_append_cons hrow.apart.1 (hrow.start_lt_stop t ht hmark) hts hts'
  exact ⟨s, s', before, c :: cs, out, marks, htext, hfront, by rw [hplace, Mark.pos_advance]; rfl,
    hsettled, Layout.Open.start.run hmarks hrun, hfeed, c, cs, rfl, hcut.symm⟩

namespace Fed

variable {s s' : Layout} {before rest : List Char} {out marks : List Token}
  (h : Fed text front t s s' before rest out marks)
include h

theorem isMark_of_mem : ∀ x ∈ marks, x.kind.isMark = true := by
  have hfed := (Layout.fed_of_feed h.feed).1
  generalize hall : marks ++ [t] = all at hfed
  cases hfed with
  | silent hnone | newline hnone => cases hnone
  | token _ _ hmarks =>
    cases List.append_inj_left' hall rfl
    exact fun x hx => (hmarks x hx).1

variable (hlast : ∀ x ∈ front.getLast?, x.kind.isMark = true)
include hlast

/-- A token with a mark before it, or nothing, begins a line. -/
theorem fresh : s.fresh = true := by
  cases hfresh : s.fresh with
  | true => rfl
  | false =>
    have hfeed := h.feed
    rw [Layout.feed_token_of_not_fresh hfresh] at hfeed
    have hmarks := (Prod.mk.inj (Except.ok.inj hfeed)).1
    have hnil : marks = [] := by simpa using hmarks.symm
    obtain ⟨x, hx, hcontent⟩ := h.settled.last hfresh
    rw [h.front_eq, hnil, List.append_nil] at hlast
    rw [hlast x hx] at hcontent
    cases hcontent

theorem stop_line_lt {x : Token} (hx : x ∈ front) (hcontent : x.kind.isMark = false) :
    x.span.stop.line < t.span.start.line := by
  rw [h.front_eq] at hx
  rw [h.start_eq]
  rcases List.mem_append.mp hx with hx | hx
  · exact h.settled.above (h.fresh hlast) x hx hcontent
  · rw [h.isMark_of_mem x hx] at hcontent
    cases hcontent

/-- Outside every block the line has no width before its first token. -/
theorem width_eq_zero (hmark : t.kind.isMark = false) (hlevel : Token.Level front 0) :
    (Mark.origin.advance before).width = 0 := by
  have hfresh := h.fresh hlast
  have hkind : ∀ kind, (Lexeme.token t.kind) = .token kind → kind.isMark = false := by
    rintro _ ⟨⟩
    exact hmark
  have hopen := h.opened.step hkind h.feed
  have hfeed := h.feed
  unfold Layout.feed at hfeed
  dsimp only at hfeed
  rw [hfresh, h.settled.depth hfresh] at hfeed
  obtain ⟨⟨first, u⟩, hindent, hfeed⟩ := exists_of_bind_eq_ok hfeed
  have hlevels : s'.levels = u.levels := by
    have := (Prod.mk.inj (Except.ok.inj hfeed)).2
    rw [← this]
  have hnone : s'.levels = [] := by
    have htotal := hopen.nests.total
    have hcount := hlevel.concat (TokenKind.count_of_content hmark 0)
    rw [h.front_eq, List.append_assoc] at hcount
    unfold Token.Level at hcount
    rw [← List.map_append] at htotal
    rw [← List.length_eq_zero_iff]
    omega
  rw [← Layout.width_of_indentTo hindent, ← hlevels, hnone]
  rfl

/-- Outside every block the first token of a line has a break before it, or nothing. -/
theorem isBreak_of_mem (hmark : t.kind.isMark = false) (hlevel : Token.Level front 0) :
    ∀ c ∈ before.getLast?, Lines.isBreak c = true := by
  intro c hc
  obtain ⟨init, rfl⟩ := List.getLast?_eq_some_iff.mp hc
  have hwidth := h.width_eq_zero hlast hmark hlevel
  rw [Mark.advance, List.foldl_append] at hwidth
  obtain ⟨d, ds, rfl, hcut⟩ := h.head
  rcases h.settled.blank (h.fresh hlast) with hblank | hfeed
  · rcases hblank c hc with rfl | hblank
    · rfl
    · exact Mark.isBreak_of_width hblank hwidth
  · cases hfeed d rfl
    cases hcut

end Fed

end TokenStream

namespace Token.Begins

variable {text : List Char} {stream : TokenStream} {t : Token}
  (h : Begins stream.tokens t) (hstream : TokenStream.ofText text = .ok stream)
  (hmark : t.kind.isMark = false)
include h hstream hmark

/-- What ends before the first token of a line ends above the line. -/
theorem stop_line_lt {x : Token} (hx : x ∈ stream.tokens) (hcontent : x.kind.isMark = false)
    (hle : x.span.stop ≤ t.span.start) : x.span.stop.line < t.span.start.line := by
  obtain ⟨front, back, hts, -, hlast⟩ := h
  obtain ⟨s, s', before, rest, out, marks, hfed⟩ := TokenStream.exists_fed hstream hts hmark
  have hrow := TokenStream.row_tokens hstream
  have hlt := hrow.start_lt_stop x hx hcontent
  have ht := hrow.start_lt_stop t (hts ▸ List.mem_append_right front List.mem_cons_self) hmark
  have hpairs := hrow.apart.1
  rw [hts, List.mem_append, List.mem_cons] at hx
  rw [hts, List.pairwise_append, List.pairwise_cons] at hpairs
  rcases hx with hx | rfl | hx
  · exact hfed.stop_line_lt hlast hx hcontent
  · order
  · have hbehind := hpairs.2.1.1 x hx
    order

/-- The first token of a line of the module stands at the margin. -/
theorem current_eq_nil : ∃ before rest, text = before ++ rest ∧
    t.span.start = Pos.origin.advance before ∧ Lines.current Lines.isBreak before = [] := by
  obtain ⟨front, back, hts, hlevel, hlast⟩ := h
  obtain ⟨s, s', before, rest, out, marks, hfed⟩ := TokenStream.exists_fed hstream hts hmark
  exact ⟨before, rest, hfed.text_eq, hfed.start_eq,
    Lines.current_eq_nil (hfed.isBreak_of_mem hlast hmark hlevel)⟩

end Token.Begins

end Vyper
