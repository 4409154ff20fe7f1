import Vyper.Proofs.LineStructure
import Vyper.Proofs.Zones

/-!
# Lines that leave no trace

What kinds of tokens a text has depends on its lexemes and on the margins of its lines, not on where
they stand (`Layout.kinds?`). Blanks only widen a margin, a comment is the same as the end of its
line, and a line feed on a line without tokens changes nothing. So a text has the kinds of tokens
that a retouched copy of it has (`Layout.kinds?_retouched`).
-/

namespace Vyper

/-- The width of the blanks before a place, behind some more text. -/
def Mark.margin (width : Nat) (text : List Char) : Nat :=
  ((⟨.origin, width⟩ : Mark).advance text).width

theorem Mark.width_advance (m : Mark) (text : List Char) :
    (m.advance text).width = margin m.width text := by
  have hall : ∀ m n : Mark, m.width = n.width →
      (m.advance text).width = (n.advance text).width := by
    induction text with
    | nil => exact fun _ _ h => h
    | cons c cs ih =>
      intro m n h
      refine ih (m.step c) (n.step c) ?_
      simp only [step, h]
  exact hall m ⟨.origin, m.width⟩ rfl

theorem Mark.margin_append (width : Nat) (text more : List Char) :
    margin width (text ++ more) = margin (margin width text) more := by
  rw [margin, advance, List.foldl_append]
  exact width_advance _ more

namespace Layout

variable {s t : Layout} {w : Nat} {c : Char} {cs : List Char}

/-! ### Kinds without places -/

/-- What has been added and the state behind it, without the places. -/
def view (fed : Except CompileError (List Token × Layout)) : Option (List TokenKind × Layout) :=
  fed.toOption.map fun fed => (fed.1.map Token.kind, fed.2)

/-- What a lexeme adds, wherever it stands. -/
def outline (s : Layout) (lexeme : Lexeme) (width : Nat) : Option (List TokenKind × Layout) :=
  view (s.feed ⟨lexeme, .point .origin, width⟩)

theorem view_indentTo (s : Layout) (width : Nat) (place place' : Pos) :
    view (s.indentTo width place) = view (s.indentTo width place') := by
  unfold indentTo
  dsimp only
  split
  · rfl
  split
  · split
    · simp [view, Except.toOption]
    · rfl
  · rfl

theorem view_token (marks : Except CompileError (List Token × Layout)) (t : Token)
    (next : Layout → Layout) :
    view (marks >>= fun fed => pure (fed.1 ++ [t], next fed.2)) =
      (view marks).map fun fed => (fed.1 ++ [t.kind], next fed.2) := by
  cases marks with
  | error e => rfl
  | ok fed => simp [view, Except.toOption, bind, Except.bind, pure, Except.pure]

theorem view_feed (s : Layout) (p : Placed) : view (s.feed p) = s.outline p.lexeme p.width := by
  obtain ⟨lexeme, span, width⟩ := p
  cases lexeme with
  | gap => rfl
  | bad fault => rfl
  | lineFeed =>
    simp only [outline, feed]
    split
    · split <;> rfl
    · rfl
  | token kind =>
    have hmarks := view_indentTo s width span.start (Span.point .origin).start
    have htoken := fun marks t =>
      view_token marks t fun s => ⟨depthAfter s.depth kind, s.levels, false, true⟩
    simp only [outline, feed]
    split
    · rw [htoken, htoken, hmarks]
    · rfl

/-- The kinds of the tokens of a text that follows a margin, wherever it stands. -/
def kinds? (s : Layout) (width : Nat) (text : List Char) : Option (List TokenKind) :=
  (s.tokens (.point .origin) (Lexeme.scan ⟨.origin, width⟩ text)).toOption.map (·.map Token.kind)

theorem kinds_tokens_cons (s : Layout) (eof : Span) (p : Placed) (ps : List Placed) :
    (s.tokens eof (p :: ps)).toOption.map (·.map Token.kind) =
      (s.outline p.lexeme p.width).bind fun fed =>
        ((fed.2.tokens eof ps).toOption.map (·.map Token.kind)).map (fed.1 ++ ·) := by
  rw [← view_feed, tokens]
  cases s.feed p with
  | error e => rfl
  | ok fed =>
    change ((do return fed.1 ++ (← fed.2.tokens eof ps)) : Except CompileError _).toOption.map _ =
      ((fed.2.tokens eof ps).toOption.map (·.map Token.kind)).map (fed.1.map Token.kind ++ ·)
    cases fed.2.tokens eof ps with
    | error e => rfl
    | ok out => simp [Except.toOption, bind, Except.bind, pure, Except.pure]

theorem kinds_tokens_scan (s : Layout) (eof : Span) (m : Mark) (text : List Char) :
    (s.tokens eof (Lexeme.scan m text)).toOption.map (·.map Token.kind) =
      s.kinds? m.width text := by
  unfold kinds?
  have hall : ∀ (s : Layout) (m n : Mark) (eof eof' : Span), m.width = n.width →
      (s.tokens eof (Lexeme.scan m text)).toOption.map (·.map Token.kind) =
        (s.tokens eof' (Lexeme.scan n text)).toOption.map (·.map Token.kind) := by
    induction hn : text.length using Nat.strongRecOn generalizing text with
    | ind n ih =>
    intro s m m' eof eof' hm
    cases text with
    | nil => simp [Lexeme.scan, tokens, finish, Except.toOption, apply_ite (List.map Token.kind)]
    | cons c cs =>
      rw [Lexeme.scan, Lexeme.scan, kinds_tokens_cons, kinds_tokens_cons]
      dsimp only
      rw [hm]
      congr 1
      funext fed
      rw [ih _ (hn ▸ Lexeme.cut_rest_length_lt c cs) _ rfl fed.2 _ _ eof eof']
      rw [Mark.width_advance, Mark.width_advance, hm]
  exact hall s m _ eof _ rfl

theorem kinds?_cons (s : Layout) (w : Nat) (c : Char) (cs : List Char) :
    s.kinds? w (c :: cs) = (s.outline (Lexeme.cut c cs).lexeme w).bind fun fed =>
      (fed.2.kinds? (Mark.margin w (Lexeme.cut c cs).text) (Lexeme.cut c cs).rest).map
        (fed.1 ++ ·) := by
  rw [kinds?, Lexeme.scan, kinds_tokens_cons]
  simp only [kinds_tokens_scan, Mark.width_advance]

theorem kinds?_nil (s : Layout) (w : Nat) : s.kinds? w [] = s.kinds? 0 [] := by
  simp only [kinds?, Lexeme.scan]

theorem kinds?_gap (h : (Lexeme.cut c cs).lexeme = .gap) (s : Layout) (w : Nat) :
    s.kinds? w (c :: cs) =
      s.kinds? (Mark.margin w (Lexeme.cut c cs).text) (Lexeme.cut c cs).rest := by
  rw [kinds?_cons, h]
  change (s.kinds? _ _).map ([] ++ ·) = _
  simp

theorem kinds?_bad {fault : Fault} (h : (Lexeme.cut c cs).lexeme = .bad fault) (s : Layout)
    (w : Nat) : s.kinds? w (c :: cs) = none := by
  rw [kinds?_cons, h]
  rfl

/-! ### Blanks, comments and line feeds -/

theorem kinds?_dropWhile_isBlank (s : Layout) (w : Nat) (cs : List Char) :
    s.kinds? w cs =
      s.kinds? (Mark.margin w (cs.takeWhile Lexeme.isBlank)) (cs.dropWhile Lexeme.isBlank) := by
  cases cs with
  | nil => rfl
  | cons c cs =>
    cases hc : Lexeme.isBlank c with
    | false => simp [hc, Mark.margin, Mark.advance]
    | true =>
      have hcut : Lexeme.cut c cs =
          ⟨.gap, c :: cs.takeWhile Lexeme.isBlank, cs.dropWhile Lexeme.isBlank⟩ := by
        rw [Lexeme.cut, if_pos hc]
        rfl
      rw [kinds?_gap (by rw [hcut]), hcut, List.takeWhile_cons_of_pos hc,
        List.dropWhile_cons_of_pos hc]

/-- A blank only widens the margin. -/
theorem kinds?_blank (hc : Lexeme.isBlank c = true) (s : Layout) (w : Nat) (cs : List Char) :
    s.kinds? w (c :: cs) = s.kinds? (Mark.margin w [c]) cs := by
  rw [kinds?_dropWhile_isBlank s w, kinds?_dropWhile_isBlank s _ cs, List.takeWhile_cons_of_pos hc,
    List.dropWhile_cons_of_pos hc, ← Mark.margin_append]
  rfl

theorem kinds?_return (s : Layout) (w : Nat) (cs : List Char) :
    s.kinds? w ('\r' :: cs) = s.kinds? w cs :=
  kinds?_blank rfl s w cs

/-- The state at the start of a line. -/
def lineStart (s : Layout) : Layout :=
  if s.depth = 0 then { s with fresh := true, inLine := false } else s

/-- The line before has ended, if there are no open brackets. -/
def AtLine (s : Layout) : Prop := s.depth = 0 → s.fresh = true ∧ s.inLine = false

theorem atLine_lineStart (s : Layout) : s.lineStart.AtLine := by
  unfold lineStart
  split
  · exact fun _ => ⟨rfl, rfl⟩
  · next hdepth => exact fun h => absurd h hdepth

theorem AtLine.lineStart_eq (h : s.AtLine) : s.lineStart = s := by
  unfold lineStart
  split
  · next hdepth =>
    obtain ⟨hfresh, hin⟩ := h hdepth
    rw [← hfresh, ← hin]
  · rfl

/-- A line feed ends the line, if there are no open brackets; the margin before it does not matter.
-/
theorem kinds?_lineFeed (s : Layout) (w : Nat) (cs : List Char) :
    s.kinds? w ('\n' :: cs) = (s.lineStart.kinds? 0 cs).map
      ((if s.depth = 0 ∧ s.inLine = true then [.newline] else []) ++ ·) := by
  have hout : s.outline .lineFeed w =
      some (if s.depth = 0 ∧ s.inLine = true then [.newline] else [], s.lineStart) := by
    simp only [outline, feed, lineStart]
    split
    · next hdepth => split <;> simp_all [view, Except.toOption]
    · next hdepth => simp [hdepth, view, Except.toOption]
  have hcut : Lexeme.cut '\n' cs = ⟨.lineFeed, ['\n'], cs⟩ := rfl
  rw [kinds?_cons, hcut, hout]
  rfl

theorem AtLine.kinds?_lineFeed (h : s.AtLine) (w : Nat) (cs : List Char) :
    s.kinds? w ('\n' :: cs) = s.kinds? 0 cs := by
  have hin : ¬ (s.depth = 0 ∧ s.inLine = true) := by
    rintro ⟨hdepth, hin⟩
    rw [(h hdepth).2] at hin
    cases hin
  rw [Layout.kinds?_lineFeed, h.lineStart_eq, if_neg hin]
  simp

/-- A comment is as good as the end of its line. -/
theorem kinds?_comment (s : Layout) (w : Nat) (cs : List Char) :
    s.kinds? w ('#' :: cs) = s.kinds? 0 (cs.dropWhile (· != '\n')) := by
  have hcut : Lexeme.cut '#' cs = ⟨.gap, '#' :: cs.takeWhile (· != '\n'),
      cs.dropWhile (· != '\n')⟩ :=
    rfl
  rw [kinds?_gap (by rw [hcut]), hcut]
  have hend := Lexeme.head?_dropWhile_ne cs
  cases hrest : cs.dropWhile (· != '\n') with
  | nil => exact kinds?_nil s _
  | cons d ds =>
    rw [hrest] at hend
    cases hend d rfl
    rw [kinds?_lineFeed, kinds?_lineFeed]

theorem kinds?_continuation {ds : List Char} (h : cs = '\n' :: ds ∨ cs = '\r' :: '\n' :: ds)
    (s : Layout) (w : Nat) : s.kinds? w ('\\' :: cs) = s.kinds? 0 ds := by
  obtain rfl | rfl := h <;> exact kinds?_gap rfl s w

/-- A blank line is invisible. -/
theorem AtLine.kinds?_isBlankLine {line : List Char} (h : s.AtLine) (hline : IsBlankLine line)
    (w : Nat) (cs : List Char) : s.kinds? w (line ++ '\n' :: cs) = s.kinds? 0 cs := by
  obtain ⟨blanks, comment, rfl, hblanks, hcomment⟩ := hline
  induction blanks generalizing w with
  | nil =>
    rcases hcomment with rfl | ⟨body, rfl, hbody⟩
    · exact h.kinds?_lineFeed w cs
    · have hdrop : (body ++ '\n' :: cs).dropWhile (· != '\n') = '\n' :: cs :=
        Lexeme.dropWhile_append_of_stop
          (by simpa using fun c hc (heq : c = '\n') => hbody (heq ▸ hc)) (by simp)
      rw [List.nil_append, List.cons_append, kinds?_comment, hdrop]
      exact h.kinds?_lineFeed 0 cs
  | cons c blanks ih =>
    obtain ⟨hc, hblanks⟩ := List.forall_mem_cons.mp hblanks
    rw [List.cons_append, List.cons_append, kinds?_blank hc]
    exact ih _ hblanks

end Layout

/-! ### Retouched texts -/

namespace Retouched

variable {z : Zone} {cs cs' : List Char}

/-- A comment ends at the same line feed. -/
theorem dropWhile_comment (h : Retouched .comment cs cs') :
    (cs.dropWhile (· != '\n') = [] ∧ cs'.dropWhile (· != '\n') = []) ∨
      ∃ ds ds', cs.dropWhile (· != '\n') = '\n' :: ds ∧ cs'.dropWhile (· != '\n') = '\n' :: ds' ∧
        ds'.length < cs'.length ∧ Retouched .line ds ds' := by
  induction cs generalizing cs' with
  | nil =>
    cases h.eq_nil (by simp)
    exact .inl ⟨rfl, rfl⟩
  | cons c cs ih =>
    by_cases hc : c = '\n'
    · subst hc
      cases h with
      | kept h => exact .inr ⟨cs, _, rfl, rfl, by simp, h⟩
      | returned _ _ h => exact .inr ⟨cs, _, rfl, rfl, Nat.lt_add_right 1 (Nat.lt_succ_self _), h⟩
    · obtain ⟨ds', rfl, hds⟩ := h.cons_of_ne (by simp) hc
      have hstep : Zone.comment.step c = .comment := if_neg hc
      rw [hstep] at hds
      have hdrop : ∀ more, (c :: more).dropWhile (· != '\n') = more.dropWhile (· != '\n') :=
        fun more => List.dropWhile_cons_of_pos (by simpa using hc)
      rw [hdrop, hdrop]
      refine (ih hds).imp_right ?_
      rintro ⟨ds, es', hds, hes, hlength, hlines⟩
      exact ⟨ds, es', hds, hes, Nat.lt_succ_of_lt hlength, hlines⟩

/-- A backslash joins the same lines. -/
theorem cut_backslash (h : Retouched (.slash false) cs cs') :
    (∃ fault, (Lexeme.cut '\\' cs).lexeme = .bad fault ∧
      (Lexeme.cut '\\' cs').lexeme = .bad fault) ∨
    ∃ ds ds', (cs = '\n' :: ds ∨ cs = '\r' :: '\n' :: ds) ∧
      (cs' = '\n' :: ds' ∨ cs' = '\r' :: '\n' :: ds') ∧ Retouched .joined ds ds' := by
  have hcut : ∀ text, Lexeme.cut '\\' text = Lexeme.continuationCut text := fun _ => rfl
  rw [hcut, hcut]
  cases h with
  | nil => exact .inl ⟨_, rfl, rfl⟩
  | returned _ _ h => exact .inr ⟨_, _, .inl rfl, .inr rfl, h⟩
  | @kept _ c ds ds' h =>
    by_cases hfeed : c = '\n'
    · subst hfeed
      exact .inr ⟨_, _, .inl rfl, .inl rfl, h⟩
    by_cases hreturn : c = '\r'
    · subst hreturn
      cases h with
      | nil => exact .inl ⟨_, rfl, rfl⟩
      | returned _ hslash => exact absurd rfl hslash
      | @kept _ e _ _ h =>
        by_cases he : e = '\n'
        · subst he
          exact .inr ⟨_, _, .inr rfl, .inr rfl, h⟩
        · refine .inl ⟨.invalidCharacter '\\', ?_, ?_⟩ <;> simp [Lexeme.continuationCut, he]
    · refine .inl ⟨.invalidCharacter '\\', ?_, ?_⟩ <;> simp [Lexeme.continuationCut, hfeed, hreturn]

end Retouched

/-- A text has the kinds of tokens that a retouched copy has. The induction is on the copy: an
inserted line makes it shorter and leaves the text as it is. -/
theorem Layout.kinds?_retouched {s : Layout} {w : Nat} {z : Zone} {text text' : List Char}
    (h : Retouched z text text') (hz : z.Clear text) (hline : z = .line → s.AtLine ∧ w = 0) :
    s.kinds? w text' = s.kinds? w text := by
  induction hn : text'.length using Nat.strongRecOn generalizing s w z text text' with
  | ind n ih =>
  have hfeed : ∀ {cs cs'} (w), cs'.length < n → Retouched .line cs cs' →
      s.kinds? w ('\n' :: cs') = s.kinds? w ('\n' :: cs) := by
    intro cs cs' w hlength h
    rw [kinds?_lineFeed, kinds?_lineFeed,
      ih cs'.length hlength h (.inl rfl) (fun _ => ⟨s.atLine_lineStart, rfl⟩) rfl]
  cases h with
  | nil => rfl
  | @inserted line cs cs' hblank h =>
    obtain ⟨hs, rfl⟩ := hline rfl
    rw [hs.kinds?_isBlankLine hblank]
    exact ih cs'.length (by simp at hn; omega) h (.inl rfl) hline rfl
  | @returned _ cs cs' _ _ h =>
    rw [hz.step] at h
    rw [kinds?_return]
    exact hfeed w (by simp at hn; omega) h
  | @kept _ c cs cs' h =>
    rw [hz.step] at h
    rw [List.length_cons] at hn
    by_cases hc : c = '\n'
    · subst hc
      exact hfeed w (by omega) h
    cases hblank : Lexeme.isBlank c with
    | true =>
      rw [Zone.enter_of_isBlank hblank] at h
      rw [kinds?_blank hblank, kinds?_blank hblank]
      exact ih cs'.length (by omega) h (.inr (.inl rfl)) (by simp) rfl
    | false =>
      by_cases hcomment : c = '#'
      · subst hcomment
        rw [kinds?_comment, kinds?_comment]
        obtain ⟨hend, hend'⟩ | ⟨ds, ds', hend, hend', hlength, hlines⟩ := h.dropWhile_comment
        · rw [hend, hend']
        · rw [hend, hend']
          exact hfeed 0 (by omega) hlines
      by_cases hslash : c = '\\'
      · subst hslash
        obtain ⟨fault, hbad, hbad'⟩ | ⟨ds, ds', hcs, hcs', hjoined⟩ := h.cut_backslash
        · rw [kinds?_bad hbad, kinds?_bad hbad']
        · rw [kinds?_continuation hcs, kinds?_continuation hcs']
          refine ih ds'.length ?_ hjoined (.inr (.inr (.inl rfl))) (by simp) rfl
          obtain rfl | rfl := hcs' <;> simp at hn <;> omega
      obtain ⟨hlexeme, ⟨fault, hbad⟩ | ⟨htext, z', hz', hclear, hrest⟩⟩ :=
        Lexeme.cutAlike_cut h hblank hcomment hslash hc
      · rw [kinds?_bad hbad, kinds?_bad (hlexeme.trans hbad)]
      · have hshort := Lexeme.cut_rest_length_lt c cs'
        rw [kinds?_cons, kinds?_cons, hlexeme, htext]
        congr 1
        funext fed
        rw [ih _ (by simp at hshort; omega) hrest hclear (fun heq => absurd heq hz') rfl]

/-- A line starts behind a text: not in a literal, and no backslash joins it to the line before. -/
def StartsLine (before : List Char) : Prop :=
  (before = [] ∨ before.getLast? = some '\n') ∧ (Zone.behind before).inLiteral = false ∧
    Zone.behind before ≠ .joined

instance (before : List Char) : Decidable (StartsLine before) :=
  inferInstanceAs (Decidable (_ ∧ _ ∧ _))

theorem StartsLine.behind_eq {before : List Char} (h : StartsLine before) :
    Zone.behind before = .line := by
  obtain ⟨rfl | hlast, hliteral, hjoined⟩ := h
  · rfl
  · obtain ⟨row, rfl⟩ := List.getLast?_eq_some_iff.mp hlast
    rw [Zone.behind, List.foldl_append] at hliteral hjoined ⊢
    have hquote := Zone.isQuote_of_foldl_step (z := .line) (by simp [Zone.quote?]) row
    exact Zone.step_lineFeed hquote hliteral hjoined

/-- A text with a carriage return before every line feed, but for those in literals and those that
have one. -/
def withReturns (z : Zone) (returned : Bool) : List Char → List Char
  | [] => []
  | c :: cs =>
    let more := c :: withReturns (z.step c) (c == '\r') cs
    if c == '\n' && !z.inLiteral && !returned then '\r' :: more else more

theorem retouched_withReturns {z : Zone} {returned : Bool} (h : z = .slash true → returned = true)
    (text : List Char) : Retouched z text (withReturns z returned text) := by
  induction text generalizing z returned with
  | nil => exact .nil z
  | cons c cs ih =>
    have hmore : Retouched (z.step c) cs (withReturns (z.step c) (c == '\r') cs) := by
      refine ih fun hslash => ?_
      cases z <;> grind [Zone.step, Zone.enter, Zone.within]
    rw [withReturns]
    split
    · next hreturn =>
      simp only [Bool.and_eq_true, beq_iff_eq, Bool.not_eq_true'] at hreturn
      obtain ⟨⟨rfl, hliteral⟩, hfirst⟩ := hreturn
      refine .returned hliteral (fun hslash => ?_) hmore
      rw [h hslash] at hfirst
      cases hfirst
    · exact .kept hmore

namespace TokenStream

/-- The kinds of the tokens of a text, if it can be read. -/
def kinds? (text : List Char) : Option (List TokenKind) := (ofText text).toOption.map kinds

theorem kinds?_eq (text : List Char) :
    kinds? text = (Layout.kinds? {} 0 text).map (· ++ [.eof]) := by
  have hkinds := Layout.kinds_tokens_scan {} (.point (Pos.origin.advance text)) .origin text
  change _ = Layout.kinds? {} 0 text at hkinds
  rw [kinds?, ofText, ← hkinds]
  cases Layout.tokens {} (.point (Pos.origin.advance text)) (Lexeme.scan .origin text) <;> rfl

theorem kinds?_retouched {text text' : List Char} (h : Retouched .line text text') :
    kinds? text' = kinds? text := by
  rw [kinds?_eq, kinds?_eq, Layout.kinds?_retouched h (.inl rfl)]
  exact fun _ => ⟨fun _ => ⟨rfl, rfl⟩, rfl⟩

/-- A blank line before a line is invisible, and so is a carriage return before a line feed: the
text can be read if it can be read without, and it has the same kinds of tokens. -/
theorem kinds?_invisible :
    (∀ before line after, StartsLine before → IsBlankLine line →
      kinds? (before ++ (line ++ '\n' :: after)) = kinds? (before ++ after)) ∧
    ∀ text, kinds? (withReturns .line false text) = kinds? text := by
  refine ⟨fun before line after hbefore hline => ?_, fun text => ?_⟩
  · exact kinds?_retouched (.insert hbefore.behind_eq hline after)
  · exact kinds?_retouched (retouched_withReturns (by simp) text)

/-- A comment further in than anything else, in a bracket of a block. -/
theorem kinds?_invisible_bracket :
    let before := "if a:\n    b = [\\\n 1, # c\n".toList
    let after := "2]\nd = \"\"\"\n\"\"\"".toList
    StartsLine before ∧ (kinds? (before ++ after)).isSome = true ∧
      kinds? (before ++ ("\t\t# e".toList ++ '\n' :: after)) = kinds? (before ++ after) := by
  have hstarts : StartsLine "if a:\n    b = [\\\n 1, # c\n".toList := by decide +kernel
  refine ⟨hstarts, by decide +kernel, kinds?_invisible.1 _ _ _ hstarts ?_⟩
  exact ⟨['\t', '\t'],
    ['#', ' ', 'e'], by simp, by simp [Lexeme.isBlank], .inr ⟨[' ', 'e'], rfl, by simp⟩⟩

end TokenStream

end Vyper
