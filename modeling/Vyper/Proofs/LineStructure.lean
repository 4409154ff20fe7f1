import Vyper.Proofs.Losslessness

/-!
# Lines and blocks

The tokens of a text form lines, and the marks before the lines nest like brackets. `Layout.Step`
says what one lexeme can do to the layout, `Layout.Open` is what holds of the tokens put out so far,
and `TokenStream.wellBracketed_ofText` is the result for every text that has tokens.
-/

namespace Vyper

namespace TokenKind

/-- The marks before a line: one indent, or dedents. -/
def Opening (marks : List TokenKind) : Prop :=
  marks = [.indent] ∨ ∃ n, marks = List.replicate n .dedent

/-- A line without the mark that ends it. -/
def Begun (line : List TokenKind) : Prop :=
  ∃ marks content, line = marks ++ content ∧ Opening marks ∧ content ≠ [] ∧
    ∀ kind ∈ content, kind.isMark = false

/-- A line: its marks, its tokens, and the mark that ends it. -/
def IsLine (line : List TokenKind) : Prop :=
  ∃ begun, line = begun ++ [.newline] ∧ Begun begun

/-- Some tokens with `n` blocks open before them and `m` behind them; no block closes that is not
open. -/
structure Nests (n m : Nat) (kinds : List TokenKind) : Prop where
  fronts : ∀ front, front <+: kinds → front.count .dedent ≤ n + front.count .indent
  total : n + kinds.count .indent = m + kinds.count .dedent

variable {kind : TokenKind} {kinds more : List TokenKind} {n m k : Nat}

namespace Nests

theorem nil (n : Nat) : Nests n n [] := by
  constructor
  · intro front hfront
    cases List.prefix_nil.mp hfront
    simp
  · simp

theorem append (h : Nests n m kinds) (h' : Nests m k more) : Nests n k (kinds ++ more) := by
  have htotal := h.total
  have htotal' := h'.total
  constructor
  · intro front hfront
    have hkinds := List.prefix_append kinds more
    by_cases hle : front.length ≤ kinds.length
    · exact h.fronts front (List.prefix_of_prefix_length_le hfront hkinds hle)
    · obtain ⟨part, rfl⟩ := List.prefix_of_prefix_length_le hkinds hfront (by omega)
      have hpart := h'.fronts part ((List.prefix_append_right_inj kinds).mp hfront)
      simp only [List.count_append]
      omega
  · simp only [List.count_append]
    omega

theorem singleton (hfront : [kind].count .dedent ≤ n + [kind].count .indent)
    (htotal : n + [kind].count .indent = m + [kind].count .dedent) : Nests n m [kind] := by
  constructor
  · intro front hpre
    rcases List.prefix_cons_iff.mp hpre with rfl | ⟨rest, rfl, hrest⟩
    · simp
    · cases List.prefix_nil.mp hrest
      exact hfront
  · exact htotal

theorem indent (n : Nat) : Nests n (n + 1) [.indent] :=
  singleton (by simp) (by simp)

theorem dedents (n m : Nat) : Nests (n + m) m (List.replicate n .dedent) := by
  induction n with
  | zero => simpa using nil m
  | succ n ih =>
    have hone : Nests (n + 1 + m) (n + m) [.dedent] := singleton (by simp; omega) (by simp; omega)
    exact hone.append ih

/-- A token that is neither an indent nor a dedent. -/
theorem level (n : Nat) (hindent : kind ≠ .indent) (hdedent : kind ≠ .dedent) :
    Nests n n [kind] := by
  have hi : [kind].count .indent = 0 := List.count_singleton.trans (by simp [hindent])
  have hd : [kind].count .dedent = 0 := List.count_singleton.trans (by simp [hdedent])
  exact singleton (by omega) (by omega)

end Nests

theorem Begun.first {marks : List TokenKind} (hmarks : Opening marks)
    (hkind : kind.isMark = false) : Begun (marks ++ [kind]) :=
  ⟨marks, [kind], rfl, hmarks, by simp, by simpa using hkind⟩

theorem Begun.concat {line : List TokenKind} (h : Begun line) (hkind : kind.isMark = false) :
    Begun (line ++ [kind]) := by
  obtain ⟨marks, content, rfl, hmarks, -, hcontent⟩ := h
  refine ⟨marks, content ++ [kind], by simp, hmarks, by simp, ?_⟩
  intro other hother
  rcases List.mem_append.mp hother with hother | hother
  · exact hcontent other hother
  · cases List.mem_singleton.mp hother
    exact hkind

theorem IsLine.eof_not_mem {line : List TokenKind} (h : IsLine line) : .eof ∉ line := by
  obtain ⟨_, rfl, marks, content, rfl, hmarks, -, hcontent⟩ := h
  intro hmem
  rw [List.mem_append, List.mem_append] at hmem
  rcases hmem with (hmem | hmem) | hmem
  · rcases hmarks with rfl | ⟨n, rfl⟩
    · simp at hmem
    · simp at hmem
  · cases hcontent _ hmem
  · simp at hmem

end TokenKind

namespace Layout

open TokenKind

variable {s t : Layout} {p : Placed} {ps qs : List Placed} {out : List Token} {eof : Span}
  {kinds : List TokenKind}

/-- The widths of the open blocks from the outside in; the module is the outermost. -/
def widths (s : Layout) : List Nat := 0 :: s.levels.reverse

/-- The marks before a line, with the widths before and behind them, innermost first. -/
inductive Shift (levels : List Nat) : List TokenKind → List Nat → Prop where
  | stay : Shift levels [] levels
  | deeper {width : Nat} : levels.headD 0 < width → Shift levels [.indent] (width :: levels)
  | out {inner outer : List Nat} : levels = inner ++ outer →
    Shift levels (List.replicate inner.length .dedent) outer

/-- What one lexeme does: nothing, or it ends a line, or it is a token of a line, with marks before
it when it is the first. -/
inductive Step (s : Layout) (p : Placed) : List TokenKind → Layout → Prop where
  | silent : Step s p [] s
  | lineEnd :
    Step s p (if s.inLine then [.newline] else []) { s with fresh := true, inLine := false }
  | token {kind : TokenKind} {marks : List TokenKind} {levels : List Nat} :
    p.lexeme = .token kind → Shift s.levels marks levels → (marks = [] ∨ s.fresh = true) →
    Step s p (marks ++ [kind]) ⟨depthAfter s.depth kind, levels, false, true⟩

theorem shift_of_indentTo {width : Nat} {place : Pos} (h : s.indentTo width place = .ok (out, t)) :
    Shift s.levels (out.map Token.kind) t.levels ∧ t = { s with levels := t.levels } := by
  unfold indentTo at h
  dsimp only at h
  split at h
  · next hdeeper =>
    cases h
    exact ⟨.deeper hdeeper, rfl⟩
  split at h
  · split at h
    · cases h
      refine ⟨?_, rfl⟩
      rw [List.map_map]
      change Shift _ (List.map (fun _ => TokenKind.dedent) _) _
      rw [List.map_const']
      exact .out List.takeWhile_append_dropWhile.symm
    · cases h
  · cases h
    exact ⟨.stay, rfl⟩

theorem step_of_feed (h : s.feed p = .ok (out, t)) : Step s p (out.map Token.kind) t := by
  obtain ⟨lexeme, span, width⟩ := p
  unfold feed at h
  cases lexeme with
  | gap =>
    cases h
    exact .silent
  | bad fault => cases h
  | lineFeed =>
    dsimp only at h
    split at h
    · cases h
      have hend := Step.lineEnd (s := s) (p := ⟨.lineFeed, span, width⟩)
      split at hend
      · next hin => simpa [hin] using hend
      · next hin => simpa [hin] using hend
    · cases h
      exact .silent
  | token kind =>
    dsimp only at h
    split at h
    · next hfresh =>
      obtain ⟨⟨marks, s'⟩, hmarks, h⟩ := exists_of_bind_eq_ok h
      cases h
      obtain ⟨hshift, hs'⟩ := shift_of_indentTo hmarks
      rw [List.map_append, hs']
      rw [Bool.and_eq_true] at hfresh
      exact .token rfl hshift (.inr hfresh.1)
    · cases h
      exact .token rfl .stay (.inl rfl)

/-! ### What one lexeme preserves -/

/-- What has been put out before a lexeme: lines, of which the last may not have ended, with one
indent more than dedents for each open block. -/
structure Open (s : Layout) (kinds : List TokenKind) : Prop where
  lines : ∃ (lines : List (List TokenKind)) (begun : List TokenKind),
    kinds = lines.flatten ++ begun ∧
    (∀ line ∈ lines, IsLine line) ∧ if s.inLine then Begun begun else begun = []
  nests : Nests 0 s.levels.length kinds
  widths : s.widths.Pairwise (· < ·)
  fresh : s.fresh = true → s.inLine = false

theorem Open.start : Open {} [] := by
  constructor
  · exact ⟨[], [], rfl, nofun, rfl⟩
  · exact .nil 0
  · exact List.pairwise_singleton _ _
  · intro _
    rfl

namespace Shift

variable {levels levels' : List Nat} {marks : List TokenKind}

theorem opening (h : Shift levels marks levels') : Opening marks := by
  cases h with
  | stay => exact .inr ⟨0, rfl⟩
  | deeper => exact .inl rfl
  | out => exact .inr ⟨_, rfl⟩

theorem nests (h : Shift levels marks levels') : Nests levels.length levels'.length marks := by
  cases h with
  | stay => exact .nil _
  | deeper => exact .indent _
  | out heq =>
    rw [heq, List.length_append]
    exact .dedents _ _

/-- An indent is wider than every open block, and dedents only close some. -/
theorem widths (h : Shift levels marks levels') (hlevels : (0 :: levels.reverse).Pairwise (· < ·)) :
    (0 :: levels'.reverse).Pairwise (· < ·) := by
  have hrev : ∀ ws : List Nat, (0 :: ws.reverse).Pairwise (· < ·) ↔
      (ws ++ [0]).Pairwise (· > ·) := by
    intro ws
    rw [← List.pairwise_reverse]
    simp
  rw [hrev] at hlevels ⊢
  cases h with
  | stay => exact hlevels
  | deeper hwidth =>
    refine List.pairwise_cons.mpr ⟨?_, hlevels⟩
    intro w hw
    cases levels with
    | nil =>
      cases List.mem_singleton.mp hw
      exact hwidth
    | cons l ls =>
      change l < _ at hwidth
      rcases List.mem_cons.mp hw with rfl | hw
      · exact hwidth
      · exact Nat.lt_trans (List.rel_of_pairwise_cons hlevels hw) hwidth
  | out heq =>
    rw [heq, List.append_assoc] at hlevels
    exact (List.pairwise_append.mp hlevels).2.1

end Shift

theorem Open.lineEnd (h : Open s kinds) :
    Open { s with fresh := true, inLine := false }
      (kinds ++ if s.inLine then [.newline] else []) := by
  obtain ⟨lines, begun, rfl, hlines, hbegun⟩ := h.lines
  constructor
  · by_cases hin : s.inLine = true
    · simp only [hin, if_true] at hbegun ⊢
      refine ⟨lines ++ [begun ++ [.newline]], [], by simp, ?_, by simp⟩
      intro line hline
      rcases List.mem_append.mp hline with hline | hline
      · exact hlines line hline
      · cases List.mem_singleton.mp hline
        exact ⟨begun, rfl, hbegun⟩
    · simp only [hin] at hbegun ⊢
      exact ⟨lines, begun, by simp, hlines, hbegun⟩
  · refine h.nests.append ?_
    split
    · exact .level _ nofun nofun
    · exact .nil _
  · exact h.widths
  · intro _
    rfl

theorem Open.token (h : Open s kinds) {kind : TokenKind} {marks : List TokenKind}
    {levels : List Nat} (hkind : kind.isMark = false) (hshift : Shift s.levels marks levels)
    (hmarks : marks = [] ∨ s.fresh = true) (depth : Nat) :
    Open ⟨depth, levels, false, true⟩ (kinds ++ (marks ++ [kind])) := by
  obtain ⟨lines, begun, rfl, hlines, hbegun⟩ := h.lines
  constructor
  · refine ⟨lines, begun ++ (marks ++ [kind]), by simp, hlines, ?_⟩
    by_cases hin : s.inLine = true
    · -- Marks stand only before a line.
      have hnil : marks = [] := by
        rcases hmarks with hnil | hfresh
        · exact hnil
        · rw [h.fresh hfresh] at hin
          cases hin
      simp only [hin, if_true] at hbegun
      rw [hnil, List.nil_append]
      exact hbegun.concat hkind
    · simp only [hin] at hbegun
      cases hbegun
      exact .first hshift.opening hkind
  · have hlevel : Nests levels.length levels.length [kind] := by
      refine .level _ ?_ ?_ <;> rintro rfl <;> cases hkind
    exact h.nests.append (hshift.nests.append hlevel)
  · exact hshift.widths h.widths
  · exact nofun

theorem Open.step (h : Open s kinds) (hp : ∀ kind, p.lexeme = .token kind → kind.isMark = false)
    (hfeed : s.feed p = .ok (out, t)) : Open t (kinds ++ out.map Token.kind) := by
  have hstep := step_of_feed hfeed
  generalize out.map Token.kind = added at hstep ⊢
  cases hstep with
  | silent =>
    rw [List.append_nil]
    exact h
  | lineEnd => exact h.lineEnd
  | token hlexeme hshift hmarks => exact h.token (hp _ hlexeme) hshift hmarks _

/-! ### What a run preserves -/

/-- The tokens of the first lexemes of a text, and the state behind them. -/
def run (s : Layout) : List Placed → Except CompileError (List Token × Layout)
  | [] => .ok ([], s)
  | p :: ps => do
    let (out, s) ← s.feed p
    let (more, s) ← s.run ps
    return (out ++ more, s)

theorem exists_run_of_tokens (h : s.tokens eof (ps ++ qs) = .ok out) :
    ∃ front t back, s.run ps = .ok (front, t) ∧ t.tokens eof qs = .ok back ∧
      out = front ++ back := by
  induction ps generalizing s out with
  | nil => exact ⟨[], s, out, rfl, h, rfl⟩
  | cons p ps ih =>
    obtain ⟨first, s', more, hfeed, hmore, rfl⟩ := tokens_cons_eq_ok h
    obtain ⟨front, t, back, hrun, hback, rfl⟩ := ih hmore
    refine ⟨first ++ front, t, back, ?_, hback, by simp⟩
    rw [run, hfeed]
    change (s'.run ps >>= fun r => pure (first ++ r.1, r.2)) = _
    rw [hrun]
    rfl

theorem Open.run (h : Open s kinds)
    (hps : ∀ p ∈ ps, ∀ kind, p.lexeme = .token kind → kind.isMark = false)
    (hrun : s.run ps = .ok (out, t)) : Open t (kinds ++ out.map Token.kind) := by
  induction ps generalizing s kinds out with
  | nil =>
    cases hrun
    rw [List.map_nil, List.append_nil]
    exact h
  | cons p ps ih =>
    obtain ⟨⟨first, s'⟩, hfeed, hrun⟩ := exists_of_bind_eq_ok hrun
    obtain ⟨⟨more, t'⟩, hmore, hout⟩ := exists_of_bind_eq_ok hrun
    cases hout
    obtain ⟨hp, hps⟩ := List.forall_mem_cons.mp hps
    rw [List.map_append, ← List.append_assoc]
    exact ih (h.step hp hfeed) hps hmore

/-- The end of the text ends the last line and closes every block. -/
theorem Open.finish (h : Open s kinds) (eof : Span) :
    (∃ (lines : List (List TokenKind)) (n : Nat),
      kinds ++ (s.finish eof).map Token.kind = lines.flatten ++ List.replicate n .dedent ∧
      ∀ line ∈ lines, IsLine line) ∧
    Nests 0 0 (kinds ++ (s.finish eof).map Token.kind) := by
  have hfinish : (s.finish eof).map Token.kind =
      (if s.inLine then [.newline] else []) ++ List.replicate s.levels.length .dedent := by
    rw [Layout.finish, List.map_append, List.map_map]
    change _ ++ List.map (fun _ => TokenKind.dedent) s.levels = _
    rw [List.map_const']
    split
    · rfl
    · rfl
  have hend := h.lineEnd
  rw [hfinish, ← List.append_assoc]
  constructor
  · obtain ⟨lines, begun, hkinds, hlines, hbegun⟩ := hend.lines
    cases hbegun
    rw [List.append_nil] at hkinds
    exact ⟨lines, s.levels.length, by rw [hkinds], hlines⟩
  · exact hend.nests.append (.dedents s.levels.length 0)

end Layout

/-- A token that is cut off a text is none of the marks. -/
theorem Lexeme.isMark_eq_false_of_mem_scan {m : Mark} {text : List Char} :
    ∀ p ∈ Lexeme.scan m text, ∀ kind, p.lexeme = .token kind → kind.isMark = false := by
  fun_induction Lexeme.scan m text with
  | case1 => exact fun p hp => absurd hp List.not_mem_nil
  | case2 m c cs next =>
    rename_i ih
    refine List.forall_mem_cons.mpr ⟨?_, ih⟩
    intro kind hkind
    have hsorted := Lexeme.sorted_cut c cs
    change (Lexeme.cut c cs).lexeme = _ at hkind
    clear_value next
    clear ih
    generalize Lexeme.cut c cs = cut at hkind hsorted
    cases hsorted with
    | token hspells =>
      cases hkind
      exact hspells.isMark_eq_false
    | _ => cases hkind

namespace TokenStream

variable {text : List Char} {stream : TokenStream}

/-- What a reader of the stream sees, up to the end of the text. -/
def kinds (stream : TokenStream) : List TokenKind := stream.tokens.map Token.kind ++ [.eof]

/-- The tokens of a text are lines and then dedents; indents and dedents nest; and behind every
lexeme the widths of the open blocks increase from zero. -/
structure WellBracketed (text : List Char) (stream : TokenStream) : Prop where
  lines : ∃ (lines : List (List TokenKind)) (n : Nat),
    stream.kinds = lines.flatten ++ List.replicate n .dedent ++ [.eof] ∧
    ∀ line ∈ lines, TokenKind.IsLine line
  eof_last : .eof ∉ stream.kinds.dropLast
  fronts : ∀ front, front <+: stream.kinds → front.count .dedent ≤ front.count .indent
  total : stream.kinds.count .dedent = stream.kinds.count .indent
  widths : ∀ ps qs, Lexeme.scan Mark.origin text = ps ++ qs →
    ∃ out s, Layout.run {} ps = .ok (out, s) ∧ out <+: stream.tokens ∧
      s.widths.Pairwise (· < ·) ∧
      (out.map Token.kind).count .indent = (out.map Token.kind).count .dedent + s.levels.length

theorem wellBracketed_ofText (h : ofText text = .ok stream) : WellBracketed text stream := by
  obtain ⟨tokens, htokens, hstream⟩ := exists_of_bind_eq_ok h
  cases hstream
  set eof := Span.point (Pos.origin.advance text)
  have hrun : ∀ ps qs, Lexeme.scan Mark.origin text = ps ++ qs →
      ∃ front s back, Layout.run {} ps = .ok (front, s) ∧ s.tokens eof qs = .ok back ∧
        tokens = front ++ back ∧ Layout.Open s (front.map Token.kind) := by
    intro ps qs hscan
    rw [hscan] at htokens
    obtain ⟨front, s, back, hrun, hback, rfl⟩ := Layout.exists_run_of_tokens htokens
    refine ⟨front, s, back, hrun, hback, rfl, Layout.Open.start.run ?_ hrun⟩
    intro p hp
    exact Lexeme.isMark_eq_false_of_mem_scan p (hscan ▸ List.mem_append_left qs hp)
  obtain ⟨front, s, _, -, hback, rfl, hopen⟩ := hrun _ [] (List.append_nil _).symm
  cases hback
  obtain ⟨⟨lines, n, hlines, hline⟩, hnests⟩ := hopen.finish eof
  rw [← List.map_append] at hlines hnests
  have hend : TokenKind.Nests 0 0 (kinds ⟨front ++ s.finish eof, eof⟩) :=
    hnests.append (.level 0 nofun nofun)
  have hshape : kinds ⟨front ++ s.finish eof, eof⟩ =
      lines.flatten ++ List.replicate n .dedent ++ [.eof] := by rw [kinds, hlines]
  refine ⟨⟨lines, n, hshape, hline⟩, ?_, ?_, ?_, ?_⟩
  · rw [hshape, List.dropLast_concat]
    simp only [List.mem_append, List.mem_flatten, List.mem_replicate]
    rintro (⟨line, hmem, heof⟩ | ⟨-, heof⟩)
    · exact (hline line hmem).eof_not_mem heof
    · cases heof
  · intro ahead hahead
    simpa using hend.fronts ahead hahead
  · simpa using hend.total.symm
  · intro ps qs hscan
    obtain ⟨out, t, back, hout, -, htokens, hopen⟩ := hrun ps qs hscan
    refine ⟨out, t, hout, ⟨back, htokens.symm⟩, hopen.widths, ?_⟩
    have htotal := hopen.nests.total
    omega

/-- Two blocks, one in the other and indented by a tab, a comment and an empty line before them, a
line broken inside parentheses and a bracket too many; at the end a block is still open. -/
def blocks : List Char := "if a:\n    # b\n\n    if (c\n  ):\n\td\n    e)\nf\nif g:\n h".toList

theorem wellBracketed_ofText_blocks :
    ∃ stream, ofText blocks = .ok stream ∧ stream.kinds.count .indent = 3 ∧
      WellBracketed blocks stream := by
  have hcount : (ofText blocks).toOption.map (·.kinds.count .indent) = some 3 := by decide +kernel
  cases hstream : ofText blocks with
  | error e =>
    rw [hstream] at hcount
    cases hcount
  | ok stream =>
    rw [hstream] at hcount
    exact ⟨stream, rfl, Option.some.inj hcount, wellBracketed_ofText hstream⟩

end TokenStream

end Vyper
