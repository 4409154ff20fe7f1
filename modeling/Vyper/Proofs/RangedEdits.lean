import Vyper.Proofs.Columns
import Vyper.Server.State

/-!
# Edits of a range

A position on a line of a document stands for a place on what that line says, and one on the line
behind the last for the end of the text (`Document.Resolves`). Such a place is never inside a line
break of two characters. An edit replaces what is between the places of its two ends, or fails and
leaves the document alone (`Document.applyChange_splices`).
-/

namespace Vyper

namespace Lines

variable {breaks : Char → Bool} {text pre post said : List Char}

/-- What can end a line: nothing at the end of the text, a break, or a carriage return with its line
feed. -/
def IsTerminator (breaks : Char → Bool) (terminator : List Char) : Prop :=
  terminator = [] ∨ (∃ c, terminator = [c] ∧ breaks c = true) ∨ terminator = ['\r', '\n']

/-- A line is text without breaks, and what ends it. -/
theorem exists_terminator (hfeed : breaks '\n' = true) {line : List Char}
    (h : line ∈ split breaks text) : ∃ body terminator, line = body ++ terminator ∧
      (∀ c ∈ body, breaks c = false) ∧ IsTerminator breaks terminator := by
  induction text generalizing line with
  | nil =>
    cases List.mem_singleton.mp h
    exact ⟨[], [], rfl, by simp, .inl rfl⟩
  | cons c cs ih =>
    rw [split] at h
    split at h
    · next hends =>
      rcases List.mem_cons.mp h with rfl | h
      · have hc : breaks c = true := by
          rw [endsAfter, Bool.and_eq_true] at hends
          exact hends.1
        exact ⟨[], [c], rfl, by simp, .inr (.inl ⟨c, rfl, hc⟩)⟩
      · exact ih h
    · next hends =>
      obtain ⟨first, rest, hsplit⟩ := List.exists_cons_of_ne_nil (split_ne_nil breaks cs)
      rw [hsplit] at h ih
      rcases List.mem_cons.mp h with rfl | h
      · cases hc : breaks c with
        | false =>
          obtain ⟨body, terminator, rfl, hbody, hterminator⟩ := ih List.mem_cons_self
          exact ⟨c :: body, terminator, rfl, List.forall_mem_cons.mpr ⟨hc, hbody⟩, hterminator⟩
        | true =>
          -- The break did not end the line, so it is a carriage return in front of a line feed.
          have hpair : c = '\r' ∧ cs.head? = some '\n' := by
            by_contra hpair
            rw [endsAfter_eq hpair] at hends
            exact hends hc
          obtain ⟨rest', hfirst⟩ := exists_cons_lineFeed hfeed hpair.2
          rw [hsplit] at hfirst
          cases hfirst
          exact ⟨[], _, rfl, by simp, .inr (.inr (by rw [hpair.1]; rfl))⟩
      · exact ih (List.mem_cons_of_mem first h)

theorem Boundary.cons {c : Char} (h : Boundary pre post) (hnil : pre = [] → Boundary [c] post) :
    Boundary (c :: pre) post := by
  rintro ⟨hlast, hhead⟩
  rw [List.getLast?_cons] at hlast
  cases hpre : pre.getLast? with
  | none =>
    rw [hpre] at hlast
    exact hnil (List.getLast?_eq_none_iff.mp hpre) ⟨hlast, hhead⟩
  | some d =>
    rw [hpre] at hlast
    exact h ⟨hpre.trans hlast, hhead⟩

/-- A line does not start inside a break of two characters. -/
theorem boundary_split (hfeed : breaks '\n' = true) (text : List Char) (n : Nat) :
    Boundary ((split breaks text).take n).flatten ((split breaks text).drop n).flatten := by
  induction text generalizing n with
  | nil =>
    have hnil : ((split breaks []).take n).flatten = [] := by cases n <;> simp [split]
    rw [hnil]
    exact fun h => by cases h.1
  | cons c cs ih =>
    have hrest : ∀ m, ((split breaks cs).take m).flatten = [] →
        ((split breaks cs).drop m).flatten = cs := by
      intro m hnil
      have hall := flatten_split breaks cs
      rw [← List.take_append_drop m (split breaks cs), List.flatten_append, hnil] at hall
      exact hall
    cases n with
    | zero => exact fun h => by cases h.1
    | succ n =>
      rw [split]
      split
      · next hends =>
        apply (ih n).cons
        intro hnil
        rw [hrest n hnil]
        rintro ⟨hc, hhead⟩
        obtain rfl : c = '\r' := by simpa using hc
        rw [endsAfter, hhead] at hends
        simp at hends
      · obtain ⟨first, rest, hsplit⟩ := List.exists_cons_of_ne_nil (split_ne_nil breaks cs)
        have htake := ih (n + 1)
        have hnone := hrest (n + 1)
        rw [hsplit] at htake hnone ⊢
        apply htake.cons
        intro hnil
        rw [hnone hnil]
        rintro ⟨-, hhead⟩
        obtain ⟨rest', hfirst⟩ := exists_cons_lineFeed hfeed hhead
        rw [hsplit] at hfirst
        cases hfirst
        cases hnil

/-- What a line says holds no break of the editor. -/
theorem isEditorBreak_of_mem_content {line : List Char} (h : line ∈ split isBreak text) {c : Char}
    (hc : c ∈ content line) : isEditorBreak c = false := by
  obtain ⟨body, terminator, rfl, hbody, hterminator⟩ := exists_terminator (by decide) h
  have hclean : ∀ c ∈ body, isEditorBreak c = false :=
    fun c hc => isEditorBreak_eq_false (hbody c hc)
  rw [content_append hclean] at hc
  rcases List.mem_append.mp hc with hc | hc
  · exact hclean c hc
  · rcases hterminator with rfl | ⟨b, rfl, -⟩ | rfl
    · cases hc
    · cases hbreak : isEditorBreak b with
      | false =>
        obtain rfl := List.mem_singleton.mp ((isPrefix_content [b]).mem hc)
        exact hbreak
      | true =>
        have hnone := content_concat hbreak []
        rw [List.nil_append] at hnone
        rw [hnone] at hc
        cases hc
    · cases hc

/-- Nor is a place on what a line says inside such a break. -/
theorem Boundary.take {above below : List Char} (h : Boundary above (said ++ below))
    (hclean : ∀ c ∈ said, isEditorBreak c = false) (k : Nat) :
    Boundary (above ++ said.take k) (said.drop k ++ below) := by
  cases hlast : (said.take k).getLast? with
  | none =>
    have hnil := List.getLast?_eq_none_iff.mp hlast
    have hdrop := List.take_append_drop k said
    rw [hnil, List.nil_append] at hdrop
    rw [hnil, List.append_nil, hdrop]
    exact h
  | some c =>
    rintro ⟨hreturn, -⟩
    rw [List.getLast?_append, hlast] at hreturn
    cases hreturn
    exact absurd (hclean _ (List.mem_of_mem_take (List.mem_of_getLast? hlast))) (by decide)

end Lines

namespace Document

open Lines

variable {d : Document} {p : Position} {o : Nat}

/-- The offset a position stands for: on its line, at the character its column falls on; or the end
of the text, for the line behind the last. -/
inductive Resolves (d : Document) (p : Position) : Nat → Prop
  | inLine {above line below : List Char} {k : Nat} (htext : d.text = above ++ line ++ below)
    (hstart : above.length = Lines.start d.text p.line) (hline : d.line? p.line = some line)
    (hclean : ∀ c ∈ line, isEditorBreak c = false) (hcolumn : Utf16.FallsOn line p.character k) :
    Resolves d p (above.length + k)
  | atEnd (h : p.line = d.lineCount) : Resolves d p d.text.length

/-- What a line of a document says, and the text around that. -/
theorem exists_line_cut {n : Nat} (h : n < d.lineCount) :
    ∃ above line below, d.text = above ++ line ++ below ∧ above.length = Lines.start d.text n ∧
      d.line? n = some line ∧ (∀ c ∈ line, isEditorBreak c = false) ∧
      Boundary above (line ++ below) := by
  have hlt : n < (split isBreak d.text).length := by rwa [lineCount, count, ofText_eq_split] at h
  have hfull := List.getElem?_eq_getElem hlt
  have hdrop := List.drop_eq_getElem_cons hlt
  generalize (split isBreak d.text)[n] = full at hfull hdrop
  obtain ⟨below, hbelow⟩ : content full <+: ((split isBreak d.text).drop n).flatten := by
    rw [hdrop, List.flatten_cons]
    exact (isPrefix_content full).trans (List.prefix_append full _)
  refine ⟨((split isBreak d.text).take n).flatten, content full, below, ?_, ?_, ?_, ?_, ?_⟩
  · rw [List.append_assoc, hbelow, ← List.flatten_append, List.take_append_drop, flatten_split]
  · rw [Lines.start, ofText_eq_split]
  · rw [line?, Lines.line?, ofText_eq_split, hfull, Option.map_some]
  · intro c hc
    exact isEditorBreak_of_mem_content (List.mem_of_getElem? hfull) hc
  · rw [hbelow]
    exact boundary_split (by decide) d.text n

/-- A position on a line stands for a place on what the line says. -/
theorem resolves_of_lt (h : p.line < d.lineCount) :
    ∃ o, d.Resolves p o ∧ Boundary (d.text.take o) (d.text.drop o) := by
  obtain ⟨above, line, below, htext, hstart, hline, hclean, hboundary⟩ := exists_line_cut h
  have hcolumn := Utf16.fallsOn_charIndex line p.character
  refine ⟨_, .inLine htext hstart hline hclean hcolumn, ?_⟩
  rw [htext, List.append_assoc, List.take_length_add_append, List.drop_length_add_append,
    List.take_append_of_le_length hcolumn.inside, List.drop_append_of_le_length hcolumn.inside]
  exact hboundary.take hclean _

theorem resolves_of_le (h : p.line ≤ d.lineCount) :
    ∃ o, d.Resolves p o ∧ Boundary (d.text.take o) (d.text.drop o) := by
  rcases Nat.lt_or_eq_of_le h with hlt | heq
  · exact resolves_of_lt hlt
  · refine ⟨d.text.length, .atEnd heq, ?_⟩
    rw [List.drop_length]
    exact fun hb => by cases hb.2

/-- A position stands for one place, and its offset is that of the place. -/
theorem offset_of_resolves (h : d.Resolves p o) : d.offset p = .ok o := by
  cases h with
  | @inLine above line below k htext hstart hline hclean hcolumn =>
    have hindex := hcolumn.unique (Utf16.fallsOn_charIndex line p.character)
    rw [offset, if_neg (Nat.ne_of_lt (lt_lineCount_of_line hline)), cursor?_of_line hline,
      hstart, hindex]
  | atEnd h => rw [offset, if_pos h]

theorem offset_of_gt (h : d.lineCount < p.line) : d.offset p = .error ⟨p⟩ := by
  have hnone : d.line? p.line = none := by
    rw [line?, Lines.line?, List.getElem?_eq_none (Nat.le_of_lt h), Option.map_none]
  rw [offset, if_neg (by omega), cursor?, hnone]
  rfl

theorem le_length_of_resolves (h : d.Resolves p o) : o ≤ d.text.length := by
  cases h with
  | inLine htext _ _ _ hcolumn =>
    have hinside := hcolumn.inside
    rw [htext, List.length_append, List.length_append]
    omega
  | atEnd => exact Nat.le_refl _

/-- The text cut at two offsets. -/
theorem exists_segment {text : List Char} {first last : Nat} (h : first ≤ last)
    (hlast : last ≤ text.length) (replacement : List Char) :
    ∃ before segment after, text = before ++ segment ++ after ∧ before.length = first ∧
      (before ++ segment).length = last ∧
      splice text first last replacement = before ++ replacement ++ after := by
  refine ⟨text.take first, (text.drop first).take (last - first), text.drop last, ?_, ?_, ?_, rfl⟩
  · have hdrop : (text.drop first).drop (last - first) = text.drop last := by
      rw [List.drop_drop, Nat.add_sub_cancel' h]
    rw [← hdrop, List.append_assoc, List.take_append_drop, List.take_append_drop]
  · rw [List.length_take]
    omega
  · rw [List.length_append, List.length_take, List.length_take, List.length_drop]
    omega

theorem applyChange_eq_error (d : Document) (r : Range) (replacement : List Char)
    (h : d.lineCount < r.start.line ∨ d.lineCount < r.stop.line) :
    d.applyChange (some r) replacement =
      .error ⟨if d.lineCount < r.start.line then r.start else r.stop⟩ := by
  by_cases hstart : d.lineCount < r.start.line
  · rw [applyChange, offset_of_gt hstart, if_pos hstart]
    rfl
  · obtain ⟨first, hfirst, -⟩ := resolves_of_le (Nat.le_of_not_lt hstart)
    have hstop := h.resolve_left hstart
    rw [applyChange, offset_of_resolves hfirst, offset_of_gt hstop, if_neg hstart]
    rfl

theorem applyChange_of_le {r : Range} (hstart : r.start.line ≤ d.lineCount)
    (hstop : r.stop.line ≤ d.lineCount) (replacement : List Char) :
    ∃ first last before segment after, d.Resolves r.start first ∧ d.Resolves r.stop last ∧
      (∀ o ∈ [first, last], Boundary (d.text.take o) (d.text.drop o)) ∧
      d.text = before ++ segment ++ after ∧ before.length = min first last ∧
      (before ++ segment).length = max first last ∧
      d.applyChange (some r) replacement = .ok ⟨d.uri, before ++ replacement ++ after⟩ := by
  obtain ⟨first, hfirst, hboundary⟩ := resolves_of_le hstart
  obtain ⟨last, hlast, hboundary'⟩ := resolves_of_le hstop
  have hle : max first last ≤ d.text.length :=
    Nat.max_le.mpr ⟨le_length_of_resolves hfirst, le_length_of_resolves hlast⟩
  have hordered : min first last ≤ max first last := by omega
  obtain ⟨before, segment, after, htext, hbefore, hsegment, hsplice⟩ :=
    exists_segment hordered hle replacement
  refine ⟨first, last, before, segment, after, hfirst, hlast, ?_, htext, hbefore, hsegment, ?_⟩
  · simpa using ⟨hboundary, hboundary'⟩
  · rw [applyChange_of_offset (offset_of_resolves hfirst) (offset_of_resolves hlast), hsplice]

theorem exists_applyChange_error_iff (d : Document) (r : Range) (replacement : List Char) :
    (∃ e, d.applyChange (some r) replacement = .error e) ↔
      d.lineCount < r.start.line ∨ d.lineCount < r.stop.line := by
  constructor
  · rintro ⟨e, he⟩
    by_contra hnone
    rw [not_or, Nat.not_lt, Nat.not_lt] at hnone
    obtain ⟨first, last, before, segment, after, -, -, -, -, -, -, hok⟩ :=
      applyChange_of_le hnone.1 hnone.2 replacement
    rw [he] at hok
    cases hok
  · intro h
    exact ⟨_, applyChange_eq_error d r replacement h⟩

/-- An edit fails exactly if an end of its range is below the line behind the last. It names the
start if that is such an end, and leaves the document as it was. Otherwise it replaces what is
between the places that the two ends stand for, in whichever order they come. -/
theorem applyChange_splices (d : Document) (r : Range) (replacement : String) :
    ((∃ e, d.applyChange (some r) replacement.toList = .error e) ↔
      d.lineCount < r.start.line ∨ d.lineCount < r.stop.line) ∧
    (∀ e, d.applyChange (some r) replacement.toList = .error e →
      e.position = (if d.lineCount < r.start.line then r.start else r.stop) ∧
      Server.applyChanges d [⟨some r, replacement⟩] = (d, [e])) ∧
    (r.start.line ≤ d.lineCount → r.stop.line ≤ d.lineCount →
      ∃ first last before segment after, d.Resolves r.start first ∧ d.Resolves r.stop last ∧
        (∀ o ∈ [first, last], Boundary (d.text.take o) (d.text.drop o)) ∧
        d.text = before ++ segment ++ after ∧ before.length = min first last ∧
        (before ++ segment).length = max first last ∧
        d.applyChange (some r) replacement.toList =
          .ok ⟨d.uri, before ++ replacement.toList ++ after⟩) := by
  refine ⟨exists_applyChange_error_iff d r replacement.toList, fun e he => ?_,
    fun hstart hstop => applyChange_of_le hstart hstop replacement.toList⟩
  have hreason := applyChange_eq_error d r replacement.toList
    ((exists_applyChange_error_iff d r replacement.toList).mp ⟨e, he⟩)
  constructor
  · rw [he] at hreason
    rw [Except.error.inj hreason]
  · rw [Server.applyChanges]
    dsimp only
    rw [he]
    rfl

/-- Two lines, the first ended by two characters, the second with a pair. -/
def spliced : Document := ⟨"file:///a.vy", ['a', 'b', '\r', '\n', 'c', '😀', 'd']⟩

/-- From behind the last line back to a column past the end of the first, and to a line too far. -/
theorem applyChange_splices_backwards :
    spliced.Resolves ⟨2, 9⟩ 7 ∧ spliced.Resolves ⟨0, 7⟩ 2 ∧
      spliced.applyChange (some ⟨⟨2, 9⟩, ⟨0, 7⟩⟩) "!".toList =
        .ok ⟨"file:///a.vy", ['a', 'b', '!']⟩ ∧
      Server.applyChanges spliced [⟨some ⟨⟨0, 0⟩, ⟨3, 1⟩⟩, "!"⟩] = (spliced, [⟨⟨3, 1⟩⟩]) := by
  obtain ⟨-, -, hsplices⟩ := applyChange_splices spliced ⟨⟨2, 9⟩, ⟨0, 7⟩⟩ "!"
  obtain ⟨hfails, hunchanged, -⟩ := applyChange_splices spliced ⟨⟨0, 0⟩, ⟨3, 1⟩⟩ "!"
  obtain ⟨first, last, before, segment, after, hfirst, hlast, -, htext, hbefore, hsegment, hok⟩ :=
    hsplices (by decide) (by decide)
  obtain rfl : first = 7 := Except.ok.inj (offset_of_resolves hfirst).symm
  obtain rfl : last = 2 := Except.ok.inj (offset_of_resolves hlast).symm
  have htake : spliced.text.take 2 = before := by
    rw [htext, List.append_assoc]
    exact List.take_left' hbefore
  have hdrop : spliced.text.drop 7 = after := by
    rw [htext]
    exact List.drop_left' hsegment
  rw [← htake, ← hdrop] at hok
  obtain ⟨e, he⟩ := hfails.mpr (by decide)
  obtain ⟨hnamed, hsame⟩ := hunchanged e he
  have herror : e = ⟨⟨3, 1⟩⟩ := congrArg InvalidPosition.mk hnamed
  rw [herror] at hsame
  exact ⟨hfirst, hlast, hok, hsame⟩

end Document

end Vyper
