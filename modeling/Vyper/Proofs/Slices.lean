import Vyper.Text.Rows
import Mathlib.Algebra.GroupWithZero.Nat

/-!
# Slices between places

The place reached after a part of a text leads back to the number of characters in that part
(`Rows.offset?_advance`), and the slice between two such places is what stands between them
(`Rows.slice_advance`). A row leaves out the carriage returns at its end, so this fails for a place
among them: `Rows.Exact` are the others.
-/

namespace Vyper

theorem Pos.advance_append (p : Pos) (a b : List Char) :
    p.advance (a ++ b) = (p.advance a).advance b :=
  List.foldl_append

namespace Rows

theorem ofText_ne_nil (text : List Char) : ofText text ≠ [] := by
  fun_cases ofText text <;> simp_all

theorem ofText_cons_of_ne {c : Char} {cs row : List Char} {rows : List (List Char)} (hc : c ≠ '\n')
    (h : ofText cs = row :: rows) : ofText (c :: cs) = (c :: row) :: rows := by
  rw [ofText, if_neg hc, h]

/-- The rows a text has ended, and what it has put into the next one. -/
structure Ends (text : List Char) (above : List (List Char)) (last : List Char) : Prop where
  ofText_append : ∀ {more row : List Char} {rows : List (List Char)}, ofText more = row :: rows →
    ofText (text ++ more) = above ++ (last ++ row) :: rows
  length : text.length = (above.map (·.length + 1)).sum + last.length
  suffix : last <:+ text
  advance : ∀ p : Pos,
    p.advance text = if above = [] then ⟨p.line, p.col + last.length⟩
      else ⟨p.line + above.length, last.length⟩

theorem ends_nil : Ends [] [] [] where
  ofText_append h := h
  length := rfl
  suffix := List.suffix_refl []
  advance p := by simp [Pos.advance]

section Cons

variable {c : Char} {cs last : List Char} {above : List (List Char)}

theorem Ends.cons_lineFeed (h : Ends cs above last) : Ends ('\n' :: cs) ([] :: above) last where
  ofText_append := by
    intro more row rows hmore
    rw [List.cons_append, ofText, if_pos rfl, h.ofText_append hmore]
    rfl
  length := by
    simp only [List.length_cons, List.map_cons, List.length_nil, List.sum_cons, h.length]
    omega
  suffix := h.suffix.trans (List.suffix_cons _ cs)
  advance := by
    intro p
    change (p.step '\n').advance cs = _
    rw [h.advance, Pos.step, if_pos rfl, if_neg (List.cons_ne_nil _ _)]
    split
    · next habove => simp [habove]
    · simp only [List.length_cons, Pos.mk.injEq, and_true]
      omega

/-- The text goes on in its first row. -/
theorem Ends.cons_nil (h : Ends cs [] last) (hc : c ≠ '\n') : Ends (c :: cs) [] (c :: last) where
  ofText_append := fun hmore => ofText_cons_of_ne hc (h.ofText_append hmore)
  length := by simp [h.length]
  suffix := by
    have hlength : last.length = cs.length := by simp [h.length]
    obtain rfl := h.suffix.eq_of_length hlength
    exact List.suffix_refl _
  advance := by
    intro p
    change (p.step c).advance cs = _
    rw [h.advance, Pos.step, if_neg hc, if_pos rfl, if_pos rfl, List.length_cons]
    simp only [Pos.mk.injEq, true_and]
    omega

theorem Ends.cons_cons {row : List Char} (h : Ends cs (row :: above) last) (hc : c ≠ '\n') :
    Ends (c :: cs) ((c :: row) :: above) last where
  ofText_append := fun hmore => ofText_cons_of_ne hc (h.ofText_append hmore)
  length := by
    simp only [List.length_cons, List.map_cons, List.sum_cons, h.length]
    omega
  suffix := h.suffix.trans (List.suffix_cons c cs)
  advance := by
    intro p
    change (p.step c).advance cs = _
    rw [h.advance, Pos.step, if_neg hc, if_neg (List.cons_ne_nil _ _),
      if_neg (List.cons_ne_nil _ _)]
    rfl

end Cons

theorem exists_ends (text : List Char) : ∃ above last, Ends text above last := by
  induction text with
  | nil => exact ⟨[], [], ends_nil⟩
  | cons c cs ih =>
    obtain ⟨above, last, h⟩ := ih
    by_cases hc : c = '\n'
    · cases hc
      exact ⟨_, _, h.cons_lineFeed⟩
    · cases above with
      | nil => exact ⟨_, _, h.cons_nil hc⟩
      | cons row above => exact ⟨_, _, h.cons_cons hc⟩

theorem Ends.advance_origin {text last : List Char} {above : List (List Char)}
    (h : Ends text above last) : Pos.origin.advance text = ⟨above.length + 1, last.length⟩ := by
  rw [h.advance, Pos.origin]
  split
  · next habove => simp [habove]
  · simp only [Pos.mk.injEq, and_true]
    omega

/-- Whatever follows a character that is no carriage return, a row is not cut before it. -/
theorem length_le_stripReturns {a : List Char} (h : ∀ c ∈ a.getLast?, c ≠ '\r') (b : List Char) :
    a.length ≤ (stripReturns (a ++ b)).length := by
  have hkeep : a.reverse.dropWhile (· == '\r') = a.reverse := by
    cases hrev : a.reverse with
    | nil => rfl
    | cons c cs =>
      have hlast : c ∈ a.getLast? := by
        rw [List.getLast?_eq_head?_reverse, hrev]
        rfl
      exact List.dropWhile_cons_of_neg (by simpa using h c hlast)
  rw [stripReturns, List.reverse_append, List.dropWhile_append, List.length_reverse]
  split
  · exact Nat.le_of_eq (by rw [hkeep, List.length_reverse])
  · simp

/-- A place that is not among the carriage returns at the end of its row. -/
def Exact (before after : List Char) : Prop :=
  (∀ c ∈ before.getLast?, c ≠ '\r') ∨ ∃ c cs, after = c :: cs ∧ c ≠ '\n' ∧ c ≠ '\r'

/-- The place after the first part of a text stands for the length of that part. -/
theorem offset?_advance {before after : List Char} (h : Exact before after) :
    offset? (before ++ after) ((Pos.origin.advance before).line - 1)
      (Pos.origin.advance before).col = some before.length := by
  obtain ⟨above, last, hends⟩ := exists_ends before
  obtain ⟨row, rows, hrows⟩ := List.exists_cons_of_ne_nil (ofText_ne_nil after)
  have htext := hends.ofText_append hrows
  have hwidth : last.length ≤ (stripReturns (last ++ row)).length := by
    rcases h with hlast | ⟨c, cs, rfl, hfeed, hreturn⟩
    · refine length_le_stripReturns (fun c hc => ?_) row
      obtain ⟨pre, rfl⟩ := hends.suffix
      refine hlast c ?_
      rw [List.getLast?_append, Option.mem_def.mp hc]
      rfl
    · obtain ⟨row', rows', hcs⟩ := List.exists_cons_of_ne_nil (ofText_ne_nil cs)
      rw [ofText_cons_of_ne hfeed hcs] at hrows
      cases hrows
      have hle : (last ++ [c]).length ≤ _ :=
        length_le_stripReturns (by simpa using hreturn) row'
      rw [List.append_assoc, List.length_append] at hle
      exact Nat.le_trans (Nat.le_add_right _ _) hle
  have hstart : start (before ++ after) above.length = (above.map (·.length + 1)).sum := by
    rw [start, htext, List.take_left, List.sum_eq_foldl]
  rw [hends.advance_origin, offset?, row?, htext]
  simp only [Nat.add_sub_cancel, List.getElem?_append_right (Nat.le_refl _), Nat.sub_self,
    List.getElem?_cons_zero, Option.map_some, hstart, hends.length]
  have hmin : last.length.min (stripReturns (last ++ row)).length = last.length :=
    Nat.min_eq_left hwidth
  rw [hmin]

/-- The slice between the places before and after a part of a text is that part. -/
theorem slice_advance {a b c : List Char} (hstart : Exact a (b ++ c)) (hstop : Exact (a ++ b) c) :
    slice (a ++ b ++ c) ⟨Pos.origin.advance a, Pos.origin.advance (a ++ b)⟩ = b := by
  have hfirst := offset?_advance hstart
  have hlast := offset?_advance hstop
  rw [← List.append_assoc] at hfirst
  have hle : a.length ≤ (a ++ b).length := by simp
  simp only [slice, hfirst, hlast, if_pos hle]
  simp

end Rows

end Vyper
