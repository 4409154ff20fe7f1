import Vyper.Editor.LineCursor
import Vyper.Proofs.Lexing
import Vyper.Proofs.TextSync

/-!
# Words under a cursor

A cursor anywhere on a word of a document, its ends included, is on the line the word stands in
(`Document.cursor?_word`). What the line says there is the word itself, and whether it is named
right after `self.` (`LineCursor.wordAt_word`, `LineCursor.isSelfMember_word`).
-/

namespace Vyper

namespace LineCursor

variable {left word right : List Char} {k : Nat}

/-- A line cut inside a word. -/
theorem take_word (left right : List Char) (hk : k ≤ word.length) :
    (left ++ word ++ right).take (left.length + k) = left ++ word.take k := by
  rw [List.append_assoc, List.take_length_add_append, List.take_append_of_le_length hk]

theorem drop_word (left right : List Char) (hk : k ≤ word.length) :
    (left ++ word ++ right).drop (left.length + k) = word.drop k ++ right := by
  rw [List.append_assoc, List.drop_length_add_append, List.drop_append_of_le_length hk]

theorem forall_mem_take_reverse {p : Char → Bool} (hword : ∀ c ∈ word, p c = true) (k : Nat) :
    ∀ c ∈ (word.take k).reverse, p c = true :=
  fun c hc => hword c (List.mem_of_mem_take (List.mem_reverse.mp hc))

/-- Every place on a word that is no part of a longer one shows the word. -/
theorem wordAt_word (hword : ∀ c ∈ word, isWordChar c = true)
    (hleft : ∀ c ∈ left.getLast?, isWordChar c = false)
    (hright : ∀ c ∈ right.head?, isWordChar c = false) (hk : k ≤ word.length) :
    wordAt (left ++ word ++ right) (left.length + k) = word := by
  have hfront : ((left ++ word.take k).reverse.takeWhile isWordChar).reverse = word.take k := by
    rw [List.reverse_append, Lexeme.takeWhile_append_of_stop (forall_mem_take_reverse hword k),
      List.reverse_reverse]
    rwa [List.head?_reverse]
  have hback : (word.drop k ++ right).takeWhile isWordChar = word.drop k :=
    Lexeme.takeWhile_append_of_stop (fun c hc => hword c (List.mem_of_mem_drop hc)) hright
  rw [wordAt, around, take_word left right hk, drop_word left right hk, hfront, hback,
    List.take_append_drop]

/-- A place on a word touches one of its characters. -/
theorem touches_word (hword : ∀ c ∈ word, isWordChar c = true) (hne : word ≠ []) (k : Nat)
    (left right : List Char) :
    ((left ++ word.take k).reverse.head?.any isWordChar ||
      (word.drop k ++ right).head?.any isWordChar) = true := by
  rw [Bool.or_eq_true]
  cases hdrop : word.drop k with
  | cons c cs =>
    have hc : c ∈ word := List.mem_of_mem_drop (hdrop ▸ List.mem_cons_self)
    exact .inr (hword c hc)
  | nil =>
    have htake : word.take k = word := List.take_of_length_le (List.drop_eq_nil_iff.mp hdrop)
    left
    rw [htake, List.head?_reverse, List.getLast?_append, List.getLast?_eq_some_getLast hne]
    exact hword _ (List.getLast_mem hne)

theorem isSelfMember_word (hword : ∀ c ∈ word, isWordChar c = true) (hne : word ≠ [])
    (hleft : ∀ c ∈ left.getLast?, isWordChar c = false) (hk : k ≤ word.length) :
    isSelfMember (left ++ "self.".toList ++ word ++ right)
      ((left ++ "self.".toList).length + k) = true := by
  have hbefore : (left ++ "self.".toList ++ word.take k).reverse.dropWhile isWordChar =
      "self.".toList.reverse ++ left.reverse := by
    rw [List.reverse_append, Lexeme.dropWhile_append_of_stop (forall_mem_take_reverse hword k),
      List.reverse_append]
    rw [List.head?_reverse, List.getLast?_append]
    rintro _ ⟨⟩
    decide
  have hapart : (left.reverse.head?.any isWordChar) = false := by
    rw [List.head?_reverse]
    cases hlast : left.getLast? with
    | none => rfl
    | some c => exact hleft c hlast
  have hfive : "self.".toList.reverse.length = 5 := by decide
  have hdrop : ("self.".toList.reverse ++ left.reverse).drop 5 = left.reverse := by
    rw [← hfive, List.drop_left]
  have hprefix :
      "self.".toList.reverse.isPrefixOf ("self.".toList.reverse ++ left.reverse) = true :=
    List.isPrefixOf_iff_prefix.mpr (List.prefix_append _ _)
  simp only [isSelfMember]
  rw [take_word _ right hk, drop_word _ right hk, hbefore, touches_word hword hne, hprefix, hdrop,
    hapart]
  rfl

end LineCursor

namespace Lines

variable {breaks : Char → Bool} {pre mid text : List Char}

theorem split_of_forall (h : ∀ c ∈ text, breaks c = false) : split breaks text = [text] := by
  induction text with
  | nil => rfl
  | cons c cs ih =>
    obtain ⟨hc, hcs⟩ := List.forall_mem_cons.mp h
    rw [split, endsAfter, hc, ih hcs]
    rfl

/-- Text without a break stays on its line. -/
theorem split_append_of_forall (hb : Boundary pre mid) (h : ∀ c ∈ mid, breaks c = false) :
    split breaks (pre ++ mid) = finished breaks pre ++ [current breaks pre ++ mid] := by
  rw [split_append hb, split_of_forall h]
  rfl

theorem current_append (hb : Boundary pre mid) (h : ∀ c ∈ mid, breaks c = false) :
    current breaks (pre ++ mid) = current breaks pre ++ mid := by
  rw [current, split_append_of_forall hb h]
  simp

/-- The last character of a line that has not ended is the last of the text. -/
theorem mem_getLast?_of_current {c : Char} (h : c ∈ (current breaks text).getLast?) :
    c ∈ text.getLast? := by
  rw [← flatten_finished_append breaks text, List.getLast?_append, Option.mem_def.mp h]
  rfl

theorem isPrefix_content (line : List Char) : content line <+: line := by
  rw [content, ← List.reverse_suffix, List.reverse_reverse]
  exact List.dropWhile_suffix _

/-- What a line says begins as the text does. -/
theorem mem_head?_of_content {c : Char} {line : List Char} {more : List (List Char)}
    (hsplit : split breaks text = line :: more) (h : c ∈ (content line).head?) :
    c ∈ text.head? := by
  have htext : line <+: text := by
    rw [← flatten_split breaks text, hsplit]
    exact List.prefix_append line _
  obtain ⟨rest, hrest⟩ := (isPrefix_content line).trans htext
  rw [← hrest, List.head?_append, Option.mem_def.mp h]
  rfl

theorem boundary_of_last (h : ∀ c ∈ pre.getLast?, isBreak c = false) (post : List Char) :
    Boundary pre post := by
  rintro ⟨hlast, -⟩
  exact absurd (h _ hlast) (by decide)

theorem boundary_of_head {post : List Char} (h : ∀ c ∈ post.head?, isBreak c = false)
    (pre : List Char) : Boundary pre post := by
  rintro ⟨-, hhead⟩
  exact absurd (h _ hhead) (by decide)

theorem isBreak_of_isWordPart {c : Char} (h : Lexeme.isWordPart c = true) : isBreak c = false := by
  cases hbreak : isBreak c with
  | false => rfl
  | true =>
    have hc := List.contains_iff_mem.mp hbreak
    simp only [List.mem_cons, List.not_mem_nil, or_false] at hc
    rcases hc with rfl | rfl | rfl | rfl | rfl | rfl | rfl <;> cases h

end Lines

namespace Document

open Lines

/-- The position of a place in a document, in its own lines. -/
def positionAt (d : Document) (offset : Nat) : Position :=
  ⟨(finished isBreak (d.text.take offset)).length,
    Utf16.length (current isBreak (d.text.take offset))⟩

variable {d : Document} {pre post before word after : List Char}

theorem positionAt_length (htext : d.text = pre ++ post) :
    d.positionAt pre.length =
      ⟨(finished isBreak pre).length, Utf16.length (current isBreak pre)⟩ := by
  rw [positionAt, htext, List.take_left]

theorem offset_positionAt (htext : d.text = pre ++ post) (hb : Boundary pre post) :
    d.offset (d.positionAt pre.length) = .ok pre.length := by
  obtain ⟨rest, more, hpost⟩ := List.exists_cons_of_ne_nil (split_ne_nil isBreak post)
  rw [positionAt_length htext, offset_current htext hb hpost, Utf16.charIndex_append,
    length_finished_append]

theorem cursor?_positionAt (htext : d.text = pre ++ post) (hb : Boundary pre post)
    {rest : List Char} {more : List (List Char)} (hpost : split isBreak post = rest :: more) :
    d.cursor? (d.positionAt pre.length) =
      some (current isBreak pre ++ content rest, (current isBreak pre).length) := by
  obtain ⟨-, hline⟩ := split_current htext hb hpost
  rw [positionAt_length htext, cursor?, line?, Lines.line?, ofText_eq_split, hline]
  simp only [Option.map_some, content_current, Utf16.charIndex_append]

/-- Every place on a word without breaks is on the line of the word. -/
theorem cursor?_word (htext : d.text = before ++ word ++ after) (hne : word ≠ [])
    (hclean : ∀ c ∈ word, isBreak c = false) {line : List Char} {more : List (List Char)}
    (hafter : split isBreak after = line :: more) {k : Nat} (hk : k ≤ word.length) :
    d.offset (d.positionAt (before.length + k)) = .ok (before.length + k) ∧
      d.cursor? (d.positionAt (before.length + k)) =
        some (current isBreak before ++ word ++ content line,
          (current isBreak before).length + k) := by
  have htake : ∀ c ∈ word.take k, isBreak c = false :=
    fun c hc => hclean c (List.mem_of_mem_take hc)
  have hdrop : ∀ c ∈ word.drop k, isBreak c = false :=
    fun c hc => hclean c (List.mem_of_mem_drop hc)
  have hcut : d.text = (before ++ word.take k) ++ (word.drop k ++ after) := by
    rw [htext, List.append_assoc, List.append_assoc, ← List.append_assoc (word.take k),
      List.take_append_drop]
  have hlength : (before ++ word.take k).length = before.length + k := by
    rw [List.length_append, List.length_take_of_le hk]
  have hfront : Boundary before (word.take k) :=
    boundary_of_head (fun c hc => htake c (List.mem_of_mem_head? hc)) before
  have hback : Boundary (word.drop k) after :=
    boundary_of_last (fun c hc => hdrop c (List.mem_of_getLast? hc)) after
  have hb : Boundary (before ++ word.take k) (word.drop k ++ after) := by
    cases hrest : word.drop k with
    | nil =>
      have hall : word.take k = word := List.take_of_length_le (List.drop_eq_nil_iff.mp hrest)
      refine boundary_of_last (fun c hc => ?_) _
      rw [hall, List.getLast?_append, List.getLast?_eq_some_getLast hne] at hc
      cases hc
      exact hclean _ (List.getLast_mem hne)
    | cons e es =>
      refine boundary_of_head (fun c hc => ?_) _
      cases hc
      exact hdrop e (hrest ▸ List.mem_cons_self)
  have hpost : split isBreak (word.drop k ++ after) = (word.drop k ++ line) :: more := by
    rw [split_append hback, hafter, finished, current, split_of_forall hdrop]
    rfl
  have hline : content (word.drop k ++ line) = word.drop k ++ content line :=
    content_append (fun c hc => isEditorBreak_eq_false (hdrop c hc)) line
  rw [← hlength]
  refine ⟨offset_positionAt hcut hb, ?_⟩
  rw [cursor?_positionAt hcut hb hpost, current_append hfront htake, hline, List.append_assoc,
    ← List.append_assoc (word.take k), List.take_append_drop, ← List.append_assoc,
    List.length_append, List.length_take_of_le hk]

end Document

end Vyper
