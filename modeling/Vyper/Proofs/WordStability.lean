import Vyper.Editor.Hover
import Vyper.Proofs.CursorWords

/-!
# Answers on one word

What an editor asks about is told by the word under its cursor, and it makes no difference where on
the word the cursor stands: before its first character, behind its last, or between the two halves
of one of them. Every scan that starts at the cursor runs through the rest of the word on its way,
so what it finds is a function of the text on both sides of the word alone
(`LineCursor.around_word`, `LineCursor.expressionAt_word`, `LineCursor.isSelfMember_eq`).
-/

namespace Vyper

namespace LineCursor

/-- Two places in a line on one word, that is from the start to the end of a stretch of characters
that belong to words. -/
def SameWord (line : List Char) (i j : Nat) : Prop :=
  ∃ left word right, line = left ++ word ++ right ∧ (∀ c ∈ word, isWordChar c = true) ∧
    (left.length ≤ i ∧ i ≤ left.length + word.length) ∧
    left.length ≤ j ∧ j ≤ left.length + word.length

section Word

variable {left word right : List Char} {k : Nat}

/-- The stretch around a place on a word goes on to both sides of the word. -/
theorem around_word {p : Char → Bool} (hp : ∀ c ∈ word, p c = true) (hk : k ≤ word.length) :
    around p (left ++ word ++ right) (left.length + k) =
      (left.reverse.takeWhile p).reverse ++ word ++ right.takeWhile p := by
  have hfront : (left ++ word.take k).reverse.takeWhile p =
      (word.take k).reverse ++ left.reverse.takeWhile p := by
    rw [List.reverse_append, List.takeWhile_append_of_pos (forall_mem_take_reverse hp k)]
  have hback : (word.drop k ++ right).takeWhile p = word.drop k ++ right.takeWhile p :=
    List.takeWhile_append_of_pos fun c hc => hp c (List.mem_of_mem_drop hc)
  rw [around, take_word left right hk, drop_word left right hk, hfront, hback, List.reverse_append,
    List.reverse_reverse, List.append_assoc, ← List.append_assoc (word.take k),
    List.take_append_drop, List.append_assoc]

theorem isExpressionChar_of_isWordChar {c : Char} (h : isWordChar c = true) :
    isExpressionChar c = true := by
  rw [isExpressionChar, h]
  rfl

theorem ne_of_isWordChar {c : Char} (h : isWordChar c = true) : c ≠ '(' ∧ c ≠ ')' := by
  constructor <;> rintro rfl <;> revert h <;> decide

/-- Parentheses are counted past a word as if it were not there. -/
theorem beforeOpen_append {depth : Nat} {text : List Char} (h : ∀ c ∈ text, isWordChar c = true)
    (more : List Char) : beforeOpen depth (text ++ more) = beforeOpen depth more := by
  induction text with
  | nil => rfl
  | cons c cs ih =>
    obtain ⟨hc, hcs⟩ := List.forall_mem_cons.mp h
    obtain ⟨hopen, hclose⟩ := ne_of_isWordChar hc
    rw [List.cons_append, beforeOpen.eq_def]
    dsimp only
    rw [if_neg hclose, if_neg hopen, ih hcs]

theorem unmatchedOpen_word (hword : ∀ c ∈ word, isWordChar c = true) (hk : k ≤ word.length) :
    unmatchedOpen (left ++ word ++ right) (left.length + k) =
      (beforeOpen 0 left.reverse).map List.length := by
  rw [unmatchedOpen, take_word left right hk, List.reverse_append,
    beforeOpen_append (forall_mem_take_reverse hword k)]

/-- The expression at a place on a word is the call the word stands in, or the stretch around it. -/
theorem expressionAt_word (hword : ∀ c ∈ word, isWordChar c = true) (hk : k ≤ word.length) :
    expressionAt (left ++ word ++ right) (left.length + k) =
      expressionAt (left ++ word ++ right) left.length := by
  have hexpr : ∀ c ∈ word, isExpressionChar c = true := fun c hc =>
    isExpressionChar_of_isWordChar (hword c hc)
  have hstart : unmatchedOpen (left ++ word ++ right) (left.length + 0) = _ :=
    unmatchedOpen_word hword (Nat.zero_le _)
  have haround : around isExpressionChar (left ++ word ++ right) (left.length + 0) = _ :=
    around_word hexpr (Nat.zero_le _)
  rw [Nat.add_zero] at hstart haround
  rw [expressionAt, expressionAt, unmatchedOpen_word hword hk, around_word hexpr hk,
    hstart, haround]

theorem isSelfMember_eq (hword : ∀ c ∈ word, isWordChar c = true) (hne : word ≠ [])
    (hk : k ≤ word.length) :
    isSelfMember (left ++ word ++ right) (left.length + k) =
      ("self.".toList.reverse.isPrefixOf (left.reverse.dropWhile isWordChar) &&
        !((left.reverse.dropWhile isWordChar).drop 5).head?.any isWordChar) := by
  have hbefore : (left ++ word.take k).reverse.dropWhile isWordChar =
      left.reverse.dropWhile isWordChar := by
    rw [List.reverse_append, List.dropWhile_append_of_pos (forall_mem_take_reverse hword k)]
  simp only [isSelfMember]
  rw [take_word left right hk, drop_word left right hk, touches_word hword hne, hbefore,
    Bool.true_and]

end Word

/-- Places on one word show one word in one expression, named after `self.` or not. -/
theorem SameWord.eq {line : List Char} {i j : Nat} (h : SameWord line i j) :
    wordAt line i = wordAt line j ∧ expressionAt line i = expressionAt line j ∧
      isSelfMember line i = isSelfMember line j := by
  obtain ⟨left, word, right, rfl, hword, ⟨hi, hi'⟩, hj, hj'⟩ := h
  obtain ⟨k, rfl⟩ := Nat.exists_eq_add_of_le hi
  obtain ⟨l, rfl⟩ := Nat.exists_eq_add_of_le hj
  have hk : k ≤ word.length := by omega
  have hl : l ≤ word.length := by omega
  refine ⟨?_, ?_, ?_⟩
  · rw [wordAt, wordAt, around_word hword hk, around_word hword hl]
  · rw [expressionAt_word hword hk, expressionAt_word hword hl]
  · by_cases hne : word = []
    · -- A word without characters has one place.
      subst hne
      rw [Nat.le_zero.mp hk, Nat.le_zero.mp hl]
    · rw [isSelfMember_eq hword hne hk, isSelfMember_eq hword hne hl]

end LineCursor

/-- Two positions of a document on one word of a line. Columns past the end of the line mean its
end, and those inside a character its start. -/
def Document.SameWord (d : Document) (p q : Position) : Prop :=
  p.line = q.line ∧ ∃ line i j, d.cursor? p = some (line, i) ∧ d.cursor? q = some (line, j) ∧
    LineCursor.SameWord line i j

theorem CursorContext.at?_eq {d : Document} {p q : Position} (h : d.SameWord p q) :
    at? d p = at? d q := by
  obtain ⟨-, line, i, j, hp, hq, hsame⟩ := h
  obtain ⟨hword, hexpression, hself⟩ := hsame.eq
  rw [at?, at?, hp, hq]
  simp only [Option.map_some, hword, hexpression, hself]

namespace Analysis

/-- Everything that can be asked about a word has the same answer at every place on it. -/
theorem answers_eq_of_sameWord (a : Analysis) {d : Document} {p q : Position} (h : d.SameWord p q) :
    a.declaration? d p = a.declaration? d q ∧ a.references d p = a.references d q ∧
      a.implementation? d p = a.implementation? d q ∧ a.hover? d p = a.hover? d q := by
  have hcontext := CursorContext.at?_eq h
  have hline := h.1
  refine ⟨?_, ?_, ?_, ?_⟩
  · rw [declaration?, declaration?, hcontext, hline]
  · rw [references, references, hcontext, hline]
  · rw [implementation?, implementation?, hcontext]
  · rw [hover?, hover?, hcontext]

/-- A word at the end of a line that starts with a character of two units: inside that character,
and past the end of the line. -/
theorem answers_eq_of_sameWord_halfway :
    let line := ['x', ':', ' ', 'b', 'o', 'o', 'l', ' ', '#', '𝐱', 'y']
    let d : Document := ⟨"file:///a.vy", line⟩
    let built := (({} : Analysis).build (.builtIn .empty) d none).1
    d.SameWord ⟨0, 10⟩ ⟨0, 99⟩ ∧ Utf16.charIndex line 10 = 9 ∧ Utf16.charIndex line 99 = 11 ∧
      built.declaration? d ⟨0, 10⟩ = built.declaration? d ⟨0, 99⟩ ∧
      built.references d ⟨0, 10⟩ = built.references d ⟨0, 99⟩ ∧
      built.implementation? d ⟨0, 10⟩ = built.implementation? d ⟨0, 99⟩ ∧
      built.hover? d ⟨0, 10⟩ = built.hover? d ⟨0, 99⟩ := by
  intro line d built
  have hsame : d.SameWord ⟨0, 10⟩ ⟨0, 99⟩ := by
    have hx : LineCursor.isWordChar '𝐱' = true := by decide +kernel
    have hy : LineCursor.isWordChar 'y' = true := by decide +kernel
    refine ⟨rfl, line, 9, 11, rfl, rfl, line.take 9, ['𝐱', 'y'], [], rfl, ?_, ?_, ?_⟩
    · simp [hx, hy]
    · decide
    · decide
  exact ⟨hsame, by decide, by decide, answers_eq_of_sameWord built hsame⟩

end Analysis

end Vyper
