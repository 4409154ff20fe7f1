import Vyper.Proofs.LineModels

/-!
# Columns in UTF-16 units and in characters

A column in UTF-16 units falls on a character: the one that starts at it or before it and ends
behind it (`Utf16.FallsOn`). The cursor finds that character, and measuring it again gives the
column at which it starts. So the two ways of counting columns lead back to each other on every line
of a document, except for columns inside a pair and past the end (`Document.columns_inverse`).
-/

namespace Vyper

namespace Utf16

variable {line before after : List Char} {column index : Nat}

theorem ofCharIndex_le (text : List Char) (index : Nat) :
    ofCharIndex text index ≤ length text := by
  conv_rhs => rw [← List.take_append_drop index text]
  rw [ofCharIndex, length_append]
  omega

theorem ofCharIndex_mono (text : List Char) {i j : Nat} (h : i ≤ j) :
    ofCharIndex text i ≤ ofCharIndex text j := by
  have hle := ofCharIndex_le (text.take j) i
  rwa [ofCharIndex, List.take_take, Nat.min_eq_left h] at hle

theorem units_le_two (c : Char) : units c ≤ 2 := by
  unfold units
  split <;> decide

/-- A character ends as many units behind its start as it has. -/
theorem ofCharIndex_append_cons (before : List Char) (c : Char) (after : List Char) :
    ofCharIndex (before ++ c :: after) before.length = length before ∧
      ofCharIndex (before ++ c :: after) (before.length + 1) = length before + units c := by
  constructor
  · rw [ofCharIndex, List.take_left]
  · rw [ofCharIndex, List.take_length_add_append, length_append]
    rfl

/-- The character that a column falls on: it starts at or before the column and ends behind it. A
column past the end falls on the end. -/
structure FallsOn (line : List Char) (column index : Nat) : Prop where
  inside : index ≤ line.length
  reached : ofCharIndex line index ≤ column
  next : index < line.length → column < ofCharIndex line (index + 1)

theorem fallsOn_charIndex (line : List Char) (column : Nat) :
    FallsOn line column (charIndex line column) := by
  induction line generalizing column with
  | nil => exact ⟨Nat.le_refl 0, Nat.zero_le column, fun h => absurd h (Nat.lt_irrefl 0)⟩
  | cons c cs ih =>
    rw [charIndex]
    split
    · next hlt => exact ⟨Nat.zero_le _, Nat.zero_le column, fun _ => hlt⟩
    · next hge =>
      obtain ⟨hinside, hreached, hnext⟩ := ih (column - units c)
      have hcons : ∀ i, ofCharIndex (c :: cs) (1 + i) = units c + ofCharIndex cs i := by
        intro i
        rw [Nat.add_comm, ofCharIndex, List.take_succ_cons, length, ofCharIndex]
      refine ⟨?_, ?_, fun hlt => ?_⟩
      · rw [List.length_cons]
        omega
      · rw [hcons]
        omega
      · rw [List.length_cons] at hlt
        have hcolumn := hnext (by omega)
        rw [Nat.add_assoc, hcons]
        omega

/-- A column falls on one character. -/
theorem FallsOn.unique {index' : Nat} (h : FallsOn line column index)
    (h' : FallsOn line column index') : index = index' := by
  have hnotLater : ∀ {i j : Nat}, FallsOn line column i → FallsOn line column j → i ≤ j := by
    intro i j hi hj
    by_contra hlt
    have hinside := hi.inside
    have hnext := hj.next (by omega)
    have hle := ofCharIndex_mono line (show j + 1 ≤ i by omega)
    have hreached := hi.reached
    omega
  exact Nat.le_antisymm (hnotLater h h') (hnotLater h' h)

/-- A column between the two units of a character. -/
def SplitsPair (line : List Char) (column : Nat) : Prop :=
  ∃ before c after, line = before ++ c :: after ∧ units c = 2 ∧ column = length before + 1

theorem not_splitsPair_ofCharIndex (line : List Char) (index : Nat) :
    ¬ SplitsPair line (ofCharIndex line index) := by
  rintro ⟨before, c, after, rfl, hpair, hcolumn⟩
  obtain ⟨hstart, hstop⟩ := ofCharIndex_append_cons before c after
  rcases Nat.lt_or_ge before.length index with hlt | hge
  · have hle := ofCharIndex_mono (before ++ c :: after) (show before.length + 1 ≤ index from hlt)
    omega
  · have hle := ofCharIndex_mono (before ++ c :: after) hge
    omega

/-- The character a column falls on starts at the column, unless the column is past the end or
between the two units of the character. -/
theorem FallsOn.ofCharIndex_eq_iff (h : FallsOn line column index) :
    ofCharIndex line index = column ↔ column ≤ length line ∧ ¬ SplitsPair line column := by
  constructor
  · rintro rfl
    exact ⟨ofCharIndex_le line index, not_splitsPair_ofCharIndex line index⟩
  · rintro ⟨hle, hpair⟩
    have hreached := h.reached
    rcases Nat.lt_or_eq_of_le h.inside with hlt | rfl
    · have hnext := h.next hlt
      have hrest : line.drop index ≠ [] := by simpa using hlt
      obtain ⟨c, after, hafter⟩ := List.exists_cons_of_ne_nil hrest
      have hline : line = line.take index ++ c :: after := by
        rw [← hafter, List.take_append_drop]
      obtain ⟨-, hstop⟩ := ofCharIndex_append_cons (line.take index) c after
      rw [← hline, List.length_take_of_le h.inside, ← ofCharIndex] at hstop
      have hunits := units_le_two c
      by_contra hne
      exact hpair ⟨_, _, _, hline, by omega, by rw [← ofCharIndex]; omega⟩
    · rw [ofCharIndex, List.take_length] at hreached ⊢
      omega

theorem charIndex_ofCharIndex (h : index ≤ line.length) :
    charIndex line (ofCharIndex line index) = index := by
  have hindex := charIndex_append (line.take index) (line.drop index)
  rwa [List.take_append_drop, List.length_take_of_le h] at hindex

end Utf16

namespace Document

variable {d : Document} {line : List Char} {p : Position} {n : Nat}

theorem exists_line (h : n < d.lineCount) : ∃ line, d.line? n = some line :=
  ⟨_, by rw [line?, Lines.line?, List.getElem?_eq_getElem h, Option.map_some]⟩

theorem lt_lineCount_of_line (h : d.line? n = some line) : n < d.lineCount := by
  obtain ⟨whole, hwhole, -⟩ := Option.map_eq_some_iff.mp h
  exact (List.getElem?_eq_some_iff.mp hwhole).1

theorem cursor?_of_line (h : d.line? p.line = some line) :
    d.cursor? p = some (line, Utf16.charIndex line p.character) := by
  rw [cursor?, h, Option.map_some]

theorem cursor?_utf16Position (h : d.line? n = some line) {k : Nat} (hk : k ≤ line.length) :
    d.cursor? (d.utf16Position ⟨n, k⟩) = some (line, k) := by
  have hposition : d.utf16Position ⟨n, k⟩ = ⟨n, Utf16.ofCharIndex line k⟩ := utf16Position_of_line h
  rw [hposition, cursor?_of_line h, Utf16.charIndex_ofCharIndex hk]

/-- Measuring a cursor again gives its column back, unless that is past the end of the line or
inside a pair. -/
theorem exists_utf16Position_cursor (h : d.line? p.line = some line) :
    ∃ column, d.utf16Position ⟨p.line, Utf16.charIndex line p.character⟩ = ⟨p.line, column⟩ ∧
      column ≤ p.character ∧ (column = p.character ↔
        p.character ≤ Utf16.length line ∧ ¬ Utf16.SplitsPair line p.character) := by
  have hfalls := Utf16.fallsOn_charIndex line p.character
  exact ⟨_, utf16Position_of_line h, hfalls.reached, hfalls.ofCharIndex_eq_iff⟩

/-- On a line of a document, the cursor at the column measured for a character is at that character,
whichever end of a range it was measured as. The character at a position is measured there or
before: there exactly if the position is not past the end of the line and not inside a pair. -/
theorem columns_inverse (d : Document) :
    (∀ n < d.lineCount, ∃ line, d.line? n = some line ∧ ∀ k ≤ line.length, ∀ p,
      d.cursor? (d.utf16Range ⟨⟨n, k⟩, p⟩).start = some (line, k) ∧
      d.cursor? (d.utf16Range ⟨p, ⟨n, k⟩⟩).stop = some (line, k)) ∧
    ∀ p, p.line < d.lineCount →
      ∃ line k, d.line? p.line = some line ∧ d.cursor? p = some (line, k) ∧
      ∀ q, ∃ column, (d.utf16Range ⟨⟨p.line, k⟩, q⟩).start = ⟨p.line, column⟩ ∧
        (d.utf16Range ⟨q, ⟨p.line, k⟩⟩).stop = ⟨p.line, column⟩ ∧
        column ≤ p.character ∧ (column = p.character ↔
          p.character ≤ Utf16.length line ∧ ¬ Utf16.SplitsPair line p.character) := by
  constructor
  · intro n hn
    obtain ⟨line, hline⟩ := exists_line hn
    refine ⟨line, hline, fun k hk p => ?_⟩
    exact ⟨cursor?_utf16Position hline hk, cursor?_utf16Position hline hk⟩
  · intro p hp
    obtain ⟨line, hline⟩ := exists_line hp
    obtain ⟨column, hposition, hcolumn⟩ := exists_utf16Position_cursor hline
    exact ⟨line, _, hline, cursor?_of_line hline, fun q => ⟨column, hposition, hposition, hcolumn⟩⟩

/-- A character of two units between two of one, and a second line. -/
def paired : Document := ⟨"file:///a.vy", ['#', '😀', 'a', '\r', '\n', 'x']⟩

/-- The column behind the pair is that of the third character, and the one inside it is not kept. -/
theorem columns_inverse_paired :
    paired.cursor? (paired.utf16Range ⟨⟨0, 2⟩, ⟨0, 2⟩⟩).start = some (['#', '😀', 'a'], 2) ∧
      Utf16.SplitsPair ['#', '😀', 'a'] 2 ∧ ∃ column < 2,
        (paired.utf16Range ⟨⟨0, 1⟩, ⟨0, 1⟩⟩).start = ⟨0, column⟩ := by
  obtain ⟨hforth, hback⟩ := columns_inverse paired
  have hsplits : Utf16.SplitsPair ['#', '😀', 'a'] 2 :=
    ⟨['#'], '😀', ['a'], rfl, by decide, by decide⟩
  obtain ⟨line, hline, hcolumns⟩ := hforth 0 (by decide)
  obtain rfl : ['#', '😀', 'a'] = line := Option.some.inj hline
  obtain ⟨line, k, hline, hcursor, hmeasured⟩ := hback ⟨0, 2⟩ (by decide)
  obtain rfl : ['#', '😀', 'a'] = line := Option.some.inj hline
  obtain rfl : 1 = k := congrArg Prod.snd (Option.some.inj hcursor)
  obtain ⟨column, hstart, -, hle, hiff⟩ := hmeasured ⟨0, 1⟩
  have hne : column ≠ 2 := fun heq => (hiff.mp heq).2 hsplits
  exact ⟨(hcolumns 2 (by decide) ⟨0, 2⟩).1, hsplits, column, Nat.lt_of_le_of_ne hle hne, hstart⟩

end Document

end Vyper
