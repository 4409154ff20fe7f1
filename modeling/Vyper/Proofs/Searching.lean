import Vyper.Text.Search

/-!
# Occurrences found by a search

A search takes no two occurrences that overlap, so one may hide another. Where no end of a text is
also a front of it (`Search.Unbordered`) no two of its occurrences overlap, and a search finds every
one (`Search.mem_occurrences_iff`). Likewise a text is cut right at a separator whose first
character is not before it (`Search.splitOnce_of_not_mem`).
-/

namespace Vyper.Search

variable {needle text front rest : List Char} {index skip n i : Nat}

theorem splitOnce_of_not_mem {mark : Char} (hmark : needle.head? = some mark) (h : mark ∉ front) :
    splitOnce needle (front ++ (needle ++ rest)) = some (front, rest) := by
  obtain ⟨needle, rfl⟩ := List.head?_eq_some_iff.mp hmark
  induction front with
  | nil =>
    have hprefix : (mark :: needle).isPrefixOf (mark :: (needle ++ rest)) = true :=
      List.isPrefixOf_iff_prefix.mpr (List.prefix_append (mark :: needle) rest)
    rw [List.nil_append, List.cons_append, splitOnce, if_pos hprefix, ← List.cons_append,
      List.drop_left]
  | cons c cs ih =>
    obtain ⟨hc, hcs⟩ := not_or.mp (mt List.mem_cons.mpr h)
    rw [List.cons_append, splitOnce, ih hcs, if_neg]
    · rfl
    · simp [List.isPrefixOf, hc]

theorem dropEnd?_append (front ending : List Char) :
    dropEnd? ending (front ++ ending) = some front := by
  have hsuffix : ending.isSuffixOf (front ++ ending) = true :=
    List.isSuffixOf_iff_suffix.mpr (List.suffix_append front ending)
  rw [dropEnd?, if_pos hsuffix, List.length_append, Nat.add_sub_cancel, List.take_left]

/-- No end of the text is also a front of it, apart from the whole text. -/
def Unbordered (needle : List Char) : Prop :=
  ∀ k < needle.length, 0 < k → ¬ needle.drop k <+: needle

instance (needle : List Char) : Decidable (Unbordered needle) :=
  inferInstanceAs (Decidable (∀ k < needle.length, 0 < k → ¬ needle.drop k <+: needle))

/-- A text without borders does not start again inside itself. -/
theorem Unbordered.length_le (h : Unbordered needle) (hhere : needle <+: text)
    (hlater : needle <+: text.drop n) (hn : 0 < n) : needle.length ≤ n := by
  rcases Nat.lt_or_ge n needle.length with hlt | hge
  · obtain ⟨rest, rfl⟩ := hhere
    rw [List.drop_append_of_le_length (Nat.le_of_lt hlt)] at hlater
    have hend : needle.drop n <+: needle.drop n ++ rest := List.prefix_append _ _
    exact absurd (List.prefix_of_prefix_length_le hend hlater (by simp)) (h n hlt hn)
  · exact hge

theorem isPrefix_of_mem_occurrencesFrom (h : i ∈ occurrencesFrom needle index skip text) :
    ∃ n, i = index + n ∧ needle <+: text.drop n := by
  induction text generalizing index skip with
  | nil => cases h
  | cons c cs ih =>
    -- What is found behind the first character is one place further on.
    have hbehind : ∀ {skip : Nat}, i ∈ occurrencesFrom needle (index + 1) skip cs →
        ∃ n, i = index + n ∧ needle <+: (c :: cs).drop n := by
      intro skip hi
      obtain ⟨n, hi, hn⟩ := ih hi
      exact ⟨n + 1, by omega, hn⟩
    cases skip with
    | succ skip => exact hbehind h
    | zero =>
      rw [occurrencesFrom] at h
      split at h
      · next hprefix =>
        rcases List.mem_cons.mp h with rfl | h
        · exact ⟨0, rfl, List.isPrefixOf_iff_prefix.mp hprefix⟩
        · exact hbehind h
      · exact hbehind h

theorem mem_occurrencesFrom (hne : needle ≠ []) (h : Unbordered needle) (hskip : skip ≤ n)
    (hn : needle <+: text.drop n) : index + n ∈ occurrencesFrom needle index skip text := by
  induction text generalizing index skip n with
  | nil =>
    rw [List.drop_nil] at hn
    exact absurd (List.prefix_nil.mp hn) hne
  | cons c cs ih =>
    have hbehind : ∀ {m skip : Nat}, n = m + 1 → skip ≤ m →
        index + n ∈ occurrencesFrom needle (index + 1) skip cs := by
      rintro m skip rfl hm
      have hmem : index + 1 + m ∈ occurrencesFrom needle (index + 1) skip cs := ih hm hn
      rwa [Nat.add_assoc, Nat.add_comm 1 m] at hmem
    cases skip with
    | succ skip =>
      obtain ⟨m, rfl⟩ := Nat.exists_eq_add_one.mpr (Nat.zero_lt_of_lt hskip)
      exact hbehind rfl (Nat.le_of_succ_le_succ hskip)
    | zero =>
      rw [occurrencesFrom]
      split
      · next hprefix =>
        cases n with
        | zero => exact List.mem_cons_self
        | succ m =>
          -- The occurrence found here ends before the next one.
          have hlength := h.length_le (List.isPrefixOf_iff_prefix.mp hprefix) hn (Nat.succ_pos m)
          exact List.mem_cons_of_mem _ (hbehind rfl (by omega))
      · next hprefix =>
        cases n with
        | zero => exact absurd (List.isPrefixOf_iff_prefix.mpr hn) hprefix
        | succ m => exact hbehind rfl (Nat.zero_le m)

/-- A search for a text without borders finds it wherever it is. -/
theorem mem_occurrences_iff (hne : needle ≠ []) (h : Unbordered needle) :
    i ∈ occurrences needle text ↔ needle <+: text.drop i := by
  constructor
  · intro hi
    obtain ⟨n, rfl, hn⟩ := isPrefix_of_mem_occurrencesFrom hi
    rwa [Nat.zero_add]
  · intro hn
    have hmem : 0 + i ∈ occurrencesFrom needle 0 0 text :=
      mem_occurrencesFrom hne h (Nat.zero_le i) hn
    rwa [Nat.zero_add] at hmem

end Vyper.Search
