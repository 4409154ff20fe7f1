import Vyper.Proofs.Parentheses

/-!
# Texts of calls

A call `receiver.method(arguments)` is taken apart from both ends: the argument list is dropped by a
scan from the right, and the dot is found by a scan from the left that keeps one count of open
brackets of both kinds. In a receiver whose brackets nest the count is back at zero at its end,
whatever it holds (`foldl_bracketDepth_of_nests`), and a word has no dot, so the dot that is found
is the one before the method (`parseCall_member`, `parseCall_call`).
-/

namespace Vyper.LineCursor

open CharClass (trim isBlank)

/-- Whether each round and square bracket of a text is closed by its own kind, the last one opened
first; `awaited` are the closing brackets that are due already. -/
def nests : List Char → List Char → Bool
  | awaited, [] => awaited.isEmpty
  | awaited, c :: cs =>
    if c = '(' then nests (')' :: awaited) cs
    else if c = '[' then nests (']' :: awaited) cs
    else if c = ')' ∨ c = ']' then awaited.head? = some c && nests awaited.tail cs
    else nests awaited cs

variable {awaited text front receiver method args rest : List Char} {d : Nat}

theorem foldl_bracketDepth_of_nests (h : nests awaited text = true) :
    text.foldl bracketDepth awaited.length = 0 := by
  fun_induction nests awaited text with
  | case1 => simpa using h
  | case2 awaited cs ih => exact ih h
  | case3 awaited cs _ ih => exact ih h
  | case4 awaited c cs hround hsquare hclose ih =>
    obtain ⟨hhead, hcs⟩ := Bool.and_eq_true_iff.mp h
    obtain ⟨others, rfl⟩ := List.head?_eq_some_iff.mp (of_decide_eq_true hhead)
    simpa [bracketDepth, hround, hsquare, hclose] using ih hcs
  | case5 awaited c cs hround hsquare hclose ih =>
    simpa [bracketDepth, hround, hsquare, hclose] using ih h

theorem nests_dropWhile_isBlank : nests awaited (text.dropWhile isBlank) = nests awaited text := by
  induction text with
  | nil => rfl
  | cons c cs ih =>
    by_cases hc : isBlank c = true
    · have hne : ∀ b, isBlank b = false → c ≠ b := fun b hb hcb => by simp [← hcb, hc] at hb
      rw [List.dropWhile_cons_of_pos hc, ih]
      simp [nests, hne '(' (by decide), hne ')' (by decide), hne '[' (by decide),
        hne ']' (by decide)]
    · rw [List.dropWhile_cons_of_neg hc]

/-! ### Blanks at the ends -/

theorem dropWhile_isBlank_of_head (h : ∀ c ∈ text.head?, isBlank c = false) :
    text.dropWhile isBlank = text :=
  Lexeme.dropWhile_append_of_stop (List.forall_mem_nil _) h

theorem trim_append (hne : rest ≠ []) (hfirst : ∀ c ∈ rest.head?, isBlank c = false)
    (hlast : ∀ c ∈ rest.getLast?, isBlank c = false) :
    trim (text ++ rest) = text.dropWhile isBlank ++ rest := by
  have hfront : (text ++ rest).dropWhile isBlank = text.dropWhile isBlank ++ rest := by
    rw [List.dropWhile_append, dropWhile_isBlank_of_head hfirst]
    split
    · next hempty => rw [List.isEmpty_iff.mp hempty, List.nil_append]
    · rfl
  have hback : (text.dropWhile isBlank ++ rest).reverse.dropWhile isBlank =
      (text.dropWhile isBlank ++ rest).reverse := by
    have hend : (text.dropWhile isBlank ++ rest).reverse.head? = rest.getLast? := by
      rw [List.head?_reverse, List.getLast?_append, List.getLast?_eq_some_getLast hne,
        Option.some_or]
    exact dropWhile_isBlank_of_head (by rwa [hend])
  rw [trim, CharClass.trimEnd, hfront, hback, List.reverse_reverse]

theorem trim_dropWhile_isBlank : trim (text.dropWhile isBlank) = trim text := by
  have hstop : ∀ c ∈ (text.dropWhile isBlank).head?, isBlank c = false := by
    intro c hc
    have hhead := List.head?_dropWhile_not isBlank text
    rwa [Option.mem_def.mp hc] at hhead
  rw [trim, trim, dropWhile_isBlank_of_head hstop]

/-! ### The dot before the method -/

/-- Characters of words are no brackets and no dots. -/
theorem splitLastDot_of_forall (h : ∀ c ∈ text, isWordChar c = true) :
    splitLastDot d text = none := by
  induction text generalizing d with
  | nil => rfl
  | cons c cs ih =>
    obtain ⟨hc, hcs⟩ := List.forall_mem_cons.mp h
    have hdot : c ≠ '.' := by
      rintro rfl
      exact absurd hc (by decide)
    rw [splitLastDot, ih hcs]
    simp [hdot]

theorem splitLastDot_append (h : splitLastDot (front.foldl bracketDepth d) text =
    some (receiver, rest)) : splitLastDot d (front ++ text) = some (front ++ receiver, rest) := by
  induction front generalizing d with
  | nil => exact h
  | cons c front ih => rw [List.cons_append, splitLastDot, ih h, List.cons_append]

theorem mem_isWordChar (hmethod : isWord method = true) : ∀ c ∈ method, isWordChar c = true := by
  simpa using (Bool.and_eq_true_iff.mp hmethod).2

theorem isWord.ne_nil (hmethod : isWord method = true) : method ≠ [] := by
  simpa using (Bool.and_eq_true_iff.mp hmethod).1

section

variable (hnests : nests [] receiver = true) (hblank : trim receiver ≠ [])
  (hmethod : isWord method = true)
include hnests hblank hmethod

theorem parseCall_of_dropArguments {expression : List Char}
    (hdrop : dropArguments (trim expression) = some (receiver.dropWhile isBlank ++ '.' :: method)) :
    parseCall expression = some (trim receiver, method) := by
  have hword := mem_isWordChar hmethod
  have hdepth : (receiver.dropWhile isBlank).foldl bracketDepth 0 = 0 :=
    @foldl_bracketDepth_of_nests [] _ (by rwa [nests_dropWhile_isBlank])
  have hdot : splitLastDot 0 ('.' :: method) = some ([], method) := by
    rw [splitLastDot, splitLastDot_of_forall hword]
    simp
  have hsplit := @splitLastDot_append _ (receiver.dropWhile isBlank) _ _ 0 (by rwa [hdepth])
  have htake : method.takeWhile isWordChar = method := by
    simpa using @List.takeWhile_append_of_pos _ isWordChar method [] hword
  rw [List.append_nil] at hsplit
  simp only [parseCall, hdrop, hsplit, htake, trim_dropWhile_isBlank, Option.bind_eq_bind,
    Option.bind_some]
  exact if_neg (by simp [hblank, isWord.ne_nil hmethod])

theorem parseCall_member :
    parseCall (receiver ++ '.' :: method) = some (trim receiver, method) := by
  have hlast : ∀ c ∈ ('.' :: method).getLast?, isExpressionChar c = true := by
    intro c hc
    rcases List.mem_cons.mp (List.mem_of_getLast? hc) with rfl | hc
    · decide
    · simp [isExpressionChar, mem_isWordChar hmethod c hc]
  refine parseCall_of_dropArguments hnests hblank hmethod ?_
  rw [trim_append (List.cons_ne_nil _ _) (by simp; decide) fun c hc =>
    isBlank_of_isExpressionChar (hlast c hc)]
  refine if_neg fun hclose => absurd (hlast ')' ?_) (by decide)
  rwa [List.getLast?_append, List.getLast?_eq_some_getLast (List.cons_ne_nil _ _), Option.some_or,
    ← List.getLast?_eq_some_getLast] at hclose

theorem parseCall_call (hargs : Matched args) :
    parseCall (receiver ++ '.' :: (method ++ '(' :: (args ++ [')']))) =
      some (trim receiver, method) := by
  refine parseCall_of_dropArguments hnests hblank hmethod ?_
  have hlast : ('.' :: (method ++ '(' :: (args ++ [')']))).getLast? = some ')' := by
    rw [← List.cons_append, ← List.cons_append, ← List.append_assoc, List.getLast?_concat]
  rw [trim_append (List.cons_ne_nil _ _) (by simp; decide) (by rw [hlast]; simp; decide)]
  have htext : receiver.dropWhile isBlank ++ '.' :: (method ++ '(' :: (args ++ [')'])) =
      (receiver.dropWhile isBlank ++ '.' :: method) ++ '(' :: args ++ [')'] := by simp
  generalize receiver.dropWhile isBlank ++ '.' :: method = callee at htext ⊢
  rw [htext, dropArguments, if_pos List.getLast?_concat, List.length_append, List.length_singleton,
    Nat.add_sub_cancel]
  have htake : (callee ++ '(' :: args ++ [')']).take (callee ++ '(' :: args).length =
      callee ++ '(' :: args :=
    List.take_left
  obtain ⟨hlt, hopen, hslice⟩ := of_take_eq_append_cons htake
  rw [matchingOpen, unmatchedOpen_eq_some_iff.mpr ⟨hlt, hopen, by rwa [hslice]⟩, Option.map_some,
    List.append_assoc, List.take_left]

end

theorem nonempty_of_parseCall {expression : List Char}
    (h : parseCall expression = some (receiver, method)) :
    receiver ≠ [] ∧ isWord method = true := by
  obtain ⟨callee, -, h⟩ := Option.bind_eq_some_iff.mp h
  obtain ⟨⟨before, behind⟩, -, h⟩ := Option.bind_eq_some_iff.mp h
  obtain ⟨hne, h⟩ := Option.ite_none_left_eq_some.mp h
  cases h
  rw [Bool.not_eq_true, Bool.or_eq_false_iff] at hne
  exact ⟨by simpa using hne.1, by simp [isWord, hne.2]⟩

/-- A call is split at the dot before its method: its receiver may hold calls, subscripts and dots,
and its arguments anything in which the parentheses match. No text is ever split into an empty part.
-/
theorem parseCall_splits :
    (∀ receiver method args, nests [] receiver = true → trim receiver ≠ [] → isWord method = true →
      Matched args →
        parseCall (receiver ++ '.' :: (method ++ '(' :: (args ++ [')']))) =
          some (trim receiver, method) ∧
        parseCall (receiver ++ '.' :: method) = some (trim receiver, method)) ∧
      ∀ expression receiver method, parseCall expression = some (receiver, method) →
        receiver ≠ [] ∧ isWord method = true :=
  ⟨fun _ _ _ hnests hblank hmethod hargs =>
      ⟨parseCall_call hnests hblank hmethod hargs, parseCall_member hnests hblank hmethod⟩,
    fun _ _ _ => nonempty_of_parseCall⟩

theorem parseCall_splits_nested :
    parseCall " self.pools[i.x](f(a.b), [c])  .swap(g(h.k()), \"[\", d[e.f])".toList =
        some ("self.pools[i.x](f(a.b), [c])".toList, "swap".toList) ∧
      parseCall " self.pools[i.x](f(a.b), [c])  .swap".toList =
        some ("self.pools[i.x](f(a.b), [c])".toList, "swap".toList) ∧
      ("self".toList ≠ [] ∧ isWord "swap".toList = true) :=
  ⟨(parseCall_splits.1 " self.pools[i.x](f(a.b), [c])  ".toList "swap".toList
      "g(h.k()), \"[\", d[e.f]".toList (by decide +kernel) (by decide +kernel) (by decide +kernel)
      (by decide +kernel)).1,
    (parseCall_splits.1 " self.pools[i.x](f(a.b), [c])  ".toList "swap".toList []
      (by decide +kernel) (by decide +kernel) (by decide +kernel) .nil).2,
    parseCall_splits.2 "self.swap".toList "self".toList "swap".toList (by decide +kernel)⟩

end Vyper.LineCursor
