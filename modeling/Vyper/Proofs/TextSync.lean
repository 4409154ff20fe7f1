import Vyper.Editor.Document

/-!
# Keeping a document in step with an editor

An editor names the ends of an edit by line and UTF-16 column. Its lines end at a line feed, a
carriage return, or the two together; the lines of a `Document` end at five further characters, the
separators. `Lines.split` is both ways of counting, for a choice of breaks.

`Document.offset_positionAfter` is what the two agree on: a position means the place the editor
meant exactly when no separator stands before the last character in front of it. The consequence for
whole histories of edits comes last.
-/

namespace Vyper

namespace Utf16

theorem units_pos (c : Char) : 0 < units c := by
  unfold units
  split <;> decide

theorem length_append (xs ys : List Char) : length (xs ++ ys) = length xs + length ys := by
  induction xs with
  | nil => simp [length]
  | cons x xs ih => simp [length, ih, Nat.add_assoc]

theorem charIndex_le (xs : List Char) (offset : Nat) : charIndex xs offset ≤ xs.length := by
  induction xs generalizing offset with
  | nil => exact Nat.le_refl 0
  | cons x xs ih =>
    rw [charIndex, List.length_cons]
    split
    · omega
    · have := ih (offset - units x)
      omega

/-- The units of a front part lead to its end. -/
theorem charIndex_append (xs ys : List Char) : charIndex (xs ++ ys) (length xs) = xs.length := by
  induction xs with
  | nil =>
    cases ys with
    | nil => rfl
    | cons y ys => rw [List.nil_append, charIndex, length, if_pos (units_pos y)]; rfl
  | cons x xs ih =>
    rw [List.cons_append, charIndex, length, if_neg (by omega), Nat.add_sub_cancel_left, ih,
      List.length_cons, Nat.add_comm]

end Utf16

namespace Lines

/-- Whether a line ends after a character; a carriage return waits for the line feed after it. -/
def endsAfter (breaks : Char → Bool) (c : Char) (rest : List Char) : Bool :=
  breaks c && !(c == '\r' && rest.head? == some '\n')

/-- The lines with more text in front of the first. -/
def prepend (text : List Char) : List (List Char) → List (List Char)
  | [] => [text]
  | line :: lines => (text ++ line) :: lines

/-- The lines of a text, each with its break, for a choice of breaks. -/
def split (breaks : Char → Bool) : List Char → List (List Char)
  | [] => [[]]
  | c :: cs =>
    if endsAfter breaks c cs then [c] :: split breaks cs else prepend [c] (split breaks cs)

section Split

variable {breaks breaks' : Char → Bool} {pre post text : List Char}

theorem endsAfter_eq {c : Char} {rest : List Char} (h : ¬ (c = '\r' ∧ rest.head? = some '\n')) :
    endsAfter breaks c rest = breaks c := by
  have hpair : (c == '\r' && rest.head? == some '\n') = false := by
    simpa using h
  rw [endsAfter, hpair, Bool.not_false, Bool.and_true]

theorem endsAfter_lineFeed (hfeed : breaks '\n' = true) (rest : List Char) :
    endsAfter breaks '\n' rest = true := by
  rw [endsAfter_eq (by simp), hfeed]

theorem ofText_eq_split (text : List Char) : ofText text = split isBreak text := by
  have hhead : ∀ (c : Char) (cs : List Char), (∀ tail, c = '\r' → cs = '\n' :: tail → False) →
      endsAfter isBreak c cs = isBreak c := by
    intro c cs hpair
    refine endsAfter_eq ?_
    rintro ⟨hc, hcs⟩
    cases cs with
    | nil => cases hcs
    | cons d tail => exact hpair tail hc (by simpa using hcs)
  fun_induction ofText text with
  | case1 => rfl
  | case2 cs ih => simp [split, endsAfter, isBreak, prepend, ih]
  | case3 c cs hpair hbreak ih => rw [split, hhead c cs hpair, if_pos hbreak, ih]
  | case4 c cs hpair hbreak hnil ih => exact absurd (ih ▸ hnil) (ofText_ne_nil cs)
  | case5 c cs hpair hbreak line lines heq ih =>
    rw [split, hhead c cs hpair, if_neg hbreak, ← ih, heq]
    rfl

theorem split_ne_nil (breaks : Char → Bool) (text : List Char) : split breaks text ≠ [] := by
  cases text with
  | nil => exact List.cons_ne_nil _ _
  | cons c cs =>
    rw [split]
    split
    · exact List.cons_ne_nil _ _
    · cases split breaks cs <;> exact List.cons_ne_nil _ _

/-- A line feed at the start of a text is a line of its own. -/
theorem exists_cons_lineFeed (hfeed : breaks '\n' = true) (h : text.head? = some '\n') :
    ∃ rest, split breaks text = ['\n'] :: rest := by
  cases text with
  | nil => cases h
  | cons c cs =>
    cases h
    exact ⟨split breaks cs, by rw [split, if_pos (endsAfter_lineFeed hfeed cs)]⟩

/-- Not between a carriage return and its line feed. -/
def Boundary (pre post : List Char) : Prop :=
  ¬ (pre.getLast? = some '\r' ∧ post.head? = some '\n')

instance (pre post : List Char) : Decidable (Boundary pre post) :=
  inferInstanceAs (Decidable (¬ _))

/-- The lines that have ended in a text. -/
def finished (breaks : Char → Bool) (text : List Char) : List (List Char) :=
  (split breaks text).dropLast

/-- The line that has not ended. -/
def current (breaks : Char → Bool) (text : List Char) : List Char :=
  (split breaks text).getLastD []

theorem exists_split (breaks : Char → Bool) (pre : List Char) :
    ∃ lines line, split breaks pre = lines ++ [line] ∧ ∀ post, Boundary pre post →
      split breaks (pre ++ post) = lines ++ prepend line (split breaks post) := by
  induction pre with
  | nil =>
    refine ⟨[], [], rfl, fun post _ => ?_⟩
    obtain ⟨first, rest, hsplit⟩ := List.exists_cons_of_ne_nil (split_ne_nil breaks post)
    rw [List.nil_append, hsplit]
    rfl
  | cons c cs ih =>
    obtain ⟨lines, line, hsplit, happend⟩ := ih
    have hends : ∀ post, Boundary (c :: cs) post →
        endsAfter breaks c (cs ++ post) = endsAfter breaks c cs := by
      intro post hpost
      cases cs with
      | nil =>
        rw [List.nil_append, endsAfter_eq (by simpa [Boundary] using hpost), endsAfter_eq (by simp)]
      | cons d cs => rfl
    have hrest : ∀ post, Boundary (c :: cs) post →
        split breaks (cs ++ post) = lines ++ prepend line (split breaks post) := by
      intro post hpost
      refine happend post fun h => hpost ⟨?_, h.2⟩
      cases cs with
      | nil => cases h.1
      | cons d cs => exact h.1
    by_cases hbreak : endsAfter breaks c cs
    · refine ⟨[c] :: lines, line, by rw [split, if_pos hbreak, hsplit]; rfl, fun post hpost => ?_⟩
      rw [List.cons_append, split, hends post hpost, if_pos hbreak, hrest post hpost]
      rfl
    · cases lines with
      | nil =>
        refine ⟨[], c :: line, by rw [split, if_neg hbreak, hsplit]; rfl, fun post hpost => ?_⟩
        rw [List.cons_append, split, hends post hpost, if_neg hbreak, hrest post hpost]
        cases split breaks post <;> rfl
      | cons first lines =>
        refine ⟨(c :: first) :: lines, line, by rw [split, if_neg hbreak, hsplit]; rfl,
          fun post hpost => ?_⟩
        rw [List.cons_append, split, hends post hpost, if_neg hbreak, hrest post hpost]
        rfl

theorem split_eq (breaks : Char → Bool) (text : List Char) :
    split breaks text = finished breaks text ++ [current breaks text] := by
  obtain ⟨lines, line, hsplit, _⟩ := exists_split breaks text
  rw [finished, current, hsplit]
  simp

/-- The lines of two texts joined anywhere but inside a break of two characters. -/
theorem split_append (h : Boundary pre post) :
    split breaks (pre ++ post) =
      finished breaks pre ++ prepend (current breaks pre) (split breaks post) := by
  obtain ⟨lines, line, hsplit, happend⟩ := exists_split breaks pre
  rw [happend post h, finished, current, hsplit]
  simp

theorem flatten_split (breaks : Char → Bool) (text : List Char) :
    (split breaks text).flatten = text := by
  induction text with
  | nil => rfl
  | cons c cs ih =>
    rw [split]
    split
    · rw [List.flatten_cons, ih]
      rfl
    · obtain ⟨first, rest, hsplit⟩ := List.exists_cons_of_ne_nil (split_ne_nil breaks cs)
      rw [hsplit] at ih ⊢
      simpa [prepend] using ih

theorem flatten_finished_append (breaks : Char → Bool) (text : List Char) :
    (finished breaks text).flatten ++ current breaks text = text := by
  have h := flatten_split breaks text
  rw [split_eq] at h
  simpa using h

/-- Two choices of breaks that agree on a text give it the same lines. -/
theorem split_congr (h : ∀ c ∈ text, breaks c = breaks' c) :
    split breaks text = split breaks' text := by
  induction text with
  | nil => rfl
  | cons c cs ih =>
    have hends : endsAfter breaks c cs = endsAfter breaks' c cs := by
      rw [endsAfter, endsAfter, h c List.mem_cons_self]
    rw [split, split, hends, ih fun d hd => h d (List.mem_cons_of_mem c hd)]

/-- A line that has ended ends with a break, and the one that has not holds none. -/
theorem exists_split_breaks (hfeed : breaks '\n' = true) (text : List Char) :
    ∃ lines line, split breaks text = lines ++ [line] ∧
      (∀ l ∈ lines, ∃ body c, l = body ++ [c] ∧ breaks c = true) ∧
      ∀ c ∈ line, breaks c = false := by
  induction text with
  | nil => exact ⟨[], [], rfl, nofun, nofun⟩
  | cons c cs ih =>
    obtain ⟨lines, line, hsplit, hlines, hline⟩ := ih
    by_cases hbreak : endsAfter breaks c cs
    · have hc : breaks c = true := by
        rw [endsAfter, Bool.and_eq_true] at hbreak
        exact hbreak.1
      refine ⟨[c] :: lines, line, by rw [split, if_pos hbreak, hsplit]; rfl, ?_, hline⟩
      intro l hl
      rcases List.mem_cons.1 hl with rfl | hl
      · exact ⟨[], c, rfl, hc⟩
      · exact hlines l hl
    · cases lines with
      | nil =>
        refine ⟨[], c :: line, by rw [split, if_neg hbreak, hsplit]; rfl, nofun, ?_⟩
        have hpair : ¬ (c = '\r' ∧ cs.head? = some '\n') := by
          rintro ⟨_, hhead⟩
          obtain ⟨rest, hfirst⟩ := exists_cons_lineFeed hfeed hhead
          rw [hsplit] at hfirst
          cases hfirst
          have hnone := hline '\n' List.mem_cons_self
          rw [hfeed] at hnone
          cases hnone
        rw [endsAfter_eq hpair] at hbreak
        intro d hd
        rcases List.mem_cons.1 hd with rfl | hd
        · simpa using hbreak
        · exact hline d hd
      | cons first lines =>
        refine ⟨(c :: first) :: lines, line, by rw [split, if_neg hbreak, hsplit]; rfl, ?_, hline⟩
        intro l hl
        rcases List.mem_cons.1 hl with rfl | hl
        · obtain ⟨body, d, rfl, hd⟩ := hlines first List.mem_cons_self
          exact ⟨c :: body, d, rfl, hd⟩
        · exact hlines l (List.mem_cons_of_mem first hl)

theorem ends_of_mem_finished (hfeed : breaks '\n' = true) {line : List Char}
    (h : line ∈ finished breaks text) : ∃ body c, line = body ++ [c] ∧ breaks c = true := by
  obtain ⟨lines, last, hsplit, hlines, _⟩ := exists_split_breaks hfeed text
  rw [finished, hsplit, List.dropLast_concat] at h
  exact hlines line h

theorem break_eq_false_of_mem_current (hfeed : breaks '\n' = true) {c : Char}
    (h : c ∈ current breaks text) : breaks c = false := by
  obtain ⟨lines, last, hsplit, _, hlast⟩ := exists_split_breaks hfeed text
  rw [current, hsplit] at h
  exact hlast c (by simpa using h)

end Split

/-! ### The breaks of the editor -/

/-- The characters that end a line for an editor. -/
def isEditorBreak (c : Char) : Bool := c == '\n' || c == '\r'

/-- The characters that end a line for a document and not for an editor. -/
def isSeparator (c : Char) : Bool := isBreak c && !isEditorBreak c

theorem isBreak_of_isEditorBreak {c : Char} (h : isEditorBreak c = true) : isBreak c = true := by
  simp only [isEditorBreak, Bool.or_eq_true, beq_iff_eq] at h
  rcases h with rfl | rfl <;> decide

theorem isEditorBreak_eq_false {c : Char} (h : isBreak c = false) : isEditorBreak c = false := by
  cases hc : isEditorBreak c with
  | false => rfl
  | true =>
    rw [isBreak_of_isEditorBreak hc] at h
    cases h

theorem isBreak_eq_isEditorBreak {c : Char} (h : isSeparator c = false) :
    isBreak c = isEditorBreak c := by
  cases hc : isEditorBreak c with
  | true => exact isBreak_of_isEditorBreak hc
  | false => simpa [isSeparator, hc] using h

theorem length_prepend (text : List Char) {lines : List (List Char)} (h : lines ≠ []) :
    (prepend text lines).length = lines.length := by
  cases lines with
  | nil => exact absurd rfl h
  | cons line lines => rfl

/-- A document counts one line more for each separator. -/
theorem length_split_isBreak (text : List Char) :
    (split isBreak text).length = (split isEditorBreak text).length + text.countP isSeparator := by
  induction text with
  | nil => rfl
  | cons c cs ih =>
    have hlen := length_prepend [c] (split_ne_nil isBreak cs)
    have hlen' := length_prepend [c] (split_ne_nil isEditorBreak cs)
    by_cases hsep : isSeparator c
    · have hc : isBreak c = true ∧ isEditorBreak c = false := by simpa [isSeparator] using hsep
      have hpair : ¬ (c = '\r' ∧ cs.head? = some '\n') := by
        rintro ⟨rfl, _⟩
        exact absurd hc.2 (by decide)
      rw [split, split, endsAfter_eq hpair, endsAfter_eq hpair, if_pos hc.1,
        if_neg (by rw [hc.2]; decide), List.length_cons, hlen', List.countP_cons_of_pos hsep, ih]
      omega
    · have hsame := isBreak_eq_isEditorBreak (by simpa using hsep)
      rw [split, split, endsAfter, endsAfter, hsame, List.countP_cons_of_neg hsep]
      split
      · rw [List.length_cons, List.length_cons, ih]
        omega
      · rw [hlen, hlen', ih]

theorem content_append {xs : List Char} (h : ∀ c ∈ xs, isEditorBreak c = false) (ys : List Char) :
    content (xs ++ ys) = xs ++ content ys := by
  have hxs : xs.reverse.dropWhile isEditorBreak = xs.reverse := by
    cases hr : xs.reverse with
    | nil => rfl
    | cons c cs =>
      have hc : c ∈ xs := by
        rw [← List.mem_reverse, hr]
        exact List.mem_cons_self
      rw [List.dropWhile_cons, h c hc]
      rfl
  change ((xs ++ ys).reverse.dropWhile isEditorBreak).reverse =
    xs ++ (ys.reverse.dropWhile isEditorBreak).reverse
  rw [List.reverse_append, List.dropWhile_append]
  split
  · next hempty =>
    rw [List.isEmpty_iff.1 hempty, hxs, List.reverse_reverse]
    simp
  · rw [List.reverse_append, List.reverse_reverse]

theorem length_content_le (line : List Char) : (content line).length ≤ line.length := by
  have hle := (List.dropWhile_sublist (l := line.reverse) isEditorBreak).length_le
  rw [List.length_reverse] at hle
  rw [content, List.length_reverse]
  exact hle

/-- The break of the editor is no part of what a line says. -/
theorem content_concat {c : Char} (h : isEditorBreak c = true) (line : List Char) :
    content (line ++ [c]) = content line := by
  change ((line ++ [c]).reverse.dropWhile isEditorBreak).reverse = _
  rw [List.reverse_append, List.reverse_singleton, List.singleton_append, List.dropWhile_cons, h]
  rfl

theorem length_content_concat {c : Char} (h : isEditorBreak c = true) (body : List Char) :
    (content (body ++ [c])).length ≤ body.length := by
  rw [content_concat h]
  exact length_content_le body

/-- No separator stands before the last character. -/
def Clear (text : List Char) : Prop := ∀ c ∈ text.dropLast, isSeparator c = false

instance (text : List Char) : Decidable (Clear text) :=
  decidable_of_iff (text.dropLast.all fun c => !isSeparator c) (by simp [Clear])

end Lines

namespace Document

open Lines

/-- The position an editor gives to the place behind a text. -/
def positionAfter (pre : List Char) : Position :=
  ⟨(finished isEditorBreak pre).length, Utf16.length (current isEditorBreak pre)⟩

theorem offset_of_line {d : Document} {n : Nat} {line : List Char}
    (h : (split isBreak d.text)[n]? = some line) (character : Nat) :
    d.offset ⟨n, character⟩ =
      .ok (((split isBreak d.text).take n).flatten.length +
        Utf16.charIndex (content line) character) := by
  rw [← ofText_eq_split] at h ⊢
  have hn : n ≠ d.lineCount := by
    have hlt := (List.getElem?_eq_some_iff.1 h).1
    rw [lineCount, count]
    omega
  rw [offset, if_neg hn, cursor?, line?, Lines.line?, h]
  rfl

section Offset

variable {d : Document} {pre post : List Char}

/-- A line that has ended in front of a place lies in front of it as a whole. -/
theorem offset_finished (htext : d.text = pre ++ post) (hb : Boundary pre post) {n : Nat}
    {line : List Char} (h : (finished isBreak pre)[n]? = some line) (character : Nat) :
    d.offset ⟨n, character⟩ =
      .ok (((finished isBreak pre).take n).flatten.length +
        Utf16.charIndex (content line) character) := by
  have hn := (List.getElem?_eq_some_iff.1 h).1
  have hsplit : split isBreak d.text =
      finished isBreak pre ++ prepend (current isBreak pre) (split isBreak post) := by
    rw [htext, split_append hb]
  have hline : (split isBreak d.text)[n]? = some line := by
    rw [hsplit, List.getElem?_append_left hn, h]
  rw [offset_of_line hline, hsplit, List.take_append_of_le_length (by omega)]

/-- The line that has not ended goes on behind the place. -/
theorem split_current (htext : d.text = pre ++ post) (hb : Boundary pre post) {rest : List Char}
    {more : List (List Char)} (hpost : split isBreak post = rest :: more) :
    split isBreak d.text = finished isBreak pre ++ (current isBreak pre ++ rest) :: more ∧
      (split isBreak d.text)[(finished isBreak pre).length]? =
        some (current isBreak pre ++ rest) := by
  have hsplit : split isBreak d.text =
      finished isBreak pre ++ (current isBreak pre ++ rest) :: more := by
    rw [htext, split_append hb, hpost]
    rfl
  refine ⟨hsplit, ?_⟩
  rw [hsplit, List.getElem?_append_right (Nat.le_refl _), Nat.sub_self]
  rfl

theorem content_current (pre rest : List Char) :
    content (current isBreak pre ++ rest) = current isBreak pre ++ content rest := by
  refine content_append (fun c hc => ?_) rest
  exact isEditorBreak_eq_false (break_eq_false_of_mem_current (by decide) hc)

theorem offset_current (htext : d.text = pre ++ post) (hb : Boundary pre post) {rest : List Char}
    {more : List (List Char)} (hpost : split isBreak post = rest :: more) (character : Nat) :
    d.offset ⟨(finished isBreak pre).length, character⟩ =
      .ok ((finished isBreak pre).flatten.length +
        Utf16.charIndex (current isBreak pre ++ content rest) character) := by
  obtain ⟨hsplit, hline⟩ := split_current htext hb hpost
  rw [offset_of_line hline, hsplit, List.take_left, content_current]

theorem length_finished_append (pre : List Char) :
    (finished isBreak pre).flatten.length + (current isBreak pre).length = pre.length := by
  rw [← List.length_append, flatten_finished_append]

/-- Behind a text without separators, the two count alike. -/
theorem offset_positionAfter_of_forall (htext : d.text = pre ++ post) (hb : Boundary pre post)
    (h : ∀ c ∈ pre, isSeparator c = false) : d.offset (positionAfter pre) = .ok pre.length := by
  obtain ⟨rest, more, hpost⟩ := List.exists_cons_of_ne_nil (split_ne_nil isBreak post)
  have hsame : split isEditorBreak pre = split isBreak pre :=
    split_congr fun c hc => (isBreak_eq_isEditorBreak (h c hc)).symm
  have hoffset := offset_current htext hb hpost (Utf16.length (current isBreak pre))
  rw [Utf16.charIndex_append, length_finished_append] at hoffset
  rw [positionAfter, finished, current, hsame]
  exact hoffset

/-- Right behind the first separator they still do: a document keeps it in the line it ends. -/
theorem offset_positionAfter_concat {c : Char} (htext : d.text = pre ++ c :: post)
    (hc : isSeparator c = true) (h : ∀ c ∈ pre, isSeparator c = false) :
    d.offset (positionAfter (pre ++ [c])) = .ok (pre.length + 1) := by
  have hbreak : isBreak c = true ∧ isEditorBreak c = false := by simpa [isSeparator] using hc
  have hb : ∀ post, Boundary pre (c :: post) := by
    rintro post ⟨_, hhead⟩
    obtain rfl : c = '\n' := by simpa using hhead
    exact absurd hbreak.2 (by decide)
  have hpair : ∀ rest : List Char, ¬ (c = '\r' ∧ rest.head? = some '\n') := by
    rintro rest ⟨rfl, _⟩
    exact absurd hbreak.2 (by decide)
  have hsame : split isEditorBreak pre = split isBreak pre :=
    split_congr fun d hd => (isBreak_eq_isEditorBreak (h d hd)).symm
  have hpost : split isBreak (c :: post) = [c] :: split isBreak post := by
    rw [split, endsAfter_eq (hpair post), if_pos hbreak.1]
  have heditor : split isEditorBreak (pre ++ [c]) =
      finished isBreak pre ++ [current isBreak pre ++ [c]] := by
    rw [split_append (hb []), split, endsAfter_eq (hpair []), if_neg (by rw [hbreak.2]; decide),
      finished, current, hsame]
    rfl
  have hcontent : content [c] = [c] := by
    rw [← List.append_nil [c], content_append (by simpa using hbreak.2)]
    rfl
  have hoffset := offset_current htext (hb post) hpost (Utf16.length (current isBreak pre ++ [c]))
  have hindex := Utf16.charIndex_append (current isBreak pre ++ [c]) []
  rw [List.append_nil] at hindex
  rw [hcontent, hindex, List.length_append, ← Nat.add_assoc, length_finished_append] at hoffset
  rw [positionAfter, finished, current, heditor]
  simpa using hoffset

theorem offset_positionAfter_of_clear (htext : d.text = pre ++ post) (hb : Boundary pre post)
    (h : Clear pre) : d.offset (positionAfter pre) = .ok pre.length := by
  rcases List.eq_nil_or_concat pre with rfl | ⟨front, c, rfl⟩
  · exact offset_positionAfter_of_forall htext hb nofun
  · rw [List.concat_eq_append] at *
    have hfront : ∀ d ∈ front, isSeparator d = false := by
      simpa [Clear] using h
    by_cases hc : isSeparator c
    · rw [List.append_assoc] at htext
      rw [offset_positionAfter_concat htext hc hfront]
      simp
    · refine offset_positionAfter_of_forall htext hb ?_
      intro d hd
      rcases List.mem_append.1 hd with hd | hd
      · exact hfront d hd
      · rw [List.mem_singleton.1 hd]
        simpa using hc

theorem length_finished_isBreak (pre : List Char) :
    (finished isBreak pre).length =
      (finished isEditorBreak pre).length + pre.countP isSeparator := by
  have h := length_split_isBreak pre
  rw [split_eq isBreak, split_eq isEditorBreak, List.length_append, List.length_append] at h
  simp only [List.length_singleton] at h
  omega

/-- Behind a separator the editor's line number names a line that has ended already, and its end is
reached only if that line is all there is behind the separators. -/
theorem offset_positionAfter_of_pos (htext : d.text = pre ++ post) (hb : Boundary pre post)
    (hpos : 0 < pre.countP isSeparator) :
    ∃ o, d.offset (positionAfter pre) = .ok o ∧ o ≤ pre.length ∧ (o = pre.length → Clear pre) := by
  have hcount := length_finished_isBreak pre
  have hsum := length_finished_append pre
  have hn : (finished isEditorBreak pre).length < (finished isBreak pre).length := by omega
  obtain ⟨front, line, back, hlines, hfront⟩ : ∃ front line back,
      finished isBreak pre = front ++ line :: back ∧
        front.length = (finished isEditorBreak pre).length := by
    have hsplit := List.take_append_drop (finished isEditorBreak pre).length (finished isBreak pre)
    rw [List.drop_eq_getElem_cons hn] at hsplit
    exact ⟨_, _, _, hsplit.symm, List.length_take_of_le (Nat.le_of_lt hn)⟩
  have hends : ∀ l ∈ line :: back, ∃ body c, l = body ++ [c] ∧ isBreak c = true := by
    intro l hl
    have hmem : l ∈ finished isBreak pre := by
      rw [hlines]
      exact List.mem_append_right front hl
    exact ends_of_mem_finished (by decide) hmem
  have hline : (finished isBreak pre)[(finished isEditorBreak pre).length]? = some line := by
    rw [hlines, ← hfront, List.getElem?_append_right (Nat.le_refl _), Nat.sub_self]
    rfl
  have hoffset := offset_finished htext hb hline (Utf16.length (current isEditorBreak pre))
  rw [hlines, ← hfront, List.take_left, hfront] at hoffset
  have hindex := Utf16.charIndex_le (content line) (Utf16.length (current isEditorBreak pre))
  have hcontent := length_content_le line
  rw [hlines, List.flatten_append, List.flatten_cons, List.length_append,
    List.length_append] at hsum
  refine ⟨_, hoffset, by omega, fun heq => ?_⟩
  obtain ⟨body, c, rfl, hc⟩ := hends line List.mem_cons_self
  have hback : back = [] := by
    cases back with
    | nil => rfl
    | cons l back =>
      obtain ⟨body', c', rfl, _⟩ := hends l (List.mem_cons_of_mem _ List.mem_cons_self)
      simp only [List.flatten_cons, List.length_append, List.length_singleton] at hsum hcontent
      omega
  subst hback
  have hsep : isSeparator c = true := by
    cases hbreak : isEditorBreak c with
    | false => rw [isSeparator, hc, hbreak]; rfl
    | true =>
      have hshort := length_content_concat hbreak body
      simp only [List.length_append, List.length_singleton] at hsum
      omega
  have hcurrent : current isBreak pre = [] := by
    refine List.length_eq_zero_iff.1 ?_
    omega
  have hpre : pre = front.flatten ++ body ++ [c] := by
    have h := flatten_finished_append isBreak pre
    rw [hlines, hcurrent] at h
    simpa using h.symm
  have hlength : (finished isBreak pre).length = front.length + 1 := by
    rw [hlines, List.length_append, List.length_singleton]
  have hone : pre.countP isSeparator = (front.flatten ++ body).countP isSeparator + 1 := by
    rw [hpre, List.countP_append, List.countP_singleton, if_pos hsep]
  have hnone : (front.flatten ++ body).countP isSeparator = 0 := by omega
  rw [Clear, hpre, List.dropLast_concat]
  intro b hb
  simpa using List.countP_eq_zero.1 hnone b hb

theorem offset_positionAfter (htext : d.text = pre ++ post) (hb : Boundary pre post) :
    ∃ o, d.offset (positionAfter pre) = .ok o ∧ o ≤ pre.length ∧ (o = pre.length ↔ Clear pre) := by
  have hexact := offset_positionAfter_of_clear htext hb
  by_cases hclear : Clear pre
  · exact ⟨_, hexact hclear, Nat.le_refl _, fun _ => hclear, fun _ => rfl⟩
  · have hpos : 0 < pre.countP isSeparator := by
      refine List.countP_pos_iff.2 (Classical.byContradiction fun hnone => hclear ?_)
      intro c hc
      cases hsep : isSeparator c with
      | false => rfl
      | true => exact absurd ⟨c, (List.dropLast_sublist pre).mem hc, hsep⟩ hnone
    obtain ⟨o, ho, hle, himp⟩ := offset_positionAfter_of_pos htext hb hpos
    exact ⟨o, ho, hle, himp, fun h => absurd h hclear⟩

end Offset

end Document

/-! ### Edits -/

/-- An edit as an editor makes it: what lies between two places is replaced. -/
structure Edit where
  first : Nat
  last : Nat
  replacement : List Char

namespace Edit

open Lines

/-- The text of the editor after the edit. -/
def apply (e : Edit) (text : List Char) : List Char :=
  text.take e.first ++ e.replacement ++ text.drop e.last

/-- The range the editor sends. -/
def range (e : Edit) (text : List Char) : Range :=
  ⟨Document.positionAfter (text.take e.first), Document.positionAfter (text.take e.last)⟩

/-- The edits an editor makes: neither place lies inside a break of two characters. -/
structure Valid (text : List Char) (e : Edit) : Prop where
  ordered : e.first ≤ e.last
  inside : e.last ≤ text.length
  first : Boundary (text.take e.first) (text.drop e.first)
  last : Boundary (text.take e.last) (text.drop e.last)

/-- No separator stands before the last character in front of the edit's end. -/
def InReach (text : List Char) (e : Edit) : Prop := Clear (text.take e.last)

instance (text : List Char) (e : Edit) : Decidable (e.InReach text) :=
  inferInstanceAs (Decidable (Clear (text.take e.last)))

/-- The edits of a history, each with a property on the text it is made on. -/
def History (P : List Char → Edit → Prop) : List Char → List Edit → Prop
  | _, [] => True
  | text, e :: es => P text e ∧ History P (e.apply text) es

/-- The text of the editor after a history of edits. -/
def applyAll (text : List Char) (es : List Edit) : List Char :=
  es.foldl (fun text e => e.apply text) text

end Edit

namespace Lines

theorem Clear.take {text : List Char} (h : Clear text) (n : Nat) : Clear (text.take n) := by
  intro c hc
  refine h c ?_
  by_cases hn : text.length ≤ n
  · rwa [List.take_of_length_le hn] at hc
  · rw [List.dropLast_eq_take, List.take_take] at hc
    rw [List.dropLast_eq_take]
    refine (List.take_sublist_take_left ?_).mem hc
    rw [List.length_take]
    omega

end Lines

namespace Document

open Lines

/-- The document after the edits the editor makes, given their ranges on the editor's own text. -/
def follow (d : Document) : List Char → List Edit → Except InvalidPosition Document
  | _, [] => .ok d
  | text, e :: es => do
    let changed ← d.applyChange (some (e.range text)) e.replacement
    changed.follow (e.apply text) es

variable {d : Document} {e : Edit}

theorem offset_take {n : Nat} (hn : n ≤ d.text.length)
    (hb : Boundary (d.text.take n) (d.text.drop n)) :
    ∃ o, d.offset (positionAfter (d.text.take n)) = .ok o ∧ o ≤ n ∧
      (o = n ↔ Clear (d.text.take n)) := by
  have h := offset_positionAfter (List.take_append_drop n d.text).symm hb
  rwa [List.length_take_of_le hn] at h

theorem applyChange_of_offset {r : Range} {first last : Nat} (hfirst : d.offset r.start = .ok first)
    (hlast : d.offset r.stop = .ok last) (replacement : List Char) :
    d.applyChange (some r) replacement =
      .ok ⟨d.uri, splice d.text (min first last) (max first last) replacement⟩ := by
  rw [applyChange, hfirst, hlast]
  rfl

/-- An edit in reach is followed. -/
theorem applyChange_of_inReach (hvalid : e.Valid d.text) (hreach : e.InReach d.text) :
    d.applyChange (some (e.range d.text)) e.replacement = .ok ⟨d.uri, e.apply d.text⟩ := by
  have hle := hvalid.ordered
  have hinside := hvalid.inside
  have hclear : Clear (d.text.take e.first) := by
    have h := hreach.take e.first
    rwa [List.take_take, Nat.min_eq_left hle] at h
  obtain ⟨first, hfirst, _, hexact⟩ := offset_take (by omega) hvalid.first
  obtain ⟨last, hlast, _, hexact'⟩ := offset_take hinside hvalid.last
  rw [applyChange_of_offset hfirst hlast, hexact.2 hclear, hexact'.2 hreach, Nat.min_eq_left hle,
    Nat.max_eq_right hle]
  rfl

/-- A history of edits in reach is followed to its end. -/
theorem follow_of_inReach {es : List Edit} (hvalid : Edit.History Edit.Valid d.text es)
    (hreach : Edit.History Edit.InReach d.text es) :
    d.follow d.text es = .ok ⟨d.uri, Edit.applyAll d.text es⟩ := by
  induction es generalizing d with
  | nil => rfl
  | cons e es ih =>
    rw [follow, applyChange_of_inReach hvalid.1 hreach.1]
    exact ih hvalid.2 hreach.2

/-- A document that follows every edit has no separator before its last character. -/
theorem clear_of_applyChange
    (h : ∀ e : Edit, e.Valid d.text →
      d.applyChange (some (e.range d.text)) e.replacement = .ok ⟨d.uri, e.apply d.text⟩) :
    Clear d.text := by
  have hend : Boundary (d.text.take d.text.length) (d.text.drop d.text.length) := by
    rw [List.drop_length]
    exact fun hb => by cases hb.2
  obtain ⟨o, ho, hle, hexact⟩ := offset_take (Nat.le_refl _) hend
  rw [List.take_length] at ho hexact
  refine hexact.1 (Classical.byContradiction fun hne => ?_)
  have hlt : o < d.text.length := by omega
  obtain ⟨c, hc⟩ : ∃ c, c ≠ d.text[o] := by
    by_cases ha : d.text[o] = 'a'
    · exact ⟨'b', by rw [ha]; decide⟩
    · exact ⟨'a', fun heq => ha heq.symm⟩
  have hvalid : Edit.Valid d.text ⟨d.text.length, d.text.length, [c]⟩ :=
    ⟨Nat.le_refl _, Nat.le_refl _, hend, hend⟩
  have happly := h _ hvalid
  rw [applyChange_of_offset (by rw [Edit.range, List.take_length]; exact ho)
    (by rw [Edit.range, List.take_length]; exact ho), Nat.min_self, Nat.max_self] at happly
  have htext : d.text.take o ++ [c] ++ d.text.drop o = d.text ++ [c] := by
    have h := congrArg Document.text (Except.ok.inj happly)
    simpa [splice, Edit.apply] using h
  have hat := congrArg (fun text => text[o]?) htext
  simp only [List.append_assoc] at hat
  rw [List.getElem?_append_right (by rw [List.length_take]; omega), List.getElem?_append_left hlt,
    List.length_take_of_le (by omega), Nat.sub_self, List.getElem?_eq_getElem hlt] at hat
  exact hc (Option.some.inj hat)

/-- A document follows every history of edits whose places no separator precedes, but for the last
character in front of them; of an edit's two places it finds both exactly then; and it follows all
edits of its text exactly when no character stands behind a separator. -/
theorem follows_edits (d : Document) :
    (∀ es : List Edit, Edit.History Edit.Valid d.text es → Edit.History Edit.InReach d.text es →
      d.follow d.text es = .ok ⟨d.uri, Edit.applyAll d.text es⟩) ∧
    (∀ e : Edit, e.Valid d.text → ∃ first last,
      d.offset (e.range d.text).start = .ok first ∧ d.offset (e.range d.text).stop = .ok last ∧
      first ≤ e.first ∧ last ≤ e.last ∧ ((first = e.first ∧ last = e.last) ↔ e.InReach d.text)) ∧
    ((∀ e : Edit, e.Valid d.text →
      d.applyChange (some (e.range d.text)) e.replacement = .ok ⟨d.uri, e.apply d.text⟩) ↔
      Clear d.text) := by
  refine ⟨fun es => follow_of_inReach, fun e hvalid => ?_, clear_of_applyChange, ?_⟩
  · have hle := hvalid.ordered
    have hinside := hvalid.inside
    obtain ⟨first, hfirst, hfle, hexact⟩ := offset_take (by omega) hvalid.first
    obtain ⟨last, hlast, hlle, hexact'⟩ := offset_take hinside hvalid.last
    refine ⟨first, last, hfirst, hlast, hfle, hlle, fun h => hexact'.1 h.2, fun hreach => ?_⟩
    have hclear := hreach.take e.first
    rw [List.take_take, Nat.min_eq_left hle] at hclear
    exact ⟨hexact.2 hclear, hexact'.2 hreach⟩
  · intro hclear e hvalid
    exact applyChange_of_inReach hvalid (hclear.take e.last)

/-- A character of two units, a break of two characters that one edit takes apart and another puts
together again, and an edit right behind a separator. -/
theorem follows_edits_breaks :
    let d : Document := ⟨"file:///a.vy", "😀x\r\ny\x0c".toList⟩
    let es : List Edit := [⟨2, 4, ['\r']⟩, ⟨3, 3, ['\n', 'é']⟩, ⟨1, 2, []⟩, ⟨6, 6, ['z']⟩]
    Edit.History Edit.Valid d.text es ∧ Edit.History Edit.InReach d.text es ∧
      d.follow d.text es = .ok ⟨d.uri, "😀\r\néy\x0cz".toList⟩ := by
  intro d es
  have hvalid : Edit.History Edit.Valid d.text es := by
    refine ⟨⟨?_, ?_, ?_, ?_⟩, ⟨?_, ?_, ?_, ?_⟩, ⟨?_, ?_, ?_, ?_⟩, ⟨?_, ?_, ?_, ?_⟩, trivial⟩
    all_goals decide
  have hreach : Edit.History Edit.InReach d.text es := by
    refine ⟨?_, ?_, ?_, ?_, trivial⟩
    all_goals decide
  exact ⟨hvalid, hreach, (follows_edits d).1 es hvalid hreach⟩

/-- The edit of the second line of an editor's text that a line tabulation precedes lands on the
first. -/
theorem applyChange_behind_separator :
    let d : Document := ⟨"file:///a.vy", "a\x0bb\nc".toList⟩
    let e : Edit := ⟨4, 5, ['X']⟩
    e.Valid d.text ∧ e.range d.text = ⟨⟨1, 0⟩, ⟨1, 1⟩⟩ ∧
      e.apply d.text = "a\x0bb\nX".toList ∧
      (d.applyChange (some (e.range d.text)) e.replacement).map Document.text =
        .ok "a\x0bX\nc".toList := by
  refine ⟨⟨?_, ?_, ?_, ?_⟩, ?_, ?_, rfl⟩
  all_goals decide

end Document

end Vyper
