import Vyper.Proofs.CursorWords
import Vyper.Proofs.Slices
import Mathlib.Data.List.Forall2

/-!
# Lines of the editor and rows of the front end

The front end counts rows by line feeds; a document ends its lines at other breaks too.
`Lines.strays` counts the breaks that end a line and no row: a document has exactly that many lines
more than rows (`Lines.count_eq_add_strays`), and a place lies as many lines below its row as there
are stray breaks in front of it (`Document.length_finished_eq`).

`Document.lines_agree_iff` puts this together. The two ways of counting agree on the whole text
exactly when no break is stray, and a row and column is the position of the character it names
exactly when none stands in front of that character.
-/

namespace Vyper

namespace Lines

/-- The breaks of a text that end a line and no row. -/
def strays : List Char → Nat
  | [] => 0
  | c :: cs => (if c ≠ '\n' ∧ endsAfter isBreak c cs then 1 else 0) + strays cs

/-- A document counts one line more for each stray break. -/
theorem count_eq_add_strays (text : List Char) : count text = Rows.count text + strays text := by
  rw [count, ofText_eq_split, Rows.count]
  induction text with
  | nil => rfl
  | cons c cs ih =>
    have hlen := length_prepend [c] (split_ne_nil isBreak cs)
    by_cases hc : c = '\n'
    · subst hc
      rw [split, if_pos (endsAfter_lineFeed (by decide) cs), Rows.ofText, if_pos rfl, strays,
        if_neg (by simp), List.length_cons, List.length_cons, ih]
      omega
    · obtain ⟨row, rows, hrows⟩ := List.exists_cons_of_ne_nil (Rows.ofText_ne_nil cs)
      rw [Rows.ofText_cons_of_ne hc hrows, split, strays]
      rw [hrows] at ih
      by_cases hends : endsAfter isBreak c cs
      · rw [if_pos hends, if_pos ⟨hc, hends⟩, List.length_cons, ih]
        simp only [List.length_cons]
        omega
      · rw [if_neg hends, if_neg (fun h => hends h.2), hlen, ih]
        simp

/-- The break of a row. -/
def isLineFeed (c : Char) : Bool := c == '\n'

theorem endsAfter_isLineFeed {c : Char} (hc : c ≠ '\n') (rest : List Char) :
    endsAfter isLineFeed c rest = false := by
  have hfeed : isLineFeed c = false := by simpa [isLineFeed] using hc
  rw [endsAfter, hfeed, Bool.false_and]

/-- Without stray breaks, lines end at line feeds alone. -/
theorem split_eq_of_strays {text : List Char} (h : strays text = 0) :
    split isBreak text = split isLineFeed text := by
  induction text with
  | nil => rfl
  | cons c cs ih =>
    rw [strays, Nat.add_eq_zero_iff] at h
    have hends : endsAfter isBreak c cs = endsAfter isLineFeed c cs := by
      by_cases hc : c = '\n'
      · subst hc
        rw [endsAfter_lineFeed (by decide), endsAfter_lineFeed (by decide)]
      · have hstray : ¬ (c ≠ '\n' ∧ endsAfter isBreak c cs) := by
          intro hstray
          rw [if_pos hstray] at h
          cases h.1
        rw [endsAfter_isLineFeed hc]
        simpa [hc] using hstray
    rw [split, split, hends, ih h.2]

/-- A row is a line that ends at a line feed, without the feed. -/
theorem forall₂_split_isLineFeed (text : List Char) :
    List.Forall₂ (fun line row => '\n' ∉ row ∧ (line = row ∨ line = row ++ ['\n']))
      (split isLineFeed text) (Rows.ofText text) := by
  induction text with
  | nil => exact .cons ⟨by simp, .inl rfl⟩ .nil
  | cons c cs ih =>
    by_cases hc : c = '\n'
    · subst hc
      rw [split, if_pos (endsAfter_lineFeed (by decide) cs), Rows.ofText, if_pos rfl]
      exact .cons ⟨by simp, .inr rfl⟩ ih
    · obtain ⟨row, rows, hrows⟩ := List.exists_cons_of_ne_nil (Rows.ofText_ne_nil cs)
      rw [Rows.ofText_cons_of_ne hc hrows, split, endsAfter_isLineFeed hc]
      rw [hrows] at ih
      cases hsplit : split isLineFeed cs with
      | nil => exact absurd hsplit (split_ne_nil isLineFeed cs)
      | cons line lines =>
        rw [hsplit] at ih
        obtain ⟨⟨hrow, hline⟩, hrest⟩ := List.forall₂_cons.mp ih
        refine .cons ⟨by simp [hrow, Ne.symm hc], ?_⟩ hrest
        rcases hline with rfl | rfl
        · exact .inl rfl
        · exact .inr rfl

/-- What a line says is its row without carriage returns at the end. -/
theorem content_eq_stripReturns {line row : List Char} (hrow : '\n' ∉ row)
    (h : line = row ∨ line = row ++ ['\n']) : content line = Rows.stripReturns row := by
  have hdrop : ∀ cs : List Char, '\n' ∉ cs →
      cs.dropWhile isEditorBreak = cs.dropWhile (· == '\r') := by
    intro cs
    induction cs with
    | nil => exact fun _ => rfl
    | cons c cs ih =>
      intro hcs
      simp only [List.mem_cons, not_or] at hcs
      have hc : isEditorBreak c = (c == '\r') := by simp [isEditorBreak, Ne.symm hcs.1]
      rw [List.dropWhile_cons, List.dropWhile_cons, hc, ih hcs.2]
  have hcontent : content row = Rows.stripReturns row :=
    congrArg List.reverse (hdrop row.reverse (by simpa using hrow))
  rcases h with rfl | rfl
  · exact hcontent
  · rw [content_concat (by decide), hcontent]

/-- Without stray breaks, the lines say what the rows do. -/
theorem map_content_of_strays {text : List Char} (h : strays text = 0) :
    (ofText text).map content = (Rows.ofText text).map Rows.stripReturns := by
  rw [ofText_eq_split, split_eq_of_strays h]
  refine List.forall₂_eq_eq_eq ▸ ?_
  rw [List.forall₂_map_left_iff, List.forall₂_map_right_iff]
  exact (forall₂_split_isLineFeed text).imp fun line row hrow =>
    content_eq_stripReturns hrow.1 hrow.2

/-- The first line of a text that starts with a break says nothing. -/
theorem content_first {c : Char} {cs line : List Char} {more : List (List Char)}
    (hc : isEditorBreak c = true) (h : split isBreak (c :: cs) = line :: more) :
    content line = [] := by
  have hbreak := isBreak_of_isEditorBreak hc
  by_cases hpair : c = '\r' ∧ cs.head? = some '\n'
  · obtain ⟨rfl, hhead⟩ := hpair
    have hfeed : isBreak '\n' = true := by decide
    obtain ⟨rest, hfirst⟩ := exists_cons_lineFeed hfeed hhead
    rw [split, endsAfter, hhead, if_neg (by simp), hfirst] at h
    cases h
    decide
  · rw [split, endsAfter_eq hpair, if_pos hbreak] at h
    cases h
    exact content_concat hc []

end Lines

namespace Rows

/-- A text cut at a row: what stands above the row, the row, and its line feed with what is below.
-/
structure Cut (text : List Char) (line : Nat) (above row below : List Char) : Prop where
  text_eq : text = above ++ row ++ below
  start_eq : start text line = above.length
  count_above : above.count '\n' = line
  last_above : ∀ c ∈ above.getLast?, c = '\n'
  not_mem : '\n' ∉ row
  head_below : ∀ c ∈ below.head?, c = '\n'

theorem start_succ {text row : List Char} {rows : List (List Char)} (h : ofText text = row :: rows)
    (line : Nat) :
    start text (line + 1) = row.length + 1 + ((rows.take line).map (·.length + 1)).sum := by
  rw [start, h, List.take_succ_cons, List.map_cons, ← List.sum_eq_foldl, List.sum_cons]

/-- A character in front of a cut stands above the row. -/
theorem Cut.cons {c : Char} {text above row below : List Char} {line line' : Nat}
    (h : Cut text line above row below) (hc : above = [] → c = '\n')
    (hstart : start (c :: text) line' = above.length + 1)
    (hcount : (c :: above).count '\n' = line') :
    Cut (c :: text) line' (c :: above) row below := by
  refine ⟨?_, hstart, hcount, ?_, h.not_mem, h.head_below⟩
  · rw [h.text_eq]
    rfl
  · intro d hlast
    rw [List.getLast?_cons] at hlast
    cases habove : above.getLast? with
    | none =>
      rw [habove] at hlast
      cases hlast
      exact hc (List.getLast?_eq_none_iff.mp habove)
    | some e =>
      rw [habove] at hlast
      cases hlast
      exact h.last_above _ habove

theorem exists_cut {text row : List Char} {line : Nat} (h : (ofText text)[line]? = some row) :
    ∃ above below, Cut text line above row below := by
  induction text generalizing line row with
  | nil =>
    cases line with
    | zero =>
      cases h
      exact ⟨[], [], rfl, rfl, rfl, nofun, by simp, nofun⟩
    | succ line => cases h
  | cons c cs ih =>
    by_cases hc : c = '\n'
    · subst hc
      have htext : ofText ('\n' :: cs) = [] :: ofText cs := by rw [ofText, if_pos rfl]
      rw [htext] at h
      cases line with
      | zero =>
        cases h
        exact ⟨[], '\n' :: cs, rfl, rfl, rfl, nofun, by simp, by simp⟩
      | succ line =>
        obtain ⟨above, below, hcut⟩ := ih h
        have hstart := hcut.start_eq
        rw [start, ← List.sum_eq_foldl] at hstart
        refine ⟨'\n' :: above, below, hcut.cons (fun _ => rfl) ?_ ?_⟩
        · rw [start_succ htext, hstart, List.length_nil]
          omega
        · rw [List.count_cons_self, hcut.count_above]
    · obtain ⟨first, rows, hrows⟩ := List.exists_cons_of_ne_nil (ofText_ne_nil cs)
      have htext := ofText_cons_of_ne hc hrows
      rw [htext] at h
      cases line with
      | zero =>
        -- The first row gets the character itself.
        cases h
        have hfirst : (ofText cs)[0]? = some first := by rw [hrows]; rfl
        obtain ⟨above, below, hcut⟩ := ih hfirst
        obtain rfl : above = [] := List.length_eq_zero_iff.1 hcut.start_eq.symm
        refine ⟨[], below, ?_, rfl, rfl, nofun, ?_, hcut.head_below⟩
        · rw [hcut.text_eq]
          rfl
        · simp [hcut.not_mem, Ne.symm hc]
      | succ line =>
        have hrow : (ofText cs)[line + 1]? = some row := by rw [hrows]; exact h
        obtain ⟨above, below, hcut⟩ := ih hrow
        have hstart := hcut.start_eq
        rw [start_succ hrows] at hstart
        have hne : above ≠ [] := by
          rintro rfl
          simp at hstart
        refine ⟨c :: above, below, hcut.cons (fun hnil => absurd hnil hne) ?_ ?_⟩
        · rw [start_succ htext, List.length_cons, ← hstart]
          omega
        · rw [List.count_cons_of_ne hc, hcut.count_above]

theorem count_eq (text : List Char) : count text = text.count '\n' + 1 := by
  rw [count]
  induction text with
  | nil => rfl
  | cons c cs ih =>
    by_cases hc : c = '\n'
    · subst hc
      rw [ofText, if_pos rfl, List.length_cons, ih, List.count_cons_self]
    · obtain ⟨row, rows, hrows⟩ := List.exists_cons_of_ne_nil (ofText_ne_nil cs)
      rw [ofText_cons_of_ne hc hrows, List.count_cons_of_ne hc, ← ih, hrows]
      rfl

/-- Behind what a row says, there are only the carriage returns at its end. -/
theorem exists_eq_stripReturns_append (row : List Char) :
    ∃ returns, row = stripReturns row ++ returns ∧ ∀ c ∈ returns, c = '\r' := by
  refine ⟨(row.reverse.takeWhile (· == '\r')).reverse, ?_, fun c hc => ?_⟩
  · rw [stripReturns, ← List.reverse_append, List.takeWhile_append_dropWhile, List.reverse_reverse]
  · have hall := List.all_eq_true.mp (List.all_takeWhile (p := (· == '\r')) (l := row.reverse))
    simpa using hall c (List.mem_reverse.mp hc)

theorem getLast?_stripReturns (row : List Char) : (stripReturns row).getLast? ≠ some '\r' := by
  rw [stripReturns, List.getLast?_reverse]
  intro h
  have hhead := List.head?_dropWhile_not (· == '\r') row.reverse
  rw [h] at hhead
  cases hhead

section Place

variable {text above row below : List Char} {line k : Nat}

theorem length_stripReturns_le (row : List Char) : (stripReturns row).length ≤ row.length := by
  obtain ⟨returns, hrow, -⟩ := exists_eq_stripReturns_append row
  have hlength := congrArg List.length hrow
  rw [List.length_append] at hlength
  omega

/-- A row and column stands for a place in the row, at the column or at the end of what the row
says. -/
theorem exists_cut_of_offset? {column offset : Nat} (h : offset? text line column = some offset) :
    ∃ above row below k, Cut text line above row below ∧ k ≤ (stripReturns row).length ∧
      (k = column ∨ k = (stripReturns row).length ∧ k ≤ column) ∧
      offset = (above ++ row.take k).length := by
  obtain ⟨stripped, hrow, rfl⟩ := Option.map_eq_some_iff.mp h
  obtain ⟨row, hline, rfl⟩ := Option.map_eq_some_iff.mp hrow
  obtain ⟨above, below, hcut⟩ := exists_cut hline
  have hmin : column.min (stripReturns row).length ≤ (stripReturns row).length :=
    Nat.min_le_right column _
  refine ⟨above, row, below, column.min (stripReturns row).length, hcut, hmin, ?_, ?_⟩
  · rcases Nat.le_total column (stripReturns row).length with hle | hle
    · exact .inl (Nat.min_eq_left hle)
    · exact .inr ⟨Nat.min_eq_right hle, Nat.min_le_left column _⟩
  · rw [hcut.start_eq, List.length_append,
      List.length_take_of_le (Nat.le_trans hmin (length_stripReturns_le row))]

theorem Cut.text_eq_take (h : Cut text line above row below) (k : Nat) :
    text = (above ++ row.take k) ++ (row.drop k ++ below) := by
  rw [h.text_eq, List.append_assoc above, List.append_assoc above, ← List.append_assoc (row.take k),
    List.take_append_drop]

theorem Cut.count_take (h : Cut text line above row below) (k : Nat) :
    (above ++ row.take k).count '\n' = line := by
  have hrow : (row.take k).count '\n' = 0 :=
    List.count_eq_zero.mpr fun hmem => h.not_mem (List.mem_of_mem_take hmem)
  rw [List.count_append, h.count_above, hrow, Nat.add_zero]

open Lines in
theorem Cut.boundary (h : Cut text line above row below) (hk : k ≤ (stripReturns row).length) :
    Boundary (above ++ row.take k) (row.drop k ++ below) := by
  rintro ⟨hlast, hhead⟩
  obtain ⟨returns, hrow, hreturns⟩ := exists_eq_stripReturns_append row
  cases hdrop : row.drop k with
  | cons c cs =>
    rw [hdrop] at hhead
    cases hhead
    exact h.not_mem (List.mem_of_mem_drop (hdrop ▸ List.mem_cons_self))
  | nil =>
    -- Nothing is left of the row, so it has no carriage return at its end.
    have hlength := congrArg List.length hrow
    rw [List.length_append] at hlength
    have hle := List.drop_eq_nil_iff.mp hdrop
    obtain rfl : returns = [] := List.length_eq_zero_iff.mp (by omega)
    rw [List.append_nil] at hrow
    rw [List.take_of_length_le hle, List.getLast?_append] at hlast
    cases hrowlast : row.getLast? with
    | none =>
      rw [hrowlast] at hlast
      exact absurd (h.last_above _ hlast) (by decide)
    | some c =>
      rw [hrowlast] at hlast
      cases hlast
      exact getLast?_stripReturns row (hrow ▸ hrowlast)

open Lines in
/-- Without stray breaks in front of it, a place is as far into its line as into its row. -/
theorem Cut.current_eq (h : Cut text line above row below)
    (hstrays : strays (above ++ row.take k) = 0) :
    current isBreak (above ++ row.take k) = row.take k := by
  have hrow : ∀ c ∈ row.take k, isLineFeed c = false := by
    intro c hc
    have hne : c ≠ '\n' := fun heq => h.not_mem (heq ▸ List.mem_of_mem_take hc)
    simpa [isLineFeed] using hne
  have hb : Boundary above (row.take k) := by
    rintro ⟨-, hhead⟩
    exact absurd (hrow _ (List.mem_of_mem_head? hhead)) (by decide)
  have habove : current isLineFeed above = [] := by
    cases hlast : (current isLineFeed above).getLast? with
    | none => exact List.getLast?_eq_none_iff.mp hlast
    | some c =>
      obtain rfl := h.last_above c (mem_getLast?_of_current hlast)
      exact absurd (break_eq_false_of_mem_current rfl (List.mem_of_getLast? hlast)) (by decide)
  rw [current, split_eq_of_strays hstrays, ← current, current_append hb hrow, habove,
    List.nil_append]

end Place

end Rows

namespace Document

open Lines

variable {d : Document}

theorem lineCount_eq (d : Document) : d.lineCount = Rows.count d.text + strays d.text :=
  count_eq_add_strays d.text

/-- A place lies below its row by the stray breaks in front of it. -/
theorem length_finished_eq (pre : List Char) :
    (finished isBreak pre).length = pre.count '\n' + strays pre := by
  have hcount := count_eq_add_strays pre
  rw [count, ofText_eq_split, split_eq, List.length_append, List.length_singleton, Rows.count_eq]
    at hcount
  omega

/-- The two tables of lines are one and the same exactly when no break is stray. -/
theorem lines_eq_iff :
    (d.lineCount = Rows.count d.text ∧ ∀ i, d.line? i = Rows.row? d.text i) ↔
      strays d.text = 0 := by
  have hcount := d.lineCount_eq
  constructor
  · rintro ⟨heq, -⟩
    omega
  · intro hstrays
    refine ⟨by omega, fun i => ?_⟩
    rw [line?, Lines.line?, Rows.row?, ← List.getElem?_map, ← List.getElem?_map,
      map_content_of_strays hstrays]

theorem line_utf16Position (p : Position) : (d.utf16Position p).line = p.line := by
  rw [utf16Position]
  split <;> rfl

theorem utf16Position_of_line {p : Position} {line : List Char} (h : d.line? p.line = some line) :
    d.utf16Position p = ⟨p.line, Utf16.ofCharIndex line p.character⟩ := by
  rw [utf16Position, h]

/-- Behind the end of what its row says, a line says no more. -/
theorem content_behind_row {row below line : List Char} {more : List (List Char)}
    (hbelow : ∀ c ∈ below.head?, c = '\n')
    (hpost : split isBreak (row.drop (Rows.stripReturns row).length ++ below) = line :: more) :
    content line = [] := by
  obtain ⟨returns, hrow, hreturns⟩ := Rows.exists_eq_stripReturns_append row
  have hdrop : row.drop (Rows.stripReturns row).length = returns := by
    have hcut := congrArg (List.drop (Rows.stripReturns row).length) hrow
    rwa [List.drop_left] at hcut
  rw [hdrop] at hpost
  cases returns with
  | cons c cs =>
    obtain rfl := hreturns c List.mem_cons_self
    exact content_first (by decide) hpost
  | nil =>
    cases below with
    | nil =>
      cases hpost
      rfl
    | cons c cs =>
      obtain rfl := hbelow c rfl
      exact content_first (by decide) hpost

theorem utf16Position_eq_iff {line column offset : Nat}
    (h : Rows.offset? d.text line column = some offset) :
    d.offset (d.positionAt offset) = .ok offset ∧
      (d.utf16Position ⟨line, column⟩ = d.positionAt offset ↔ strays (d.text.take offset) = 0) := by
  obtain ⟨above, row, below, k, hcut, hk, hcolumn, rfl⟩ := Rows.exists_cut_of_offset? h
  have htext := hcut.text_eq_take k
  have hb := hcut.boundary hk
  have hline := length_finished_eq (above ++ row.take k)
  rw [hcut.count_take] at hline
  refine ⟨offset_positionAt htext hb, ?_⟩
  rw [positionAt_length htext, htext, List.take_left]
  constructor
  · intro heq
    have hlines := congrArg Position.line heq
    rw [line_utf16Position, hline] at hlines
    dsimp only at hlines
    omega
  · intro hstrays
    obtain ⟨rest, more, hpost⟩ :=
      List.exists_cons_of_ne_nil (split_ne_nil isBreak (row.drop k ++ below))
    obtain ⟨-, hcurrent⟩ := split_current htext hb hpost
    rw [hline, hstrays, Nat.add_zero] at hcurrent
    have hsays : d.line? line = some (row.take k ++ content rest) := by
      rw [line?, Lines.line?, ofText_eq_split, hcurrent, Option.map_some, content_current,
        hcut.current_eq hstrays]
    have htake : (row.take k ++ content rest).take column = row.take k := by
      have hlength : (row.take k).length = k :=
        List.length_take_of_le (Nat.le_trans hk (Rows.length_stripReturns_le row))
      rcases hcolumn with rfl | ⟨rfl, hle⟩
      · rw [List.take_append_of_le_length (Nat.le_of_eq hlength.symm), List.take_take, Nat.min_self]
      · rw [content_behind_row hcut.head_below hpost, List.append_nil,
          List.take_of_length_le (by omega)]
    rw [utf16Position_of_line hsays, hline, hstrays, hcut.current_eq hstrays, Utf16.ofCharIndex,
      htake, Nat.add_zero]

theorem line_advance_origin (text : List Char) :
    (Pos.origin.advance text).line = Rows.count text := by
  obtain ⟨above, last, hends⟩ := Rows.exists_ends text
  have hrows : Rows.ofText (text ++ []) = above ++ [last ++ []] := hends.ofText_append rfl
  rw [List.append_nil] at hrows
  rw [hends.advance_origin, Rows.count, hrows, List.length_append, List.length_singleton]

/-- A row and column of the front end names a place, and is measured as the position of that place
exactly when no break in front of it is stray. -/
def Measures (d : Document) (p : Position) : Prop :=
  ∃ offset, Rows.offset? d.text p.line p.character = some offset ∧
    (d.utf16Position p = d.positionAt offset ↔ strays (d.text.take offset) = 0)

theorem measures_of_line_le {p : Pos} (h : p.line ≤ (Pos.origin.advance d.text).line) :
    d.Measures ⟨p.line - 1, p.col⟩ := by
  rw [line_advance_origin] at h
  have hcount := Rows.count_eq d.text
  have hrow : p.line - 1 < (Rows.ofText d.text).length := show _ < Rows.count d.text by omega
  have hoffset : (Rows.offset? d.text (p.line - 1) p.col).isSome = true := by
    rw [Rows.offset?, Option.isSome_map, Rows.row?, Option.isSome_map,
      List.getElem?_eq_getElem hrow]
    rfl
  obtain ⟨offset, hoffset⟩ := Option.isSome_iff_exists.mp hoffset
  exact ⟨offset, hoffset, (utf16Position_eq_iff hoffset).2⟩

/-- A document has one line more than the front end for each stray break. They have the same lines
exactly when there is none, and a row and column is the position of the place it names exactly when
there is none in front of that place. -/
theorem lines_agree_iff (d : Document) :
    d.lineCount = Rows.count d.text + strays d.text ∧
      ((d.lineCount = Rows.count d.text ∧ ∀ i, d.line? i = Rows.row? d.text i) ↔
        strays d.text = 0) ∧
      ∀ line column offset, Rows.offset? d.text line column = some offset →
        d.offset (d.positionAt offset) = .ok offset ∧
        (d.utf16Position ⟨line, column⟩ = d.positionAt offset ↔
          strays (d.text.take offset) = 0) :=
  ⟨d.lineCount_eq, d.lines_eq_iff, fun _ _ _ h => utf16Position_eq_iff h⟩

/-- In front of a line tabulation, behind a line that ends with two characters. -/
theorem lines_agree_before_tabulation :
    let d : Document := ⟨"file:///a.vy", "#𝐱\r\n𝐱y\x0b\nz".toList⟩
    Rows.offset? d.text 1 2 = some 6 ∧ d.offset (d.positionAt 6) = .ok 6 ∧
      d.utf16Position ⟨1, 2⟩ = d.positionAt 6 := by
  intro d
  have hplace : Rows.offset? d.text 1 2 = some 6 := by decide
  obtain ⟨hoffset, hposition⟩ := d.lines_agree_iff.2.2 1 2 6 hplace
  exact ⟨hplace, hoffset, hposition.mpr (by decide)⟩

/-- Behind one, the document has three lines where there are two rows. Its second line is empty, and
the start of the second row is taken for a place before the line feed. -/
theorem lines_disagree_behind_tabulation :
    let d : Document := ⟨"file:///a.vy", "#\x0b\nx".toList⟩
    d.lineCount = 3 ∧ Rows.count d.text = 2 ∧
      d.line? 1 = some [] ∧ Rows.row? d.text 1 = some ['x'] ∧
      Rows.offset? d.text 1 0 = some 3 ∧ d.offset (d.utf16Position ⟨1, 0⟩) = .ok 2 := by
  decide

end Document

end Vyper
