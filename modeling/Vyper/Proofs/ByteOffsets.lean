import Vyper.Proofs.LineModels
import Mathlib.Data.Prod.Lex

/-!
# Byte offsets and columns

The place of a byte offset and the offset of a place lead back to each other
(`Rows.lineCol_inverse`). Both are measured on the front parts of a text: one ends in a row, some
columns behind the start of that row (`Rows.EndsAt`), and as front parts get longer, bytes and
places grow with them. An offset among the carriage returns at the end of a row comes back as the
end of what the row says.
-/

namespace Vyper

namespace Rows

variable {text above row below before : List Char} {line col k o : Nat}

theorem bytes_eq_sum (text : List Char) : bytes text = (text.map Char.utf8Size).sum :=
  List.sum_eq_foldl.symm

theorem bytes_cons (c : Char) (cs : List Char) : bytes (c :: cs) = c.utf8Size + bytes cs := by
  rw [bytes_eq_sum, bytes_eq_sum, List.map_cons, List.sum_cons]

theorem bytes_append (a b : List Char) : bytes (a ++ b) = bytes a + bytes b := by
  rw [bytes_eq_sum, bytes_eq_sum, bytes_eq_sum, List.map_append, List.sum_append]

theorem bytes_le_of_isPrefix {a b : List Char} (h : a <+: b) : bytes a ≤ bytes b := by
  obtain ⟨rest, rfl⟩ := h
  rw [bytes_append]
  omega

/-- Of two front parts of a text, the one with fewer bytes is not the longer one. -/
theorem length_le_of_bytes_le {a b : List Char} (ha : a <+: text) (hb : b <+: text)
    (h : bytes a ≤ bytes b) : a.length ≤ b.length := by
  by_contra hlt
  obtain ⟨rest, rfl⟩ := List.prefix_of_prefix_length_le hb ha (by omega)
  cases rest with
  | nil => simp at hlt
  | cons c cs =>
    have hpos := c.utf8Size_pos
    rw [bytes_append, bytes_cons] at h
    omega

theorem bytes_take_min (text : List Char) (i j : Nat) :
    bytes (text.take (min i j)) = min (bytes (text.take i)) (bytes (text.take j)) := by
  rcases Nat.le_total i j with hij | hij
  · have hle := bytes_le_of_isPrefix (List.take_prefix_take_left (l := text) hij)
    rw [Nat.min_eq_left hij, Nat.min_eq_left hle]
  · have hle := bytes_le_of_isPrefix (List.take_prefix_take_left (l := text) hij)
    rw [Nat.min_eq_right hij, Nat.min_eq_right hle]

/-- A front part of a text ends in a row, some columns behind its start. -/
structure EndsAt (text before : List Char) (line col : Nat) : Prop where
  isPrefix : before <+: text
  count_eq : before.count '\n' = line
  length_eq : before.length = start text line + col

theorem Cut.endsAt (h : Cut text line above row below) (hk : k ≤ row.length) :
    EndsAt text (above ++ row.take k) line k where
  isPrefix := ⟨_, (h.text_eq_take k).symm⟩
  count_eq := h.count_take k
  length_eq := by rw [List.length_append, List.length_take_of_le hk, h.start_eq]

theorem EndsAt.unique {line' col' : Nat} (h : EndsAt text before line col)
    (h' : EndsAt text before line' col') : (line, col) = (line', col') := by
  obtain rfl : line = line' := h.count_eq.symm.trans h'.count_eq
  have hlength := h.length_eq.symm.trans h'.length_eq
  rw [Nat.add_left_cancel hlength]

/-- A longer front part does not end in an earlier row. -/
theorem EndsAt.line_le {a b : List Char} {line' col' : Nat} (h : EndsAt text a line col)
    (h' : EndsAt text b line' col') (hle : a.length ≤ b.length) : line ≤ line' := by
  have hpart := List.prefix_of_prefix_length_le h.isPrefix h'.isPrefix hle
  have hcount := hpart.sublist.count_le '\n'
  rwa [h.count_eq, h'.count_eq] at hcount

/-- Places come in the order of the text. -/
theorem EndsAt.length_le_iff {a b : List Char} {line' col' : Nat} (h : EndsAt text a line col)
    (h' : EndsAt text b line' col') :
    a.length ≤ b.length ↔ toLex (line, col) ≤ toLex (line', col') := by
  have hlength := h.length_eq
  have hlength' := h'.length_eq
  rw [Prod.Lex.toLex_le_toLex]
  constructor
  · intro hle
    rcases Nat.lt_or_eq_of_le (h.line_le h' hle) with hlt | rfl
    · exact .inl hlt
    · exact .inr ⟨rfl, by dsimp only; omega⟩
  · rintro (hlt | ⟨heq, hle⟩)
    · by_contra hlonger
      have hline := h'.line_le h (by omega)
      dsimp only at hlt
      omega
    · dsimp only at heq hle
      subst heq
      omega

theorem lineColFrom_append (line col : Nat) (before after : List Char) :
    lineColFrom line col (bytes before) (before ++ after) =
      (((⟨line, col⟩ : Pos).advance before).line, ((⟨line, col⟩ : Pos).advance before).col) := by
  induction before generalizing line col with
  | nil => cases after <;> rfl
  | cons c cs ih =>
    have hpos := c.utf8Size_pos
    have hrest : c.utf8Size + bytes cs - c.utf8Size = bytes cs := by omega
    rw [List.cons_append, bytes_cons, lineColFrom, if_neg (by omega), hrest, ih, ih]
    change _ = ((((⟨line, col⟩ : Pos).step c).advance cs).line,
      (((⟨line, col⟩ : Pos).step c).advance cs).col)
    rw [Pos.step]
    split <;> rfl

/-- An offset past the end stands for the end. -/
theorem lineColFrom_min (line col budget : Nat) (text : List Char) :
    lineColFrom line col budget text = lineColFrom line col (min budget (bytes text)) text := by
  induction text generalizing line col budget with
  | nil => rfl
  | cons c cs ih =>
    have hpos := c.utf8Size_pos
    rw [lineColFrom, lineColFrom, bytes_cons]
    by_cases hzero : budget = 0
    · rw [if_pos hzero, if_pos (by omega)]
    · have hpositive : min budget (c.utf8Size + bytes cs) ≠ 0 := by omega
      have hclamp : min (budget - c.utf8Size) (bytes cs) =
          min (min budget (c.utf8Size + bytes cs) - c.utf8Size) (bytes cs) := by
        omega
      rw [if_neg hzero, if_neg hpositive]
      split
      · rw [ih, hclamp, ← ih]
      · rw [ih, hclamp, ← ih]

theorem lineCol_min (text : List Char) (offset : Nat) :
    lineCol text offset = lineCol text (min offset (bytes text)) :=
  lineColFrom_min 0 0 offset text

/-- The place at the end of a front part of a text, and the row it is in. -/
theorem exists_cut_of_isPrefix (h : before <+: text) :
    ∃ line above row below k, (ofText text)[line]? = some row ∧ Cut text line above row below ∧
      k ≤ row.length ∧ before = above ++ row.take k ∧ lineCol text (bytes before) = (line, k) := by
  obtain ⟨after, rfl⟩ := h
  obtain ⟨rowsAbove, last, hends⟩ := exists_ends before
  obtain ⟨row, rows, hrows⟩ := List.exists_cons_of_ne_nil (ofText_ne_nil after)
  have htext := hends.ofText_append hrows
  have hline : (ofText (before ++ after))[rowsAbove.length]? = some (last ++ row) := by
    rw [htext, List.getElem?_append_right (Nat.le_refl _), Nat.sub_self, List.getElem?_cons_zero]
  obtain ⟨above, below, hcut⟩ := exists_cut hline
  have hlength : before.length = (above ++ last).length := by
    have hstart := hcut.start_eq
    rw [start, htext, List.take_left, ← List.sum_eq_foldl] at hstart
    rw [hends.length, hstart, List.length_append]
  have hbefore : before = above ++ last := by
    have heq := hcut.text_eq
    rw [List.append_assoc, List.append_assoc, ← List.append_assoc above] at heq
    exact (List.append_inj heq hlength).1
  refine ⟨rowsAbove.length, above, last ++ row, below, last.length, hline, hcut, by simp, ?_, ?_⟩
  · rw [List.take_left, hbefore]
  · rw [lineCol, lineColFrom_append, hends.advance]
    split
    · next hnil => simp [hnil]
    · simp

theorem byteOffset?_of_cut (hline : (ofText text)[line]? = some row)
    (h : Cut text line above row below) (column : Nat) :
    byteOffset? text line column =
      some (bytes (above ++ row.take (min column (stripReturns row).length))) := by
  have hle : min column (stripReturns row).length ≤ row.length :=
    Nat.le_trans (Nat.min_le_right _ _) (length_stripReturns_le row)
  have htake : text.take (above.length + min column (stripReturns row).length) =
      above ++ row.take (min column (stripReturns row).length) := by
    rw [h.text_eq, List.append_assoc, List.take_length_add_append,
      List.take_append_of_le_length hle]
  rw [byteOffset?, offset?, row?, hline, Option.map_some, Option.map_some, Option.map_some,
    h.start_eq]
  change some (bytes (text.take (above.length + min column _))) = _
  rw [htake]

/-- A byte offset between two characters of a text, or at one of its ends. -/
def IsBoundary (text : List Char) (offset : Nat) : Prop :=
  ∃ before, before <+: text ∧ offset = bytes before

/-- The number of bytes before the end of what a row says. -/
def stop? (text : List Char) (line : Nat) : Option Nat :=
  (row? text line).map fun row => bytes (text.take (start text line)) + bytes row

/-- An offset behind what a row says, among the carriage returns at the end of the row: nothing but
the rest of the row's terminator follows. -/
def InTerminator (text : List Char) (stop offset : Nat) : Prop :=
  ∃ before returns after, text = before ++ returns ++ after ∧ bytes before = stop ∧
    bytes (before ++ returns) = offset ∧ returns ≠ [] ∧ (∀ c ∈ returns, c = '\r') ∧
    ∀ c ∈ after.head?, c = '\r' ∨ c = '\n'

theorem stop?_of_cut (hline : (ofText text)[line]? = some row) (h : Cut text line above row below) :
    stop? text line = some (bytes (above ++ stripReturns row)) := by
  have htake : text.take above.length = above := by
    rw [h.text_eq, List.append_assoc, List.take_left]
  rw [stop?, row?, hline, Option.map_some, Option.map_some, h.start_eq, htake, bytes_append]

theorem take_stripReturns (row : List Char) :
    row.take (stripReturns row).length = stripReturns row := by
  obtain ⟨returns, hrow, -⟩ := exists_eq_stripReturns_append row
  have htake := congrArg (List.take (stripReturns row).length) hrow
  rwa [List.take_left] at htake

/-- Behind what a row says, a place of the row is in its terminator. -/
theorem Cut.inTerminator (h : Cut text line above row below) (hk : k ≤ row.length)
    (hstop : (stripReturns row).length < k) :
    InTerminator text (bytes (above ++ stripReturns row)) (bytes (above ++ row.take k)) := by
  obtain ⟨returns, hrow, hreturns⟩ := exists_eq_stripReturns_append row
  generalize stripReturns row = said at *
  subst hrow
  have htake : (said ++ returns).take k = said ++ returns.take (k - said.length) := by
    rw [List.take_append, List.take_of_length_le (Nat.le_of_lt hstop)]
  rw [List.length_append] at hk
  refine ⟨above ++ said, returns.take (k - said.length), returns.drop (k - said.length) ++ below,
    ?_, rfl, ?_, ?_, ?_, ?_⟩
  · rw [h.text_eq, List.append_assoc _ _ (_ ++ below), ← List.append_assoc _ _ below,
      List.take_append_drop, List.append_assoc, List.append_assoc, List.append_assoc]
  · rw [htake, List.append_assoc]
  · intro hnil
    have hzero := congrArg List.length hnil
    rw [List.length_take, List.length_nil] at hzero
    omega
  · intro c hc
    exact hreturns c (List.mem_of_mem_take hc)
  · intro c hc
    cases hdrop : returns.drop (k - said.length) with
    | nil =>
      rw [hdrop, List.nil_append] at hc
      exact .inr (h.head_below c hc)
    | cons d ds =>
      rw [hdrop] at hc
      cases hc
      exact .inl (hreturns _ (List.mem_of_mem_drop (hdrop ▸ List.mem_cons_self)))

theorem byteOffset?_lineCol (h : IsBoundary text o) :
    (lineCol text o).1 < count text ∧ ∃ stop, stop? text (lineCol text o).1 = some stop ∧
      byteOffset? text (lineCol text o).1 (lineCol text o).2 = some (min o stop) ∧
      (o ≤ stop ∨ InTerminator text stop o) := by
  obtain ⟨before, hbefore, rfl⟩ := h
  obtain ⟨line, above, row, below, k, hline, hcut, hk, rfl, hplace⟩ :=
    exists_cut_of_isPrefix hbefore
  have hmin : bytes (above ++ row.take (min k (stripReturns row).length)) =
      min (bytes (above ++ row.take k)) (bytes (above ++ stripReturns row)) := by
    rw [bytes_append, bytes_append, bytes_append, bytes_take_min, take_stripReturns]
    omega
  rw [hplace]
  refine ⟨(List.getElem?_eq_some_iff.mp hline).1, _, stop?_of_cut hline hcut, ?_, ?_⟩
  · rw [byteOffset?_of_cut hline hcut, hmin]
  · rcases Nat.lt_or_ge (stripReturns row).length k with hlt | hle
    · exact .inr (hcut.inTerminator hk hlt)
    · rw [Nat.min_eq_left hle] at hmin
      exact .inl (by omega)

theorem lineCol_byteOffset? (hline : line < count text) :
    ∃ row, row? text line = some row ∧ ∀ column ≤ row.length, ∃ offset,
      byteOffset? text line column = some offset ∧ lineCol text offset = (line, column) := by
  have hrow := List.getElem?_eq_getElem hline
  obtain ⟨above, below, hcut⟩ := exists_cut hrow
  refine ⟨_, by rw [row?, hrow, Option.map_some], fun column hcolumn => ?_⟩
  refine ⟨_, byteOffset?_of_cut hrow hcut column, ?_⟩
  have hle := Nat.le_trans hcolumn (length_stripReturns_le _)
  rw [Nat.min_eq_left hcolumn]
  have hat := hcut.endsAt hle
  obtain ⟨line', above', row', below', k, -, hcut', hk, hbefore, hplace⟩ :=
    exists_cut_of_isPrefix hat.isPrefix
  have hat' := hcut'.endsAt hk
  rw [← hbefore] at hat'
  rw [hplace, hat'.unique hat]

theorem monotoneOn_lineCol (text : List Char) :
    MonotoneOn (fun offset => toLex (lineCol text offset))
      {offset | IsBoundary text (min offset (bytes text))} := by
  rintro o ⟨before, hbefore, ho⟩ o' ⟨before', hbefore', ho'⟩ hle
  obtain ⟨line, above, row, below, k, -, hcut, hk, rfl, hplace⟩ := exists_cut_of_isPrefix hbefore
  obtain ⟨line', above', row', below', k', -, hcut', hk', rfl, hplace'⟩ :=
    exists_cut_of_isPrefix hbefore'
  dsimp only
  rw [lineCol_min, ho, hplace, lineCol_min text o', ho', hplace',
    ← (hcut.endsAt hk).length_le_iff (hcut'.endsAt hk')]
  exact length_le_of_bytes_le hbefore hbefore' (by omega)

theorem exists_cut_of_byteOffset? {column : Nat} (h : byteOffset? text line column = some o) :
    ∃ above row below, (ofText text)[line]? = some row ∧ Cut text line above row below ∧
      o = bytes (above ++ row.take (min column (stripReturns row).length)) := by
  obtain ⟨_, hoffset, -⟩ := Option.map_eq_some_iff.mp h
  obtain ⟨_, hrow, -⟩ := Option.map_eq_some_iff.mp hoffset
  obtain ⟨row, hline, -⟩ := Option.map_eq_some_iff.mp hrow
  obtain ⟨above, below, hcut⟩ := exists_cut hline
  rw [byteOffset?_of_cut hline hcut] at h
  exact ⟨above, row, below, hline, hcut, (Option.some.inj h).symm⟩

theorem byteOffset?_mono {p q : Nat × Nat} {offset offset' : Nat}
    (hp : byteOffset? text p.1 p.2 = some offset) (hq : byteOffset? text q.1 q.2 = some offset')
    (h : toLex p ≤ toLex q) : offset ≤ offset' := by
  obtain ⟨above, row, below, hline, hcut, rfl⟩ := exists_cut_of_byteOffset? hp
  obtain ⟨above', row', below', hline', hcut', rfl⟩ := exists_cut_of_byteOffset? hq
  have hle := Nat.le_trans (Nat.min_le_right p.2 _) (length_stripReturns_le row)
  have hle' := Nat.le_trans (Nat.min_le_right q.2 _) (length_stripReturns_le row')
  have hplaces : toLex (p.1, min p.2 (stripReturns row).length) ≤
      toLex (q.1, min q.2 (stripReturns row').length) := by
    rw [Prod.Lex.toLex_le_toLex] at h ⊢
    rcases h with hlt | ⟨heq, hcolumn⟩
    · exact .inl hlt
    · rw [heq, hline'] at hline
      cases hline
      refine .inr ⟨heq, ?_⟩
      dsimp only
      omega
  have hends := hcut.endsAt hle
  have hends' := hcut'.endsAt hle'
  have hlength := (hends.length_le_iff hends').mpr hplaces
  exact bytes_le_of_isPrefix
    (List.prefix_of_prefix_length_le hends.isPrefix hends'.isPrefix hlength)

/-- Every offset between characters is in a row, and the place found for it leads back to it, or to
the end of what the row says if the offset is in the terminator behind that. Every place on what a
row says has an offset, which leads back to it. Neither map goes backwards: not from an offset to a
later one, the end standing for all that are past it, and not from a place to a later one. -/
theorem lineCol_inverse (text : List Char) :
    (∀ offset, IsBoundary text offset →
      (lineCol text offset).1 < count text ∧
      ∃ stop, stop? text (lineCol text offset).1 = some stop ∧
        byteOffset? text (lineCol text offset).1 (lineCol text offset).2 = some (min offset stop) ∧
        (offset ≤ stop ∨ InTerminator text stop offset)) ∧
    (∀ line < count text, ∃ row, row? text line = some row ∧ ∀ column ≤ row.length, ∃ offset,
      byteOffset? text line column = some offset ∧ lineCol text offset = (line, column)) ∧
    MonotoneOn (fun offset => toLex (lineCol text offset))
      {offset | IsBoundary text (min offset (bytes text))} ∧
    ∀ (p q : Nat × Nat) (offset offset' : Nat), byteOffset? text p.1 p.2 = some offset →
      byteOffset? text q.1 q.2 = some offset' → toLex p ≤ toLex q → offset ≤ offset' :=
  ⟨fun _ => byteOffset?_lineCol, fun _ => lineCol_byteOffset?, monotoneOn_lineCol text,
    fun _ _ _ _ => byteOffset?_mono⟩

/-- A letter of two bytes, two carriage returns, and a second row with a character of four. -/
def returned : List Char := ['é', '\r', '\r', '\n', '😀', 'b']

theorem lineCol_inverse_returned :
    IsBoundary returned 3 ∧ lineCol returned 3 = (0, 2) ∧ stop? returned 0 = some 2 ∧
      byteOffset? returned 0 2 = some 2 ∧ InTerminator returned 2 3 ∧
      byteOffset? returned 1 1 = some 9 ∧ lineCol returned 9 = (1, 1) := by
  obtain ⟨hoffsets, hplaces, -⟩ := lineCol_inverse returned
  have hboundary : IsBoundary returned 3 := ⟨['é', '\r'], by decide, by decide⟩
  have hplace : lineCol returned 3 = (0, 2) := by decide
  have hsaid : stop? returned 0 = some 2 := by decide
  obtain ⟨-, stop, hstop, hback, hinside⟩ := hoffsets 3 hboundary
  rw [hplace] at hstop hback
  obtain rfl : 2 = stop := Option.some.inj (hsaid.symm.trans hstop)
  obtain ⟨row, hrow, hcolumns⟩ := hplaces 1 (by decide)
  obtain rfl : ['😀', 'b'] = row := Option.some.inj hrow
  obtain ⟨offset, hoffset, hforth⟩ := hcolumns 1 (by decide)
  obtain rfl : 9 = offset := Option.some.inj hoffset
  exact ⟨hboundary, hplace, hsaid, hback, hinside.resolve_left (by decide), hoffset, hforth⟩

end Rows

end Vyper
