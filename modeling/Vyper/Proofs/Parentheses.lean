import Vyper.Editor.LineCursor
import Vyper.Proofs.Lexing

/-!
# Parentheses in a line

A cursor finds its way in a line by counting parentheses, to the left and to the right. `Matched`
says what is counted: texts in which every parenthesis has its partner. Each scan stops at the first
parenthesis that has none, so the one left of a cursor and the one that closes it have matched text
between them (`unmatchedOpen_eq_some_iff`, `matchingClose_eq_some_iff`), and the whole call around
the cursor is matched (`expressionAt_innermost`), whatever the rest of the line looks like.
-/

namespace Vyper.LineCursor

/-- A text in which every parenthesis has its partner. -/
inductive Matched : List Char → Prop where
  | nil : Matched []
  | other {c : Char} {cs : List Char} : c ≠ '(' → c ≠ ')' → Matched cs → Matched (c :: cs)
  | pair {inner rest : List Char} : Matched inner → Matched rest →
      Matched ('(' :: (inner ++ ')' :: rest))

/-- How many parentheses are open behind a text, if it closes none that was not open. -/
def openBehind : Nat → List Char → Option Nat
  | depth, [] => some depth
  | depth, c :: cs =>
    if c = '(' then openBehind (depth + 1) cs
    else if c = ')' then
      match depth with
      | 0 => none
      | depth + 1 => openBehind depth cs
    else openBehind depth cs

variable {c : Char} {cs text inner rest row : List Char} {d e index left right : Nat}

@[simp] theorem openBehind_nil (d : Nat) : openBehind d [] = some d := rfl

@[simp] theorem openBehind_open (d : Nat) (cs : List Char) :
    openBehind d ('(' :: cs) = openBehind (d + 1) cs := by
  simp [openBehind]

@[simp] theorem openBehind_close (d : Nat) (cs : List Char) :
    openBehind (d + 1) (')' :: cs) = openBehind d cs := by
  simp [openBehind]

@[simp] theorem openBehind_zero_close (cs : List Char) : openBehind 0 (')' :: cs) = none := by
  simp [openBehind]

theorem openBehind_other (hopen : c ≠ '(') (hclose : c ≠ ')') (d : Nat) (cs : List Char) :
    openBehind d (c :: cs) = openBehind d cs := by
  simp [openBehind, hopen, hclose]

theorem openBehind_append (d : Nat) (text rest : List Char) :
    openBehind d (text ++ rest) = (openBehind d text).bind (openBehind · rest) := by
  fun_induction openBehind d text with
  | case1 => rfl
  | case2 d cs ih => rw [List.cons_append, openBehind_open, ih]
  | case3 cs => rw [List.cons_append, openBehind_zero_close, Option.bind_none]
  | case4 cs _ d ih => rw [List.cons_append, openBehind_close, ih]
  | case5 d c cs hopen hclose ih => rw [List.cons_append, openBehind_other hopen hclose, ih]

/-! ### Matched texts -/

theorem Matched.openBehind_eq (h : Matched text) (d : Nat) : openBehind d text = some d := by
  induction h generalizing d with
  | nil => rfl
  | other hopen hclose _ ih => rw [openBehind_other hopen hclose, ih]
  | pair _ _ hinner hrest =>
    rw [openBehind_open, openBehind_append, hinner, Option.bind_some, openBehind_close, hrest]

/-- A text that closes a parenthesis has matched text before it does. -/
theorem exists_close_of_openBehind (h : openBehind (d + 1) text = some e) (he : e ≤ d) :
    ∃ inner rest, text = inner ++ ')' :: rest ∧ Matched inner ∧ openBehind d rest = some e := by
  induction hn : text.length using Nat.strongRecOn generalizing text d with
  | ind n ih =>
    subst hn
    cases text with
    | nil =>
      cases h
      omega
    | cons c cs =>
      by_cases hopen : c = '('
      · subst hopen
        rw [openBehind_open] at h
        -- The parenthesis that is opened here is closed first.
        obtain ⟨inner, rest, rfl, hinner, hrest⟩ := ih cs.length (by simp) h (by omega) rfl
        obtain ⟨more, last, rfl, hmore, hlast⟩ := ih rest.length (by simp; omega) hrest he rfl
        exact ⟨'(' :: (inner ++ ')' :: more), last, by simp, .pair hinner hmore, hlast⟩
      · by_cases hclose : c = ')'
        · subst hclose
          rw [openBehind_close] at h
          exact ⟨[], cs, rfl, .nil, h⟩
        · rw [openBehind_other hopen hclose] at h
          obtain ⟨inner, rest, rfl, hinner, hrest⟩ := ih cs.length (by simp) h he rfl
          exact ⟨c :: inner, rest, rfl, .other hopen hclose hinner, hrest⟩

theorem matched_of_openBehind (h : openBehind 0 text = some 0) : Matched text := by
  induction hn : text.length using Nat.strongRecOn generalizing text with
  | ind n ih =>
    subst hn
    cases text with
    | nil => exact .nil
    | cons c cs =>
      by_cases hopen : c = '('
      · subst hopen
        rw [openBehind_open] at h
        obtain ⟨inner, rest, rfl, hinner, hrest⟩ := exists_close_of_openBehind h (Nat.le_refl 0)
        exact .pair hinner (ih rest.length (by simp; omega) hrest rfl)
      · by_cases hclose : c = ')'
        · subst hclose
          rw [openBehind_zero_close] at h
          cases h
        · rw [openBehind_other hopen hclose] at h
          exact .other hopen hclose (ih cs.length (by simp) h rfl)

theorem matched_iff : Matched text ↔ openBehind 0 text = some 0 :=
  ⟨fun h => h.openBehind_eq 0, matched_of_openBehind⟩

instance (text : List Char) : Decidable (Matched text) := decidable_of_iff' _ matched_iff

theorem Matched.append (h : Matched text) (h' : Matched rest) : Matched (text ++ rest) := by
  rw [matched_iff, openBehind_append, h.openBehind_eq, Option.bind_some, h'.openBehind_eq]

/-- A text that is matched up to a closing parenthesis is not matched behind it. -/
theorem Matched.not_append_close (h : Matched text) (rest : List Char) :
    ¬ Matched (text ++ ')' :: rest) := by
  rw [matched_iff, openBehind_append, h.openBehind_eq, Option.bind_some, openBehind_zero_close]
  simp

theorem Matched.enclose (h : Matched text) : Matched ('(' :: (text ++ [')'])) :=
  .pair h .nil

theorem matched_of_forall (h : ∀ c ∈ text, c ≠ '(' ∧ c ≠ ')') : Matched text := by
  induction text with
  | nil => exact .nil
  | cons c cs ih =>
    obtain ⟨⟨hopen, hclose⟩, hcs⟩ := List.forall_mem_cons.mp h
    exact .other hopen hclose (ih hcs)

/-! ### The scans -/

/-- The scan to the right goes past text that closes what was open. -/
theorem closeDistance_append (h : openBehind d inner = some 0) (rest : List Char) :
    closeDistance d (inner ++ ')' :: rest) = some inner.length := by
  fun_induction openBehind d inner with
  | case1 d =>
    cases h
    simp [closeDistance]
  | case2 d cs ih => simp [closeDistance, ih h]
  | case3 => cases h
  | case4 cs _ d ih => simp [closeDistance, ih h]
  | case5 d c cs hopen hclose ih => simp [closeDistance, hopen, hclose, ih h]

theorem exists_of_closeDistance {n : Nat} (h : closeDistance d text = some n) :
    ∃ inner rest, text = inner ++ ')' :: rest ∧ inner.length = n ∧ openBehind d inner = some 0 := by
  fun_induction closeDistance d text generalizing n with
  | case1 => cases h
  | case2 d cs ih =>
    obtain ⟨m, hm, rfl⟩ := Option.map_eq_some_iff.mp h
    obtain ⟨inner, rest, rfl, rfl, hinner⟩ := ih hm
    exact ⟨'(' :: inner, rest, rfl, rfl, by rwa [openBehind_open]⟩
  | case3 cs =>
    cases h
    exact ⟨[], cs, rfl, rfl, rfl⟩
  | case4 cs _ d ih =>
    obtain ⟨m, hm, rfl⟩ := Option.map_eq_some_iff.mp h
    obtain ⟨inner, rest, rfl, rfl, hinner⟩ := ih hm
    exact ⟨')' :: inner, rest, rfl, rfl, by rwa [openBehind_close]⟩
  | case5 d c cs hopen hclose ih =>
    obtain ⟨m, hm, rfl⟩ := Option.map_eq_some_iff.mp h
    obtain ⟨inner, rest, rfl, rfl, hinner⟩ := ih hm
    exact ⟨c :: inner, rest, rfl, rfl, by rwa [openBehind_other hopen hclose]⟩

theorem openBehind_concat_open :
    openBehind d (text ++ ['(']) = some e ↔ ∃ e', e = e' + 1 ∧ openBehind d text = some e' := by
  rw [openBehind_append, Option.bind_eq_some_iff]
  simp [and_comm, eq_comm]

theorem openBehind_concat_close :
    openBehind d (text ++ [')']) = some e ↔ openBehind d text = some (e + 1) := by
  rw [openBehind_append, Option.bind_eq_some_iff]
  constructor
  · rintro ⟨_ | e', he', h⟩
    · rw [openBehind_zero_close] at h
      cases h
    · rw [openBehind_close] at h
      cases h
      exact he'
  · exact fun h => ⟨e + 1, h, openBehind_close e []⟩

theorem openBehind_concat_other (hopen : c ≠ '(') (hclose : c ≠ ')') (d : Nat) (text : List Char) :
    openBehind d (text ++ [c]) = openBehind d text := by
  rw [openBehind_append]
  cases openBehind d text with
  | none => rfl
  | some e => rw [Option.bind_some, openBehind_other hopen hclose, openBehind_nil]

/-- The scan to the left goes past text that opens as many parentheses as are to be closed. -/
theorem beforeOpen_append_open (h : openBehind 0 inner.reverse = some d) (rest : List Char) :
    beforeOpen d (inner ++ '(' :: rest) = some rest := by
  induction inner generalizing d with
  | nil =>
    cases h
    simp [beforeOpen]
  | cons c cs ih =>
    rw [List.reverse_cons] at h
    by_cases hopen : c = '('
    · subst hopen
      obtain ⟨d, rfl, hcs⟩ := openBehind_concat_open.mp h
      simp [beforeOpen, ih hcs]
    · by_cases hclose : c = ')'
      · subst hclose
        simp [beforeOpen, ih (openBehind_concat_close.mp h)]
      · rw [openBehind_concat_other hopen hclose] at h
        simp [beforeOpen, hopen, hclose, ih h]

theorem exists_of_beforeOpen (h : beforeOpen d text = some rest) :
    ∃ inner, text = inner ++ '(' :: rest ∧ openBehind 0 inner.reverse = some d := by
  fun_induction beforeOpen d text with
  | case1 => cases h
  | case2 d cs ih =>
    obtain ⟨inner, rfl, hinner⟩ := ih h
    exact ⟨')' :: inner, rfl, by rwa [List.reverse_cons, openBehind_concat_close]⟩
  | case3 cs =>
    cases h
    exact ⟨[], rfl, rfl⟩
  | case4 cs _ d ih =>
    obtain ⟨inner, rfl, hinner⟩ := ih h
    refine ⟨'(' :: inner, rfl, ?_⟩
    rw [List.reverse_cons, openBehind_concat_open]
    exact ⟨_, rfl, hinner⟩
  | case5 d c cs hclose hopen ih =>
    obtain ⟨inner, rfl, hinner⟩ := ih h
    exact ⟨c :: inner, rfl, by rwa [List.reverse_cons, openBehind_concat_other hopen hclose]⟩

/-- Left of the cursor, behind matched text, is the parenthesis it stands in. -/
theorem beforeOpen_zero_eq_some_iff :
    beforeOpen 0 text = some rest ↔
      ∃ inner, text = inner ++ '(' :: rest ∧ Matched inner.reverse := by
  constructor
  · intro h
    obtain ⟨inner, htext, hinner⟩ := exists_of_beforeOpen h
    exact ⟨inner, htext, matched_iff.mpr hinner⟩
  · rintro ⟨inner, rfl, hinner⟩
    exact beforeOpen_append_open (hinner.openBehind_eq 0) rest

/-! ### Indices -/

theorem eq_take_append_cons (h : row[left]? = some c) :
    row = row.take left ++ c :: row.drop (left + 1) := by
  obtain ⟨hlt, rfl⟩ := List.getElem?_eq_some_iff.mp h
  rw [List.getElem_cons_drop, List.take_append_drop]

/-- A line up to an index is what is before one of its characters, the character, and what is
behind. -/
theorem take_eq_append_cons (hlt : left < index) (hc : row[left]? = some c) :
    row.take index = row.take left ++ c :: slice row (left + 1) index := by
  have hc' : (row.take index)[left]? = some c := by rwa [List.getElem?_take_of_lt hlt]
  conv => lhs; rw [eq_take_append_cons hc', List.take_take, Nat.min_eq_left (Nat.le_of_lt hlt)]
  rfl

theorem of_take_eq_append_cons {before : List Char} (h : row.take index = before ++ c :: inner) :
    before.length < index ∧ row[before.length]? = some c ∧
      slice row (before.length + 1) index = inner := by
  have hlt : before.length < index := by
    have hlen := congrArg List.length h
    simp only [List.length_take, List.length_append, List.length_cons] at hlen
    omega
  refine ⟨hlt, ?_, ?_⟩
  · rw [← List.getElem?_take_of_lt hlt, h]
    simp
  · simp [slice, h, List.drop_append]

theorem drop_eq_append_cons (hle : left ≤ right) (hc : row[right]? = some c) :
    row.drop left = slice row left right ++ c :: row.drop (right + 1) := by
  have hlt : right < row.length := (List.getElem?_eq_some_iff.mp hc).1
  conv => lhs; rw [eq_take_append_cons hc, List.drop_append_of_le_length (by simp; omega)]
  rfl

theorem of_drop_eq_append_cons (h : row.drop left = inner ++ c :: rest) :
    row[left + inner.length]? = some c ∧ slice row left (left + inner.length) = inner := by
  refine ⟨?_, ?_⟩
  · rw [← List.getElem?_drop, h]
    simp
  · rw [slice, List.drop_take, h]
    simp

theorem unmatchedOpen_eq_some_iff : unmatchedOpen row index = some left ↔
    left < index ∧ row[left]? = some '(' ∧ Matched (slice row (left + 1) index) := by
  rw [unmatchedOpen, Option.map_eq_some_iff]
  constructor
  · rintro ⟨before, hbefore, rfl⟩
    obtain ⟨inner, htext, hinner⟩ := beforeOpen_zero_eq_some_iff.mp hbefore
    have htake : row.take index = before.reverse ++ '(' :: inner.reverse := by
      rw [← List.reverse_reverse (row.take index), htext]
      simp
    obtain ⟨hlt, hopen, hslice⟩ := of_take_eq_append_cons htake
    rw [List.length_reverse] at hlt hopen hslice
    exact ⟨hlt, hopen, hslice ▸ hinner⟩
  · rintro ⟨hlt, hopen, hinner⟩
    have hlen : left < row.length := (List.getElem?_eq_some_iff.mp hopen).1
    refine ⟨(row.take left).reverse, beforeOpen_zero_eq_some_iff.mpr
      ⟨(slice row (left + 1) index).reverse, ?_, by rwa [List.reverse_reverse]⟩, ?_⟩
    · rw [take_eq_append_cons hlt hopen]
      simp
    · simp
      omega

theorem matchingClose_eq_some_iff : matchingClose row left = some right ↔
    left < right ∧ row[right]? = some ')' ∧ Matched (slice row (left + 1) right) := by
  rw [matchingClose, Option.map_eq_some_iff]
  constructor
  · rintro ⟨n, hn, rfl⟩
    obtain ⟨inner, rest, htext, rfl, hinner⟩ := exists_of_closeDistance hn
    obtain ⟨hclose, hslice⟩ := of_drop_eq_append_cons htext
    exact ⟨by omega, hclose, by rwa [hslice, matched_iff]⟩
  · rintro ⟨hlt, hclose, hinner⟩
    have hlen : right < row.length := (List.getElem?_eq_some_iff.mp hclose).1
    refine ⟨(slice row (left + 1) right).length, ?_, ?_⟩
    · rw [drop_eq_append_cons hlt hclose]
      exact closeDistance_append (hinner.openBehind_eq 0) _
    · simp [slice]
      omega

theorem take_eq_append_slice (hle : left ≤ right) :
    row.take right = row.take left ++ slice row left right := by
  conv => lhs; rw [← List.take_append_drop left (row.take right), List.take_take,
    Nat.min_eq_left hle]
  rfl

theorem slice_eq_cons (hlt : left < index) (hc : row[left]? = some c) :
    slice row left index = c :: slice row (left + 1) index := by
  have hlen : left < row.length := (List.getElem?_eq_some_iff.mp hc).1
  have hlen' : (row.take left).length = left := by simp; omega
  conv => lhs; rw [slice, take_eq_append_cons hlt hc, List.drop_left' hlen']

theorem slice_append_slice {first : Nat} (hfirst : first ≤ left) (hleft : left ≤ right)
    (hlen : left ≤ row.length) :
    slice row first right = slice row first left ++ slice row left right := by
  rw [slice, take_eq_append_slice hleft, List.drop_append_of_le_length (by simp; omega)]
  rfl

theorem slice_eq_append_pair {first : Nat} (hfirst : first ≤ left) (hlt : left < right)
    (hleft : row[left]? = some '(') (hright : row[right]? = some ')') :
    slice row first (right + 1) =
      slice row first left ++ '(' :: (slice row (left + 1) right ++ [')']) := by
  have hlen : right < row.length := (List.getElem?_eq_some_iff.mp hright).1
  have hend : slice row right (right + 1) = [')'] := by
    rw [slice_eq_cons (Nat.lt_succ_self right) hright]
    simp [slice]
  rw [slice_append_slice hfirst (by omega) (by omega), slice_eq_cons (by omega) hleft,
    slice_append_slice hlt (by omega) (by omega), hend]

@[simp] theorem slice_append (before own rest : List Char) :
    slice (before ++ own ++ rest) before.length (before.length + own.length) = own := by
  rw [slice, ← List.length_append, List.take_left, List.drop_left]

/-- What is open left of an index is not closed before it. -/
theorem le_of_unmatchedOpen_matchingClose (hopen : unmatchedOpen row index = some left)
    (hclose : matchingClose row left = some right) : index ≤ right := by
  obtain ⟨hlt, -, hinner⟩ := unmatchedOpen_eq_some_iff.mp hopen
  obtain ⟨hleft, hright, hmatched⟩ := matchingClose_eq_some_iff.mp hclose
  refine Nat.le_of_not_lt fun hbehind => ?_
  have hsplit : slice row (left + 1) index =
      slice row (left + 1) right ++ ')' :: slice row (right + 1) index := by
    have htake := take_eq_append_cons hbehind hright
    have hlen : right < row.length := (List.getElem?_eq_some_iff.mp hright).1
    rw [slice, htake, List.drop_append_of_le_length (by simp; omega)]
    rfl
  exact hmatched.not_append_close _ (hsplit ▸ hinner)

/-! ### Callees -/

/-- A text of characters of expressions and of argument lists, read as one expression before a call.
-/
inductive Callee : List Char → Prop where
  | nil : Callee []
  | char {callee : List Char} {c : Char} : Callee callee → isExpressionChar c = true →
      Callee (callee ++ [c])
  | call {callee inner : List Char} :
      Callee callee → Matched inner → Callee (callee ++ '(' :: (inner ++ [')']))

theorem not_parenthesis_of_isExpressionChar (h : isExpressionChar c = true) :
    c ≠ '(' ∧ c ≠ ')' := by
  constructor <;> rintro rfl <;> revert h <;> decide

theorem Callee.matched {callee : List Char} (h : Callee callee) : Matched callee := by
  induction h with
  | nil => exact .nil
  | char _ hc ih =>
    obtain ⟨hopen, hclose⟩ := not_parenthesis_of_isExpressionChar hc
    exact ih.append (.other hopen hclose .nil)
  | call _ hinner ih => exact ih.append hinner.enclose

/-- What the scan for a callee passes is a callee. -/
theorem exists_callee (text : List Char) :
    ∃ callee, Callee callee ∧ text = callee.reverse ++ beforeCallee text := by
  fun_induction beforeCallee text with
  | case1 => exact ⟨[], .nil, rfl⟩
  | case2 c cs hc ih =>
    obtain ⟨callee, hcallee, hcs⟩ := ih
    refine ⟨callee ++ [c], hcallee.char hc, ?_⟩
    conv => lhs; rw [hcs]
    simp
  | case3 cs before hbefore _ _ ih =>
    obtain ⟨inner, rfl, hinner⟩ := beforeOpen_zero_eq_some_iff.mp hbefore
    obtain ⟨callee, hcallee, hcs⟩ := ih
    refine ⟨callee ++ '(' :: (inner.reverse ++ [')']), hcallee.call hinner, ?_⟩
    conv => lhs; rw [hcs]
    simp
  | case4 cs => exact ⟨[], .nil, rfl⟩
  | case5 c cs => exact ⟨[], .nil, rfl⟩

/-- Left of a parenthesis are a callee and spaces; it starts there unless it is empty. -/
theorem exists_calleeStart (row : List Char) (left : Nat) :
    ∃ before callee blank, row.take left = before ++ callee ++ blank ∧ Callee callee ∧
      (∀ c ∈ blank, c = ' ') ∧
      calleeStart row left = if callee = [] then none else some before.length := by
  obtain ⟨callee, hcallee, htext⟩ := exists_callee ((row.take left).reverse.dropWhile (· == ' '))
  refine ⟨(beforeCallee ((row.take left).reverse.dropWhile (· == ' '))).reverse, callee,
    ((row.take left).reverse.takeWhile (· == ' ')).reverse, ?_, hcallee, ?_, ?_⟩
  · rw [← List.reverse_reverse callee, ← List.reverse_append, ← htext, ← List.reverse_append,
      List.takeWhile_append_dropWhile, List.reverse_reverse]
  · intro c hc
    simpa using List.all_eq_true.mp List.all_takeWhile c (List.mem_reverse.mp hc)
  · have hlen := congrArg List.length htext
    rw [List.length_append, List.length_reverse] at hlen
    simp only [calleeStart, List.length_reverse]
    cases callee with
    | nil => rw [if_neg (Nat.not_lt.mpr (by simp at hlen; omega)), if_pos rfl]
    | cons c cs => rw [if_pos (by simp at hlen; omega), if_neg (List.cons_ne_nil c cs)]

/-- The text between the start of a call and its opening parenthesis is matched. -/
theorem matched_calleeStart (row : List Char) (left : Nat) :
    (calleeStart row left).getD left ≤ left ∧
      Matched (slice row ((calleeStart row left).getD left) left) := by
  obtain ⟨before, callee, blank, htake, hcallee, hblank, hstart⟩ := exists_calleeStart row left
  rw [hstart]
  split
  · exact ⟨Nat.le_refl left, by simp [slice, Matched.nil]⟩
  · have hlen := congrArg List.length htake
    simp only [List.length_take, List.length_append] at hlen
    refine ⟨by simp; omega, ?_⟩
    rw [Option.getD_some, slice, htake, List.append_assoc, List.drop_left]
    refine hcallee.matched.append (matched_of_forall fun c hc => ?_)
    rw [hblank c hc]
    decide

/-! ### The call a cursor stands in -/

/-- Text that the scan for a callee does not go into. -/
def Detached (before : List Char) : Prop :=
  ∀ c ∈ before.getLast?, isExpressionChar c = false ∧ c ≠ ')'

instance (before : List Char) : Decidable (Detached before) :=
  Option.decidableForallMem before.getLast?

/-- Whether the stretches of two tables have no code point in common. -/
def apart (table table' : List (Nat × Nat)) : Bool :=
  table.all fun r => table'.all fun r' => Nat.blt r.2 r'.1 || Nat.blt r'.2 r.1

theorem inTable_of_apart {table table' : List (Nat × Nat)} (h : apart table table' = true)
    (hc : CharClass.inTable table c = true) : CharClass.inTable table' c = false := by
  obtain ⟨r, hr, hin⟩ := List.any_eq_true.mp hc
  refine List.any_eq_false.mpr fun r' hr' hin' => ?_
  have hapart := List.all_eq_true.mp (List.all_eq_true.mp h r hr) r' hr'
  simp only [Bool.or_eq_true, Nat.blt_eq, Bool.and_eq_true, decide_eq_true_eq] at hapart hin hin'
  omega

theorem isAlphanumeric_of_isBlank (h : CharClass.isBlank c = true) :
    CharClass.isAlphanumeric c = false := by
  rw [CharClass.isAlphanumeric, CharClass.isAlphabetic, CharClass.isNumeric]
  split
  · next hascii =>
    have hcode : c.toNat ∈ [9, 10, 11, 12, 13, 32] := by
      simp [CharClass.isBlank, CharClass.inTable, CharClass.blanks] at h ⊢
      omega
    have hall : ∀ n ∈ [9, 10, 11, 12, 13, 32],
        ((Char.ofNat n).isAlpha || (Char.ofNat n).isDigit) = false := by decide
    rw [← Char.ofNat_toNat c]
    exact hall c.toNat hcode
  · rw [inTable_of_apart (by decide +kernel) h, inTable_of_apart (by decide +kernel) h]
    rfl

theorem isBlank_of_isExpressionChar (h : isExpressionChar c = true) :
    CharClass.isBlank c = false := by
  cases hblank : CharClass.isBlank c with
  | false => rfl
  | true =>
    rw [isExpressionChar, isWordChar, isAlphanumeric_of_isBlank hblank] at h
    simp only [Bool.false_or, Bool.or_eq_true, beq_iff_eq] at h
    rcases h with ((rfl | rfl) | rfl) | rfl <;> exact absurd hblank (by decide)

theorem Callee.isBlank_getLast {callee : List Char} (h : Callee callee) :
    ∀ c ∈ callee.getLast?, CharClass.isBlank c = false := by
  cases h with
  | nil => simp
  | char _ hc =>
    rw [List.getLast?_concat]
    rintro _ ⟨⟩
    exact isBlank_of_isExpressionChar hc
  | call _ _ =>
    rw [← List.cons_append, ← List.append_assoc, List.getLast?_concat]
    rintro _ ⟨⟩
    decide

theorem Callee.beforeCallee_append {callee : List Char} (h : Callee callee) (rest : List Char) :
    beforeCallee (callee.reverse ++ rest) = beforeCallee rest := by
  induction h with
  | nil => rfl
  | char _ hc ih =>
    rw [List.reverse_append, List.reverse_singleton, List.singleton_append, List.cons_append,
      beforeCallee, if_pos hc, ih]
  | @call callee inner _ hinner ih =>
    have hopen : beforeOpen 0 (inner.reverse ++ '(' :: (callee.reverse ++ rest)) =
        some (callee.reverse ++ rest) :=
      beforeOpen_zero_eq_some_iff.mpr ⟨_, rfl, by rwa [List.reverse_reverse]⟩
    have htext : (callee ++ '(' :: (inner ++ [')'])).reverse ++ rest =
        ')' :: (inner.reverse ++ '(' :: (callee.reverse ++ rest)) := by simp
    rw [htext, beforeCallee, if_neg (by decide), if_pos rfl]
    split
    · next before hbefore =>
      obtain rfl : callee.reverse ++ rest = before := Option.some.inj (hopen.symm.trans hbefore)
      exact ih
    · next hnone => exact absurd (hopen.symm.trans hnone) (by simp)

theorem Detached.beforeCallee_eq {before : List Char} (h : Detached before) :
    beforeCallee before.reverse = before.reverse := by
  unfold Detached at h
  rw [← List.head?_reverse] at h
  cases hbefore : before.reverse with
  | nil => rw [beforeCallee]
  | cons c cs =>
    obtain ⟨hc, hclose⟩ := h c (by rw [hbefore]; rfl)
    rw [beforeCallee, if_neg (by simp [hc]), if_neg hclose]

theorem calleeStart_append {before callee blank : List Char}
    (htake : row.take left = before ++ callee ++ blank) (hbefore : Detached before)
    (hcallee : Callee callee) (hne : callee ≠ []) (hblank : ∀ c ∈ blank, c = ' ') :
    calleeStart row left = some before.length := by
  have hstop : ∀ c ∈ (callee.reverse ++ before.reverse).head?, (c == ' ') = false := by
    intro c hc
    rw [List.head?_append, List.head?_reverse, List.getLast?_eq_some_getLast hne] at hc
    have hlast := hcallee.isBlank_getLast c (by rw [List.getLast?_eq_some_getLast hne]; exact hc)
    rw [beq_eq_false_iff_ne]
    rintro rfl
    exact absurd hlast (by decide)
  have htext : (row.take left).reverse.dropWhile (· == ' ') = callee.reverse ++ before.reverse := by
    rw [htake, List.reverse_append, List.reverse_append]
    refine Lexeme.dropWhile_append_of_stop (fun c hc => ?_) hstop
    rw [hblank c (List.mem_reverse.mp hc)]
    rfl
  have hpos : 0 < callee.length := List.length_pos_iff.mpr hne
  simp only [calleeStart]
  rw [htext, hcallee.beforeCallee_append, hbefore.beforeCallee_eq, if_pos (by simp; omega),
    List.length_reverse]

/-- A cursor behind a callee, spaces, a parenthesis and matched text stands in a call of the callee.
-/
theorem callContext_append {before callee blank args : List Char}
    (htake : row.take index = before ++ callee ++ blank ++ '(' :: args) (hbefore : Detached before)
    (hcallee : Callee callee) (hne : callee ≠ []) (hblank : ∀ c ∈ blank, c = ' ')
    (hargs : Matched args) :
    callContext row index = some ⟨callee, countCommas 0 args⟩ := by
  obtain ⟨hlt, hopen, hslice⟩ := of_take_eq_append_cons htake
  have hleft : unmatchedOpen row index = some (before ++ callee ++ blank).length :=
    unmatchedOpen_eq_some_iff.mpr ⟨hlt, hopen, by rwa [hslice]⟩
  have hfront : row.take (before ++ callee ++ blank).length = before ++ callee ++ blank := by
    rw [← Nat.min_eq_left (Nat.le_of_lt hlt), ← List.take_take, htake, List.take_left]
  have htrim : CharClass.trimEnd (callee ++ blank) = callee := by
    rw [CharClass.trimEnd, List.reverse_append, Lexeme.dropWhile_append_of_stop,
      List.reverse_reverse]
    · intro c hc
      rw [hblank c (List.mem_reverse.mp hc)]
      decide
    · rw [List.head?_reverse]
      exact hcallee.isBlank_getLast
  rw [callContext, hleft]
  simp only [Option.bind_eq_bind, Option.bind_some,
    calleeStart_append hfront hbefore hcallee hne hblank]
  rw [hslice, slice, hfront, List.append_assoc, List.drop_left, htrim]
  rfl

/-! ### Runs -/

/-- A stretch of characters with a property that touches an index and cannot be made longer. -/
structure IsRun (p : Char → Bool) (row : List Char) (index first last : Nat) : Prop where
  first_le : first ≤ min index row.length
  le_last : min index row.length ≤ last
  last_le : last ≤ row.length
  all : ∀ c ∈ slice row first last, p c = true
  before : ∀ c ∈ (row.take first).getLast?, p c = false
  behind : ∀ c ∈ row[last]?, p c = false

theorem head?_dropWhile {p : Char → Bool} (hc : c ∈ (cs.dropWhile p).head?) : p c = false := by
  have h := List.head?_dropWhile_not p cs
  rw [Option.mem_def.mp hc] at h
  simpa using h

theorem isRun_append {p : Char → Bool} {before own rest : List Char}
    (hfirst : before.length ≤ min index (before ++ own ++ rest).length)
    (hlast : min index (before ++ own ++ rest).length ≤ before.length + own.length)
    (hown : ∀ c ∈ own, p c = true) (hbefore : ∀ c ∈ before.getLast?, p c = false)
    (hrest : ∀ c ∈ rest.head?, p c = false) :
    IsRun p (before ++ own ++ rest) index before.length (before.length + own.length) where
  first_le := hfirst
  le_last := hlast
  last_le := by simp
  all := by rwa [slice_append]
  before := by rwa [List.append_assoc, List.take_left]
  behind := by rwa [← List.length_append, List.getElem?_append_right (Nat.le_refl _), Nat.sub_self,
    ← List.head?_eq_getElem?]

theorem exists_isRun_around (p : Char → Bool) (row : List Char) (index : Nat) :
    ∃ first last, IsRun p row index first last ∧ around p row index = slice row first last := by
  obtain ⟨front, hfront⟩ : ∃ front, front = (row.take index).reverse := ⟨_, rfl⟩
  obtain ⟨back, hback⟩ : ∃ back, back = row.drop index := ⟨_, rfl⟩
  have hrow : row = (front.dropWhile p).reverse ++ around p row index ++ back.dropWhile p := by
    rw [around, ← hfront, ← hback, ← List.append_assoc, ← List.reverse_append,
      List.takeWhile_append_dropWhile, List.append_assoc, List.takeWhile_append_dropWhile, hfront,
      List.reverse_reverse, hback, List.take_append_drop]
  have hlen : min index row.length = (front.takeWhile p).length + (front.dropWhile p).length := by
    rw [← List.length_append, List.takeWhile_append_dropWhile, hfront, List.length_reverse,
      List.length_take]
  have hlen' : (front.takeWhile p).length ≤ (around p row index).length := by
    simp [around, hfront]
  have hown : ∀ c ∈ around p row index, p c = true := by
    intro c hc
    simp only [around, List.mem_append, List.mem_reverse] at hc
    rcases hc with hc | hc <;> exact List.all_eq_true.mp List.all_takeWhile c hc
  have hbefore : ∀ c ∈ (front.dropWhile p).reverse.getLast?, p c = false := by
    rw [List.getLast?_reverse]
    exact fun c => head?_dropWhile
  have hrun : IsRun p ((front.dropWhile p).reverse ++ around p row index ++ back.dropWhile p)
      index _ _ :=
    isRun_append (by rw [← hrow, List.length_reverse]; omega)
      (by rw [← hrow, List.length_reverse]; omega) hown hbefore fun c => head?_dropWhile
  rw [← hrow] at hrun
  refine ⟨_, _, hrun, ?_⟩
  conv => rhs; arg 1; rw [hrow]
  rw [slice_append]

/-- The expression that touches an index, for every line. A cursor stands in a pair of parentheses
when the text between the left one and the cursor is matched, and the text between the two; then the
expression ends with the right one, has the cursor in it and is matched. Otherwise it is the run of
characters of expressions that touches the cursor. -/
theorem expressionAt_innermost (row : List Char) (index : Nat) :
    (∀ left, unmatchedOpen row index = some left ↔
      left < index ∧ row[left]? = some '(' ∧ Matched (slice row (left + 1) index)) ∧
    (∀ left right, matchingClose row left = some right ↔
      left < right ∧ row[right]? = some ')' ∧ Matched (slice row (left + 1) right)) ∧
    (∀ left right, unmatchedOpen row index = some left → matchingClose row left = some right →
      left < index ∧ index ≤ right ∧ matchingOpen row right = some left ∧
      ∃ first ≤ left, expressionAt row index = slice row first (right + 1) ∧
        Matched (expressionAt row index)) ∧
    ((∀ left, unmatchedOpen row index = some left → matchingClose row left = none) →
      ∃ first last, IsRun isExpressionChar row index first last ∧
        expressionAt row index = slice row first last) := by
  refine ⟨fun _ => unmatchedOpen_eq_some_iff, fun _ _ => matchingClose_eq_some_iff, ?_, ?_⟩
  · intro left right hopen hclose
    obtain ⟨hlt, hleft, -⟩ := unmatchedOpen_eq_some_iff.mp hopen
    obtain ⟨hbetween, hright, hinner⟩ := matchingClose_eq_some_iff.mp hclose
    obtain ⟨hfirst, hcallee⟩ := matched_calleeStart row left
    have hexpression : expressionAt row index =
        slice row ((calleeStart row left).getD left) (right + 1) := by
      simp only [expressionAt, hopen, hclose]
    refine ⟨hlt, le_of_unmatchedOpen_matchingClose hopen hclose,
      unmatchedOpen_eq_some_iff.mpr ⟨hbetween, hleft, hinner⟩, _, hfirst, hexpression, ?_⟩
    rw [hexpression, slice_eq_append_pair hfirst hbetween hleft hright]
    exact hcallee.append hinner.enclose
  · intro h
    have hrun : expressionAt row index = around isExpressionChar row index := by
      unfold expressionAt
      cases hopen : unmatchedOpen row index with
      | none => rfl
      | some left => simp only [h left hopen]
    rw [hrun]
    exact exists_isRun_around isExpressionChar row index

/-- In `f(g(1), x` a cursor at `1` stands in the inner call; one at `x` stands in the outer one,
which is never closed. -/
theorem expressionAt_innermost_unclosed :
    (unmatchedOpen "f(g(1), x".toList 4 = some 3 ∧ matchingClose "f(g(1), x".toList 3 = some 5 ∧
      ∃ first ≤ 3, expressionAt "f(g(1), x".toList 4 = slice "f(g(1), x".toList first 6 ∧
        Matched (expressionAt "f(g(1), x".toList 4)) ∧
    unmatchedOpen "f(g(1), x".toList 9 = some 1 ∧ matchingClose "f(g(1), x".toList 1 = none ∧
      ∃ first last, IsRun isExpressionChar "f(g(1), x".toList 9 first last ∧
        expressionAt "f(g(1), x".toList 9 = slice "f(g(1), x".toList first last := by
  have hinner : unmatchedOpen "f(g(1), x".toList 4 = some 3 := by decide
  have hclose : matchingClose "f(g(1), x".toList 3 = some 5 := by decide
  have houter : unmatchedOpen "f(g(1), x".toList 9 = some 1 := by decide
  have hnone : matchingClose "f(g(1), x".toList 1 = none := by decide
  obtain ⟨-, -, hcall, -⟩ := expressionAt_innermost "f(g(1), x".toList 4
  obtain ⟨-, -, -, hrun⟩ := expressionAt_innermost "f(g(1), x".toList 9
  obtain ⟨-, -, -, hexpression⟩ := hcall 3 5 hinner hclose
  refine ⟨⟨hinner, hclose, hexpression⟩, houter, hnone, hrun fun left hleft => ?_⟩
  obtain rfl : 1 = left := Option.some.inj (houter.symm.trans hleft)
  exact hnone

end Vyper.LineCursor
