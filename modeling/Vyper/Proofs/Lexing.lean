import Vyper.Proofs.Printing

/-!
# Reading back written tokens

A written row of pieces is cut into the tokens it was written from. `TokenKind.standsBefore` says
which texts may follow a token without changing it: a word or a number must not run on, and a symbol
must not be the beginning of a longer one. `Piece.Spaced` asks this of every token of a row, and
`TokenStream.exists_ofText_line` is the result for a line on its own.
-/

namespace Vyper

namespace Lexeme

/-- Whether a word or a number ends before this text. A point after a number belongs to it when a
digit follows. -/
def detached : List Char → Bool
  | '.' :: d :: _ => !d.isDigit
  | c :: _ => !isWordPart c && !isQuote c
  | [] => true

theorem isWordPart_of_isWordStart {c : Char} (h : isWordStart c) : isWordPart c := by
  simp only [isWordStart, isWordPart, Char.isAlphanum, Bool.or_eq_true] at h ⊢
  rcases h with h | h
  · exact .inl (.inl h)
  · exact .inr h

theorem isWordPart_of_isDigitOrBar {c : Char} (h : isDigitOrBar c) : isWordPart c := by
  simp only [isDigitOrBar, isWordPart, Char.isAlphanum, Bool.or_eq_true] at h ⊢
  rcases h with h | h
  · exact .inl (.inr h)
  · exact .inr h

theorem isAlpha_iff (c : Char) :
    c.isAlpha ↔ (65 ≤ c.val.toNat ∧ c.val.toNat ≤ 90) ∨ (97 ≤ c.val.toNat ∧ c.val.toNat ≤ 122) := by
  have heq : c.isAlpha = (decide (c.val ≥ 'A'.val ∧ c.val ≤ 'Z'.val) ||
      (decide (c.val ≥ 'a'.val) && decide (c.val ≤ 'z'.val))) := rfl
  simp only [heq, Bool.or_eq_true, Bool.and_eq_true, decide_eq_true_eq, ge_iff_le,
    UInt32.le_iff_toNat_le]
  exact Iff.rfl

theorem isWordPart_of_isHexOrBar {c : Char} (h : isHexOrBar c) : isWordPart c := by
  simp only [isHexOrBar, isWordPart, Char.isAlphanum, Bool.or_eq_true, Bool.and_eq_true,
    decide_eq_true_eq, isAlpha_iff, Char.le_def, UInt32.le_iff_toNat_le] at h ⊢
  have ha : ('a' : Char).val.toNat = 97 := rfl
  have hf : ('f' : Char).val.toNat = 102 := rfl
  have hA : ('A' : Char).val.toNat = 65 := rfl
  have hF : ('F' : Char).val.toNat = 70 := rfl
  rcases h with ((h | h) | h) | h
  · exact .inl (.inr h)
  · exact .inl (.inl (.inr ⟨by omega, by omega⟩))
  · exact .inl (.inl (.inl ⟨by omega, by omega⟩))
  · exact .inr h

theorem not_isWordPart_of_detached {c : Char} {cs : List Char} (h : detached (c :: cs)) :
    isWordPart c = false ∧ isQuote c = false := by
  unfold detached at h
  split at h
  · next h' => cases h'; decide
  · next h' => cases h'; simpa using h
  · contradiction

theorem takeWhile_append_of_stop {p : Char → Bool} {w rest : List Char} (hw : ∀ c ∈ w, p c)
    (hr : ∀ c ∈ rest.head?, p c = false) : (w ++ rest).takeWhile p = w := by
  rw [List.takeWhile_append_of_pos hw]
  cases rest with
  | nil => simp
  | cons c cs => rw [List.takeWhile_cons_of_neg (by simp [hr c rfl]), List.append_nil]

theorem dropWhile_append_of_stop {p : Char → Bool} {w rest : List Char} (hw : ∀ c ∈ w, p c)
    (hr : ∀ c ∈ rest.head?, p c = false) : (w ++ rest).dropWhile p = rest := by
  rw [List.dropWhile_append_of_pos hw]
  cases rest with
  | nil => rfl
  | cons c cs => exact List.dropWhile_cons_of_neg (by simp [hr c rfl])

/-- A run stops at the first character outside its class. -/
theorem run_append_of_stop {p : Char → Bool} {w rest : List Char} (first : List Char)
    (make : List Char → Lexeme) (hw : ∀ c ∈ w, p c) (hr : ∀ c ∈ rest.head?, p c = false) :
    run first p (w ++ rest) make = ⟨make (first ++ w), first ++ w, rest⟩ := by
  simp only [run, takeWhile_append_of_stop hw hr, dropWhile_append_of_stop hw hr]

theorem stops_of_detached {p : Char → Bool} {rest : List Char} (hp : ∀ c, p c → isWordPart c)
    (h : detached rest) : ∀ c ∈ rest.head?, p c = false := by
  intro c hc
  cases rest with
  | nil => cases hc
  | cons d ds =>
    cases hc
    have hn := (not_isWordPart_of_detached h).1
    cases hpc : p c with
    | false => rfl
    | true => rw [hp c hpc] at hn; cases hn

theorem isDigit_eq_false_of_isWordStart {c : Char} (h : isWordStart c) : c.isDigit = false := by
  cases hd : c.isDigit with
  | false => rfl
  | true =>
    simp only [isWordStart, isAlpha_iff, Char.isDigit, Bool.or_eq_true, Bool.and_eq_true,
      decide_eq_true_eq, ge_iff_le, UInt32.le_iff_toNat_le, beq_iff_eq] at h hd
    have h9 : ('9' : Char).val.toNat = 57 := rfl
    have hbar : ('_' : Char).val.toNat = 95 := rfl
    rcases h with (h | h) | h
    · omega
    · omega
    · subst h; omega

theorem beq_eq_false_of_class {p : Char → Bool} {c d : Char} (hc : p c) (hd : p d = false) :
    (c == d) = false := by
  rw [beq_eq_false_iff_ne]
  rintro rfl
  rw [hc] at hd
  cases hd

theorem cut_of_isWordStart {c : Char} (h : isWordStart c) (cs : List Char) :
    cut c cs = wordCut c cs := by
  have hne : ∀ d, isWordStart d = false → (c == d) = false := fun d => beq_eq_false_of_class h
  simp [cut, isBlank, isQuote, hne ' ' (by decide), hne '\t' (by decide), hne '\r' (by decide),
    hne '\x0c' (by decide), hne '#' (by decide), hne '\\' (by decide), hne '\n' (by decide),
    hne '"' (by decide), hne '\'' (by decide), isDigit_eq_false_of_isWordStart h, h]

theorem cut_of_isDigit {c : Char} (h : c.isDigit) (cs : List Char) :
    cut c cs = numberCut c cs := by
  have hne : ∀ d, d.isDigit = false → (c == d) = false := fun d => beq_eq_false_of_class h
  simp [cut, isBlank, isQuote, hne ' ' (by decide), hne '\t' (by decide), hne '\r' (by decide),
    hne '\x0c' (by decide), hne '#' (by decide), hne '\\' (by decide), hne '\n' (by decide),
    hne '"' (by decide), hne '\'' (by decide), h]

theorem cut_word {c : Char} {w rest : List Char} (hc : isWordStart c) (hw : ∀ d ∈ w, isWordPart d)
    (hr : detached rest) :
    cut c (w ++ rest) = ⟨.token (.name (String.ofList (c :: w))), c :: w, rest⟩ := by
  have hrun := run_append_of_stop (p := isWordPart) [c]
    (fun text => .token (.name (String.ofList text))) hw (stops_of_detached (fun _ h => h) hr)
  rw [cut_of_isWordStart hc]
  cases hcs : w ++ rest with
  | nil =>
    obtain ⟨rfl, rfl⟩ := List.append_eq_nil_iff.1 hcs
    rfl
  | cons q qs =>
    have hq : isQuote q = false := by
      cases w with
      | nil =>
        rw [List.nil_append] at hcs
        rw [hcs] at hr
        exact (not_isWordPart_of_detached hr).2
      | cons d ds =>
        cases hcs
        have hd := hw q List.mem_cons_self
        simp [isQuote, beq_eq_false_of_class hd (d := '"') (by decide),
          beq_eq_false_of_class hd (d := '\'') (by decide)]
    simp only [wordCut, hq, Bool.and_false, Bool.false_eq_true, if_false]
    rw [← hcs, hrun]
    rfl

theorem head_append_ne {p : Char → Bool} {w rest : List Char} {x d : Char} (hw : ∀ c ∈ w, p c)
    (hr : ∀ c ∈ rest.head?, isWordPart c = false) (hd : p d = false) (hd' : isWordPart d)
    (hx : x ∈ (w ++ rest).head?) : (x == d) = false := by
  cases w with
  | nil =>
    rw [beq_eq_false_iff_ne]
    rintro rfl
    have hn := hr x hx
    rw [hd'] at hn
    cases hn
  | cons c cs =>
    cases hx
    exact beq_eq_false_of_class (hw x List.mem_cons_self) hd

/-- Digits without an `x` after the first of them are a decimal number. -/
theorem numberCut_eq_decimalCut {c : Char} {w rest : List Char} (hw : ∀ d ∈ w, isDigitOrBar d)
    (hr : ∀ c ∈ rest.head?, isWordPart c = false) :
    numberCut c (w ++ rest) = decimalCut c (w ++ rest) := by
  cases hcs : w ++ rest with
  | nil => rfl
  | cons x xs =>
    cases xs with
    | nil => rfl
    | cons h hs =>
      have hx : x ∈ (w ++ rest).head? := by rw [hcs]; rfl
      have hlow := head_append_ne hw hr (d := 'x') (by decide) (by decide) hx
      have hupp := head_append_ne hw hr (d := 'X') (by decide) (by decide) hx
      simp [numberCut, hlow, hupp]

theorem cut_int {c : Char} {w rest : List Char} (hc : c.isDigit) (hw : ∀ d ∈ w, isDigitOrBar d)
    (hr : detached rest) :
    cut c (w ++ rest) = ⟨numeralToken .int (c :: w), c :: w, rest⟩ := by
  have hpart := stops_of_detached (fun _ h => h) hr
  have hstop := stops_of_detached (fun _ => isWordPart_of_isDigitOrBar) hr
  rw [cut_of_isDigit hc, numberCut_eq_decimalCut hw hpart, decimalCut]
  simp only [takeWhile_append_of_stop hw hstop, dropWhile_append_of_stop hw hstop]
  split
  · next d ds =>
    rw [detached, Bool.not_eq_true'] at hr
    rw [hr]
    rfl
  · rfl

theorem cut_decimal {c d : Char} {w ds rest : List Char} (hc : c.isDigit)
    (hw : ∀ x ∈ w, isDigitOrBar x) (hd : d.isDigit) (hds : ∀ x ∈ ds, isDigitOrBar x)
    (hr : detached rest) :
    cut c (w ++ '.' :: d :: (ds ++ rest)) =
      ⟨numeralToken .decimal (c :: w ++ '.' :: d :: ds), c :: w ++ '.' :: d :: ds, rest⟩ := by
  have hpart : ∀ x ∈ ('.' :: d :: (ds ++ rest)).head?, isWordPart x = false := by
    rintro x ⟨⟩
    decide
  have hpoint : ∀ x ∈ ('.' :: d :: (ds ++ rest)).head?, isDigitOrBar x = false := by
    rintro x ⟨⟩
    decide
  have hstop := stops_of_detached (fun _ => isWordPart_of_isDigitOrBar) hr
  rw [cut_of_isDigit hc, numberCut_eq_decimalCut hw hpart, decimalCut]
  simp only [takeWhile_append_of_stop hw hpoint, dropWhile_append_of_stop hw hpoint, hd, if_true]
  rw [run_append_of_stop _ _ hds hstop]
  simp

theorem cut_hex {x h : Char} {hs rest : List Char} (hx : (x == 'x' || x == 'X') = true)
    (hh : isHexOrBar h) (hhs : ∀ c ∈ hs, isHexOrBar c) (hr : detached rest) :
    cut '0' (x :: h :: hs ++ rest) =
      ⟨numeralToken .hex ('0' :: x :: h :: hs), '0' :: x :: h :: hs, rest⟩ := by
  have hstop := stops_of_detached (fun _ => isWordPart_of_isHexOrBar) hr
  rw [cut_of_isDigit (by decide)]
  simp only [numberCut, List.cons_append, hx, hh, beq_self_eq_true, Bool.and_self, if_true]
  exact run_append_of_stop ['0', x, h] _ hhs hstop

end Lexeme

namespace Punct

/-- The characters a symbol of more than one character goes on with. -/
def extenders : List Char := ['=', '>', '<', '*', '/']

/-- Whether a symbol before this text ends with itself. -/
def endsBefore : List Char → Bool
  | c :: _ => !extenders.contains c
  | [] => true

theorem mem_symbols (p : Punct) : p ∈ symbols := by
  cases p with
  | binary op => cases op <;> decide
  | augmented op => cases op <;> decide
  | relation r => cases r <;> decide
  | _ => decide

theorem symbols_sorted :
    symbols.Pairwise fun p q => q.text.toList.length ≤ p.text.toList.length := by decide

theorem tail_text_extends {p : Punct} (hp : p ∈ symbols) {c : Char} (hc : c ∈ p.text.toList.tail) :
    extenders.contains c := by
  have hall : symbols.all fun p => p.text.toList.tail.all extenders.contains := by decide
  exact List.all_eq_true.mp (List.all_eq_true.mp hall p hp) c hc

theorem eq_of_text_eq : ∀ p ∈ symbols, ∀ q ∈ symbols, p.text.toList = q.text.toList → p = q := by
  decide

/-- A symbol found at the front of a written symbol is that symbol: a longer one would have to go on
into the text behind it. -/
theorem eq_of_isPrefix_text {p q : Punct} {rest : List Char} (h : endsBefore rest)
    (hlen : p.text.toList.length ≤ q.text.toList.length)
    (hq : q.text.toList <+: p.text.toList ++ rest) : q = p := by
  have hp : p.text.toList <+: q.text.toList :=
    List.prefix_of_prefix_length_le (List.prefix_append _ _) hq hlen
  obtain ⟨more, hmore⟩ := hp
  rw [← hmore, List.prefix_append_right_inj] at hq
  cases more with
  | nil =>
    rw [List.append_nil] at hmore
    exact eq_of_text_eq q (mem_symbols q) p (mem_symbols p) hmore.symm
  | cons c cs =>
    obtain ⟨tail, rfl⟩ := hq
    have hc : c ∈ q.text.toList.tail := by
      rw [← hmore, List.tail_append_of_ne_nil (toList_text_ne_nil p)]
      simp
    have hext := tail_text_extends (mem_symbols q) hc
    simp only [endsBefore, List.cons_append, Bool.not_eq_true'] at h
    rw [h] at hext
    cases hext

theorem scan_text_append (p : Punct) {rest : List Char} (h : endsBefore rest) :
    scan (p.text.toList ++ rest) = some (p, rest) := by
  have hself : p.text.toList.isPrefixOf (p.text.toList ++ rest) = true :=
    List.isPrefixOf_iff_prefix.2 (List.prefix_append _ _)
  cases hscan : scan (p.text.toList ++ rest) with
  | none =>
    have hnone := List.findSome?_eq_none_iff.1 hscan p (mem_symbols p)
    simp [hself] at hnone
  | some found =>
    obtain ⟨before, q, after, hsplit, hq, hbefore⟩ := List.findSome?_eq_some_iff.1 hscan
    split at hq
    · next hpre =>
      have hlen : p.text.toList.length ≤ q.text.toList.length := by
        have hmem := mem_symbols p
        have hsorted := symbols_sorted
        rw [hsplit] at hmem hsorted
        rcases List.mem_append.1 hmem with hb | hb
        · have hnone := hbefore p hb
          simp [hself] at hnone
        · rcases List.mem_cons.1 hb with rfl | ha
          · exact Nat.le_refl _
          · exact (List.pairwise_cons.1 (List.pairwise_append.1 hsorted).2.1).1 p ha
      obtain rfl := eq_of_isPrefix_text h hlen ( List.isPrefixOf_iff_prefix.1 hpre)
      cases hq
      simp
    · cases hq

/-- No symbol starts like a lexeme of another class. -/
theorem cut_of_mem_symbols {p : Punct} (hp : p ∈ symbols) {c : Char}
    (hc : c ∈ p.text.toList.head?) :
    (Lexeme.isBlank c || c == '#' || c == '\\' || c == '\n' || Lexeme.isQuote c || c.isDigit ||
      Lexeme.isWordStart c) = false := by
  have hall : symbols.all fun p => p.text.toList.head?.all fun c =>
      !(Lexeme.isBlank c || c == '#' || c == '\\' || c == '\n' || Lexeme.isQuote c || c.isDigit ||
        Lexeme.isWordStart c) := by decide
  have hp := List.all_eq_true.mp hall p hp
  simpa only [Option.mem_def.mp hc, Option.all_some, Bool.not_eq_true'] using hp

theorem cut_text_append (p : Punct) {c : Char} {cs rest : List Char}
    (hcs : p.text.toList ++ rest = c :: cs) (h : endsBefore rest) :
    Lexeme.cut c cs = ⟨.token (.punct p), p.text.toList, rest⟩ := by
  have hc : c ∈ p.text.toList.head? := by
    cases ht : p.text.toList with
    | nil => exact absurd ht (toList_text_ne_nil p)
    | cons d ds => rw [ht] at hcs; cases hcs; rfl
  have hclass := cut_of_mem_symbols (mem_symbols p) hc
  simp only [Bool.or_eq_false_iff] at hclass
  simp only [Lexeme.cut, hclass, Bool.false_eq_true, if_false, Lexeme.symbolCut, ← hcs,
    scan_text_append p h]

end Punct

namespace TokenKind

/-- Whether a token can be written out. -/
def isWritten : TokenKind → Bool
  | .name id => isIdentifier id
  | .numeral form text => form.spells text
  | .punct _ => true
  | _ => false

/-- Whether a token ends where its spelling does when this text follows. -/
def standsBefore (kind : TokenKind) (rest : List Char) : Bool :=
  match kind with
  | .punct _ => Punct.endsBefore rest
  | _ => Lexeme.detached rest

theorem cut_name {id : String} {c : Char} {cs rest : List Char} (hid : isIdentifier id)
    (hcs : id.toList ++ rest = c :: cs) (h : Lexeme.detached rest) :
    Lexeme.cut c cs = ⟨.token (.name id), id.toList, rest⟩ := by
  unfold isIdentifier at hid
  cases hw : id.toList with
  | nil => rw [hw] at hid; cases hid
  | cons d ds =>
    rw [hw] at hid hcs
    rw [List.cons_append] at hcs
    obtain ⟨rfl, rfl⟩ := List.cons.inj hcs
    simp only [Bool.and_eq_true, List.all_eq_true] at hid
    rw [Lexeme.cut_word hid.1 hid.2 h, ← hw, String.ofList_toList]

theorem cut_numeral {form : Numeral} {text : String} {c : Char} {cs rest : List Char}
    (htext : form.spells text) (hcs : text.toList ++ rest = c :: cs) (h : Lexeme.detached rest) :
    Lexeme.cut c cs = ⟨.token (.numeral form text), text.toList, rest⟩ := by
  unfold Numeral.spells at htext
  split at htext
  · next d ds hw =>
    rw [hw, List.cons_append] at hcs
    obtain ⟨rfl, rfl⟩ := List.cons.inj hcs
    simp only [Bool.and_eq_true, List.all_eq_true] at htext
    rw [Lexeme.cut_int htext.1 htext.2 h, Lexeme.numeralToken, ← hw, String.ofList_toList]
  · next x y ys hw =>
    rw [hw, List.cons_append] at hcs
    obtain ⟨rfl, rfl⟩ := List.cons.inj hcs
    simp only [Bool.and_eq_true, List.all_eq_true] at htext
    rw [Lexeme.cut_hex htext.1.1 htext.1.2 htext.2 h, Lexeme.numeralToken, ← hw,
      String.ofList_toList]
  · next d ds hw =>
    simp only [Bool.and_eq_true] at htext
    obtain ⟨hd, hpoint⟩ := htext
    split at hpoint
    · next e es hds =>
      simp only [Bool.and_eq_true, List.all_eq_true] at hpoint
      have hsplit : ds = ds.takeWhile Lexeme.isDigitOrBar ++ '.' :: e :: es := by
        rw [← hds, List.takeWhile_append_dropWhile]
      have hwhole : ∀ x ∈ ds.takeWhile Lexeme.isDigitOrBar, Lexeme.isDigitOrBar x :=
        List.all_eq_true.1 List.all_takeWhile
      rw [hw, hsplit] at hcs
      simp only [List.cons_append, List.append_assoc, List.cons.injEq] at hcs
      obtain ⟨rfl, rfl⟩ := hcs
      rw [Lexeme.cut_decimal hd hwhole hpoint.1 hpoint.2 h, Lexeme.numeralToken, List.cons_append,
        ← hsplit, ← hw, String.ofList_toList]
    · cases hpoint
  · cases htext

theorem spelling_ne_nil {kind : TokenKind} (h : kind.isWritten) : kind.spelling ≠ [] := by
  cases kind with
  | name id =>
    intro hnil
    simp only [spelling] at hnil
    simp [isWritten, isIdentifier, hnil] at h
  | numeral form text =>
    intro hnil
    simp only [spelling] at hnil
    cases form <;> simp [isWritten, Numeral.spells, hnil] at h
  | punct p => exact Punct.toList_text_ne_nil p
  | _ => cases h

/-- A written token is cut off as it was written. -/
theorem cut_spelling {kind : TokenKind} {c : Char} {cs rest : List Char} (hk : kind.isWritten)
    (hcs : kind.spelling ++ rest = c :: cs) (h : kind.standsBefore rest) :
    Lexeme.cut c cs = ⟨.token kind, kind.spelling, rest⟩ := by
  cases kind with
  | name id => exact cut_name hk hcs h
  | numeral form text => exact cut_numeral hk hcs h
  | punct p => exact Punct.cut_text_append p hcs h
  | _ => cases hk

end TokenKind

namespace Lexeme

theorem scan_spelling {kind : TokenKind} {rest : List Char} (m : Mark) (hk : kind.isWritten)
    (h : kind.standsBefore rest) :
    scan m (kind.spelling ++ rest) =
      ⟨.token kind, ⟨m.pos, (m.advance kind.spelling).pos⟩, m.width⟩ ::
        scan (m.advance kind.spelling) rest := by
  cases hcs : kind.spelling ++ rest with
  | nil => exact absurd (List.append_eq_nil_iff.1 hcs).1 (TokenKind.spelling_ne_nil hk)
  | cons c cs =>
    rw [scan, TokenKind.cut_spelling hk hcs h]

theorem scan_blank {rest : List Char} (m : Mark) (h : ∀ c ∈ rest.head?, isBlank c = false) :
    scan m (' ' :: rest) =
      ⟨.gap, ⟨m.pos, (m.advance [' ']).pos⟩, m.width⟩ :: scan (m.advance [' ']) rest := by
  have hcut : cut ' ' rest = ⟨.gap, [' '], rest⟩ :=
    run_append_of_stop (w := []) [' '] (fun _ => .gap) (by simp) h
  rw [scan, hcut]

end Lexeme

namespace Piece

@[simp] theorem textOf_nil : textOf [] = [] := rfl

@[simp] theorem textOf_cons (p : Piece) (ps : List Piece) :
    textOf (p :: ps) = p.text ++ textOf ps := rfl

@[simp] theorem textOf_append (ps qs : List Piece) : textOf (ps ++ qs) = textOf ps ++ textOf qs :=
  List.flatMap_append

@[simp] theorem kindsOf_nil : kindsOf [] = [] := rfl

@[simp] theorem kindsOf_append (ps qs : List Piece) :
    kindsOf (ps ++ qs) = kindsOf ps ++ kindsOf qs :=
  List.filterMap_append

@[simp] theorem kindsOf_blank (ps : List Piece) : kindsOf (.blank :: ps) = kindsOf ps := rfl

@[simp] theorem kindsOf_token (kind : TokenKind) (ps : List Piece) :
    kindsOf (.token kind :: ps) = kind :: kindsOf ps := rfl

/-- Whether the tokens of a row can be told apart when a text follows the row. -/
def Spaced : List Piece → List Char → Prop
  | [], _ => True
  | .blank :: ps, tail => (∀ c ∈ (textOf ps ++ tail).head?, Lexeme.isBlank c = false) ∧
      Spaced ps tail
  | .token kind :: ps, tail =>
    kind.isWritten ∧ kind.standsBefore (textOf ps ++ tail) ∧ Spaced ps tail

theorem spaced_append {ps qs : List Piece} {tail : List Char} :
    Spaced (ps ++ qs) tail ↔ Spaced ps (textOf qs ++ tail) ∧ Spaced qs tail := by
  induction ps with
  | nil => simp [Spaced]
  | cons p ps ih => cases p <;> simp [Spaced, ih, List.append_assoc, and_assoc]

end Piece

namespace Layout

theorem tokens_cons_of_feed {s t : Layout} {p : Placed} {out : List Token}
    (h : s.feed p = .ok (out, t)) (eof : Span) (ps : List Placed) :
    s.tokens eof (p :: ps) = (out ++ ·) <$> t.tokens eof ps := by
  rw [tokens, h]
  rfl

theorem tokens_cons_of_feed_none {s : Layout} {p : Placed} (h : s.feed p = .ok ([], s))
    (eof : Span) (ps : List Placed) : s.tokens eof (p :: ps) = s.tokens eof ps := by
  rw [tokens_cons_of_feed h]
  simp

/-- The state after a token on a line that has begun. -/
def afterToken (s : Layout) (kind : TokenKind) : Layout :=
  { s with fresh := false, inLine := true, depth := depthAfter s.depth kind }

theorem feed_token_of_not_fresh {s : Layout} (hs : s.fresh = false) (kind : TokenKind) (span : Span)
    (width : Nat) : s.feed ⟨.token kind, span, width⟩ =
      .ok ([⟨kind, span⟩], s.afterToken kind) := by
  simp only [feed, hs, Bool.false_and, Bool.false_eq_true, if_false]
  rfl

/-- A row in the middle of a line adds its tokens and nothing else. -/
theorem tokens_row {ps : List Piece} {tail : List Char} (h : Piece.Spaced ps tail) (s : Layout)
    (hs : s.fresh = false) (hin : s.inLine = true) (m : Mark) (eof : Span) :
    ∃ (out : List Token) (depth : Nat) (m' : Mark),
      out.map Token.kind = Piece.kindsOf ps ∧
      s.tokens eof (Lexeme.scan m (Piece.textOf ps ++ tail)) =
        (out ++ ·) <$> ({ s with depth } : Layout).tokens eof (Lexeme.scan m' tail) := by
  induction ps generalizing s m with
  | nil => exact ⟨[], s.depth, m, rfl, by simp⟩
  | cons p ps ih =>
    cases p with
    | blank =>
      obtain ⟨out, depth, m', hout, heq⟩ := ih h.2 s hs hin (m.advance [' '])
      refine ⟨out, depth, m', hout, ?_⟩
      change s.tokens eof (Lexeme.scan m (' ' :: (Piece.textOf ps ++ tail))) = _
      rw [Lexeme.scan_blank m h.1, tokens_cons_of_feed_none rfl, heq]
    | token kind =>
      obtain ⟨out, depth, m', hout, heq⟩ :=
        ih h.2.2 (s.afterToken kind) rfl rfl (m.advance kind.spelling)
      have hstate : ({ s.afterToken kind with depth } : Layout) = { s with depth } := by
        simp [afterToken, hs, hin]
      refine ⟨⟨kind, ⟨m.pos, (m.advance kind.spelling).pos⟩⟩ :: out, depth, m', ?_, ?_⟩
      · simp [hout]
      · rw [Piece.textOf_cons, List.append_assoc]
        change s.tokens eof (Lexeme.scan m (kind.spelling ++ (Piece.textOf ps ++ tail))) = _
        rw [Lexeme.scan_spelling m h.1 h.2.1, tokens_cons_of_feed (feed_token_of_not_fresh hs ..),
          heq, hstate]
        simp

/-- The line feed after a line ends it, or else the end of the text does. -/
theorem tokens_lineFeed (s : Layout) (hin : s.inLine = true) (hlevels : s.levels = []) (m : Mark)
    (eof : Span) : ∃ span, s.tokens eof (Lexeme.scan m ['\n']) = .ok [⟨.newline, span⟩] := by
  have hcut : Lexeme.cut '\n' [] = ⟨.lineFeed, ['\n'], []⟩ := rfl
  rw [Lexeme.scan, hcut, Lexeme.scan]
  by_cases hdepth : s.depth = 0
  · refine ⟨⟨m.pos, (m.advance ['\n']).pos⟩, ?_⟩
    rw [tokens_cons_of_feed (by simp only [feed, hdepth, hin]; rfl)]
    simp only [tokens, finish, hlevels]
    rfl
  · refine ⟨eof, ?_⟩
    rw [tokens_cons_of_feed_none (by simp only [feed, hdepth]; rfl)]
    simp only [tokens, finish, hlevels, hin]
    rfl

end Layout

/-- A line that starts with a token and holds a row of pieces becomes the tokens of the row and the
mark that ends it. -/
theorem TokenStream.exists_ofText_line {kind : TokenKind} {ps : List Piece}
    (h : Piece.Spaced (.token kind :: ps) ['\n']) :
    ∃ stream, TokenStream.ofText (Piece.textOf (.token kind :: ps) ++ ['\n']) = .ok stream ∧
      stream.tokens.map Token.kind = Piece.kindsOf (.token kind :: ps) ++ [.newline] := by
  let s : Layout := Layout.afterToken {} kind
  let eof := Span.point (Pos.origin.advance (Piece.textOf (.token kind :: ps) ++ ['\n']))
  have hfeed : ∀ span, Layout.feed {} ⟨.token kind, span, Mark.origin.width⟩ =
      .ok ([⟨kind, span⟩], s) := fun span => rfl
  obtain ⟨out, depth, m, hout, hrow⟩ :=
    Layout.tokens_row h.2.2 s rfl rfl (Mark.origin.advance kind.spelling) eof
  obtain ⟨last, hlast⟩ := Layout.tokens_lineFeed { s with depth } rfl rfl m eof
  let first : Token := ⟨kind, ⟨Mark.origin.pos, (Mark.origin.advance kind.spelling).pos⟩⟩
  have htokens : Layout.tokens {} eof
      (Lexeme.scan Mark.origin (Piece.textOf (.token kind :: ps) ++ ['\n'])) =
      .ok (first :: out ++ [⟨.newline, last⟩]) := by
    rw [Piece.textOf_cons, List.append_assoc]
    change Layout.tokens {} eof
      (Lexeme.scan Mark.origin (kind.spelling ++ (Piece.textOf ps ++ ['\n']))) = _
    rw [Lexeme.scan_spelling Mark.origin h.1 h.2.1, Layout.tokens_cons_of_feed (hfeed _),
      hrow, hlast]
    rfl
  refine ⟨⟨first :: out ++ [⟨.newline, last⟩], eof⟩, ?_, ?_⟩
  · rw [TokenStream.ofText, htokens]
    rfl
  · simp [first, hout]

namespace Piece

/-- Whether any token ends before this text. -/
def separates (rest : List Char) : Bool := Lexeme.detached rest && Punct.endsBefore rest

/-- A text that any token may stand before, blanks included, unless it is a word or a number. -/
def Begins (text : List Char) : Prop :=
  ∃ c cs, text = c :: cs ∧ Lexeme.isBlank c = false ∧ c ∉ Punct.extenders

/-- A row that can stand after any symbol and before any text that separates. -/
structure SelfContained (ps : List Piece) : Prop where
  begins : Begins (textOf ps)
  spaced : ∀ tail, separates tail → Spaced ps tail

/-- A row between two self-contained ones. -/
structure Separator (sep : List Piece) : Prop where
  ends : ∀ text, Begins text → separates (textOf sep ++ text)
  spaced : ∀ text, Begins text → Spaced sep text

theorem standsBefore_of_separates {rest : List Char} (h : separates rest) (kind : TokenKind) :
    kind.standsBefore rest := by
  simp only [separates, Bool.and_eq_true] at h
  cases kind with
  | punct p => exact h.2
  | _ => exact h.1

theorem Begins.append {text : List Char} (h : Begins text) (tail : List Char) :
    Begins (text ++ tail) := by
  obtain ⟨c, cs, rfl, hblank, hext⟩ := h
  exact ⟨c, cs ++ tail, rfl, hblank, hext⟩

theorem Begins.endsBefore {text : List Char} (h : Begins text) : Punct.endsBefore text := by
  obtain ⟨c, cs, rfl, -, hext⟩ := h
  simp [Punct.endsBefore, hext]

theorem Begins.not_isBlank {text : List Char} (h : Begins text) :
    ∀ c ∈ text.head?, Lexeme.isBlank c = false := by
  obtain ⟨c, cs, rfl, hblank, -⟩ := h
  rintro d ⟨⟩
  exact hblank

theorem begins_of_isWordPart {c : Char} (h : Lexeme.isWordPart c) (cs : List Char) :
    Begins (c :: cs) := by
  have hne : ∀ d, Lexeme.isWordPart d = false → (c == d) = false :=
    fun d => Lexeme.beq_eq_false_of_class h
  refine ⟨c, cs, rfl, ?_, ?_⟩
  · simp [Lexeme.isBlank, hne ' ' (by decide), hne '\t' (by decide), hne '\r' (by decide),
      hne '\x0c' (by decide)]
  · intro hmem
    have hall : Punct.extenders.all fun d => !Lexeme.isWordPart d := by decide
    have hext := List.all_eq_true.mp hall c hmem
    simp [h] at hext

/-- A token alone, if its first character is not that of a longer symbol. -/
theorem selfContained_token {kind : TokenKind} (hk : kind.isWritten) (h : Begins kind.spelling) :
    SelfContained [.token kind] where
  begins := by simpa [text] using h
  spaced tail ht := ⟨hk, standsBefore_of_separates ht kind, trivial⟩

theorem selfContained_symbol {p : Punct} (h : Begins p.text.toList) : SelfContained [.symbol p] :=
  selfContained_token rfl h

theorem selfContained_word {w : String} (h : isIdentifier w) : SelfContained [.word w] := by
  have hw := h
  unfold isIdentifier at hw
  split at hw
  · cases hw
  · next c cs hcs =>
    simp only [Bool.and_eq_true] at hw
    refine selfContained_token h ?_
    rw [TokenKind.spelling, hcs]
    exact begins_of_isWordPart (Lexeme.isWordPart_of_isWordStart hw.1) cs

theorem selfContained_numeral {form : Numeral} {text : String} (h : form.spells text) :
    SelfContained [.token (.numeral form text)] := by
  refine selfContained_token h ?_
  have hdigit : ∀ c cs, text.toList = c :: cs → c.isDigit → Begins text.toList := by
    intro c cs hcs hc
    rw [hcs]
    exact begins_of_isWordPart (Lexeme.isWordPart_of_isDigitOrBar
      (by simp [Lexeme.isDigitOrBar, hc])) cs
  unfold Numeral.spells at h
  split at h
  · next c cs hcs => exact hdigit c cs hcs (Bool.and_eq_true .. ▸ h).1
  · next x y ys hcs => exact hdigit '0' _ hcs (by decide)
  · next c cs hcs => exact hdigit c cs hcs (Bool.and_eq_true .. ▸ h).1
  · cases h

theorem isBlank_eq_false_of_spelling {kind : TokenKind} (hk : kind.isWritten) :
    ∀ c ∈ kind.spelling.head?, Lexeme.isBlank c = false := by
  cases kind with
  | name id => simpa [text, word] using (selfContained_word hk).begins.not_isBlank
  | numeral form digits => simpa [text] using (selfContained_numeral hk).begins.not_isBlank
  | punct p =>
    intro c hc
    have hclass := Punct.cut_of_mem_symbols (Punct.mem_symbols p) hc
    simp only [Bool.or_eq_false_iff] at hclass
    exact hclass.1.1.1.1.1.1
  | _ => cases hk

/-- A token with blanks on both sides. -/
theorem separator_token {kind : TokenKind} (hk : kind.isWritten) :
    Separator [.blank, .token kind, .blank] where
  ends _ _ := rfl
  spaced text h := by
    have hblank : ∀ c ∈ (textOf [.token kind, .blank] ++ text).head?, Lexeme.isBlank c = false := by
      intro c hc
      cases hs : kind.spelling with
      | nil => exact absurd hs (TokenKind.spelling_ne_nil hk)
      | cons d ds =>
        simp [Piece.text, hs] at hc
        subst hc
        exact isBlank_eq_false_of_spelling hk d (by rw [hs]; rfl)
    have hstands : kind.standsBefore (textOf [.blank] ++ text) := standsBefore_of_separates rfl kind
    exact ⟨hblank, hk, hstands, h.not_isBlank, trivial⟩

/-- A row after a symbol that nothing begins with. -/
theorem SelfContained.cons_symbol {p : Punct} {ps : List Piece} (hp : Begins p.text.toList)
    (h : SelfContained ps) : SelfContained (.symbol p :: ps) where
  begins := hp.append _
  spaced tail ht := ⟨rfl, (h.begins.append tail).endsBefore, h.spaced tail ht⟩

/-- Two rows with a separator between them. -/
theorem SelfContained.join {ps sep qs : List Piece} (hp : SelfContained ps) (hsep : Separator sep)
    (hq : SelfContained qs) : SelfContained (ps ++ sep ++ qs) where
  begins := by
    rw [textOf_append, textOf_append, List.append_assoc]
    exact hp.begins.append _
  spaced tail ht := by
    have hbegins := hq.begins.append tail
    rw [List.append_assoc, spaced_append, spaced_append, textOf_append, List.append_assoc]
    exact ⟨hp.spaced _ (hsep.ends _ hbegins), hsep.spaced _ hbegins, hq.spaced tail ht⟩

theorem selfContained_intercalate {sep : List Piece} (hsep : Separator sep)
    {rows : List (List Piece)} (h : ∀ row ∈ rows, SelfContained row) (hne : rows ≠ []) :
    SelfContained (List.intercalate sep rows) := by
  induction rows with
  | nil => exact absurd rfl hne
  | cons row rows ih =>
    cases rows with
    | nil =>
      rw [List.intercalate_singleton]
      exact h row List.mem_cons_self
    | cons next rows =>
      rw [List.intercalate_cons_cons]
      exact (h row List.mem_cons_self).join hsep
        (ih (fun r hr => h r (List.mem_cons_of_mem _ hr)) (List.cons_ne_nil _ _))

/-- Two rows, of which the second starts with a symbol that ends every token. -/
theorem SelfContained.append {ps qs : List Piece} (hp : SelfContained ps) (hq : SelfContained qs)
    (hsep : ∀ tail, separates (textOf qs ++ tail)) : SelfContained (ps ++ qs) where
  begins := by
    rw [textOf_append]
    exact hp.begins.append _
  spaced tail ht := spaced_append.2 ⟨hp.spaced _ (hsep tail), hq.spaced tail ht⟩

/-- The brackets of the language. -/
inductive Brackets : Punct → Punct → Prop where
  | round : Brackets .openParen .closeParen
  | square : Brackets .openBracket .closeBracket
  | curly : Brackets .openBrace .closeBrace

theorem Brackets.begins {opening closing : Punct} (h : Brackets opening closing) :
    Begins opening.text.toList ∧ Begins closing.text.toList := by
  cases h <;> exact ⟨⟨_, _, rfl, by decide, by decide⟩, ⟨_, _, rfl, by decide, by decide⟩⟩

theorem Brackets.separates {opening closing : Punct} (h : Brackets opening closing)
    (tail : List Char) :
    Piece.separates (opening.text.toList ++ tail) ∧
      Piece.separates (closing.text.toList ++ tail) := by
  cases h <;> exact ⟨rfl, rfl⟩

theorem separator_commas : Separator [.symbol .comma, .blank] where
  ends _ _ := rfl
  spaced _ h := ⟨rfl, rfl, h.not_isBlank, trivial⟩

theorem separator_colon : Separator [.symbol .colon, .blank] where
  ends _ _ := rfl
  spaced _ h := ⟨rfl, rfl, h.not_isBlank, trivial⟩

/-- A named argument. -/
theorem SelfContained.keyword {ps : List Piece} (h : SelfContained ps) {name : String}
    (hname : isIdentifier name) : SelfContained (.word name :: .symbol .assign :: ps) where
  begins := by
    have hbegins := (selfContained_word hname).begins.append (textOf (.symbol .assign :: ps))
    rwa [← textOf_append] at hbegins
  spaced tail ht := ⟨hname, rfl, rfl, (h.begins.append tail).endsBefore, h.spaced tail ht⟩

/-- The one element of a tuple, with the comma that makes it one. -/
theorem SelfContained.lone {ps : List Piece} (h : SelfContained ps) :
    SelfContained (.symbol .openParen :: ps ++ [.symbol .comma, .symbol .closeParen]) := by
  have hclose : SelfContained [.symbol .closeParen] :=
    selfContained_symbol ⟨_, _, rfl, by decide, by decide⟩
  have hcomma : SelfContained [.symbol .comma, .symbol .closeParen] :=
    hclose.cons_symbol ⟨_, _, rfl, by decide, by decide⟩
  exact (h.append hcomma fun _ => rfl).cons_symbol ⟨_, _, rfl, by decide, by decide⟩

theorem SelfContained.bracket {opening closing : Punct} (hb : Brackets opening closing)
    {ps : List Piece} (h : SelfContained ps) :
    SelfContained (.symbol opening :: ps ++ [.symbol closing]) := by
  have hclose : SelfContained [.symbol closing] :=
    selfContained_symbol hb.begins.2
  refine (h.append hclose fun tail => ?_).cons_symbol hb.begins.1
  simpa [symbol, text, TokenKind.spelling] using (hb.separates tail).2

theorem selfContained_commas {opening closing : Punct} (hb : Brackets opening closing)
    {rows : List (List Piece)} (h : ∀ row ∈ rows, SelfContained row) :
    SelfContained (.symbol opening :: commas rows ++ [.symbol closing]) := by
  cases rows with
  | nil =>
    exact (selfContained_symbol hb.begins.2).cons_symbol hb.begins.1
  | cons row rows =>
    exact (selfContained_intercalate separator_commas h (List.cons_ne_nil _ _)).bracket hb

theorem SelfContained.enclose {ps : List Piece} (h : SelfContained ps) (least level : Nat) :
    SelfContained (enclose least level ps) := by
  unfold Piece.enclose
  split
  · exact h.bracket .round
  · exact h

end Piece

theorem BoolOp.separator (op : BoolOp) : Piece.Separator op.pieces :=
  Piece.separator_token (by cases op <;> decide)

theorem BinaryOp.separator (op : BinaryOp) : Piece.Separator op.pieces :=
  Piece.separator_token rfl

theorem CompareOp.separator (op : CompareOp) : Piece.Separator op.pieces := by
  cases op with
  | relation r => exact Piece.separator_token rfl
  | isIn => exact Piece.separator_token (by decide)
  | notIn =>
    have hin : Piece.Separator [.blank, .word "in", .blank] := Piece.separator_token (by decide)
    exact ⟨fun _ _ => rfl, fun text h =>
      ⟨by rintro c ⟨⟩; decide, by decide, rfl, hin.spaced text h⟩⟩

theorem UnaryOp.selfContained (op : UnaryOp) {ps : List Piece} (h : Piece.SelfContained ps) :
    Piece.SelfContained (op.pieces ++ ps) := by
  cases op with
  | not =>
    refine ⟨⟨'n', _, rfl, by decide, by decide⟩, fun tail ht => ?_⟩
    exact ⟨by decide, rfl, (h.begins.append tail).not_isBlank, h.spaced tail ht⟩
  | neg => exact h.cons_symbol ⟨_, _, rfl, by decide, by decide⟩
  | pos => exact h.cons_symbol ⟨_, _, rfl, by decide, by decide⟩
  | invert => exact h.cons_symbol ⟨_, _, rfl, by decide, by decide⟩

theorem Piece.SelfContained.member {ps : List Piece} (h : Piece.SelfContained ps) {attr : String}
    (hattr : isIdentifier attr) : Piece.SelfContained (ps ++ [.symbol .dot, .word attr]) := by
  have hdot : Piece.Begins (Punct.text .dot).toList := ⟨_, _, rfl, by decide, by decide⟩
  refine h.append ((Piece.selfContained_word hattr).cons_symbol hdot) fun tail => ?_
  unfold isIdentifier at hattr
  split at hattr
  · cases hattr
  · next c cs hcs =>
    simp only [Bool.and_eq_true] at hattr
    have hc := Lexeme.isDigit_eq_false_of_isWordStart hattr.1
    simp [Piece.separates, Piece.text, Piece.symbol, Piece.word, TokenKind.spelling,
      Punct.text, hcs, Lexeme.detached, Punct.endsBefore, Punct.extenders, hc]

/-- A row followed by brackets. -/
theorem Piece.SelfContained.trailer {opening closing : Punct} (hb : Piece.Brackets opening closing)
    {ps qs : List Piece} (hp : Piece.SelfContained ps)
    (hq : Piece.SelfContained (.symbol opening :: qs ++ [.symbol closing])) :
    Piece.SelfContained (ps ++ .symbol opening :: qs ++ [.symbol closing]) := by
  rw [List.append_assoc]
  refine hp.append hq fun tail => ?_
  rw [List.cons_append, Piece.textOf_cons, List.append_assoc]
  exact (hb.separates _).1

namespace Expr

/-- The row of an expression can stand after any symbol, on its own and between the brackets of a
subscript. -/
theorem Writable.selfContained {e : Expr} (h : e.Writable) :
    Piece.SelfContained e.pieces ∧ Piece.SelfContained e.slicePieces := by
  induction h with
  | name hid hfree => exact ⟨Piece.selfContained_word hid, Piece.selfContained_word hid⟩
  | numeral htext => exact ⟨Piece.selfContained_numeral htext, Piece.selfContained_numeral htext⟩
  | @truth span value =>
    have h : isIdentifier (if value then "True" else "False") := by cases value <;> decide
    exact ⟨Piece.selfContained_word h, Piece.selfContained_word h⟩
  | @member span value attr hvalue hattr ih =>
    have h := (ih.1.enclose 11 value.level).member hattr
    exact ⟨h, h⟩
  | @call span func args keywords hfunc hargs hwords hvalues ih ihargs ihvalues =>
    have hrows : ∀ row ∈ Expr.piecesOf 0 args ++ Keyword.piecesOf keywords,
        Piece.SelfContained row := by
      rw [Expr.piecesOf_eq, Keyword.piecesOf_eq]
      intro row hrow
      rcases List.mem_append.1 hrow with hrow | hrow
      · obtain ⟨a, ha, rfl⟩ := List.mem_map.1 hrow
        exact (ihargs a ha).1
      · obtain ⟨⟨place, name, value⟩, hk, rfl⟩ := List.mem_map.1 hrow
        exact (ihvalues _ hk).1.keyword (hwords _ hk)
    have h := (ih.1.enclose 11 func.level).trailer .round (Piece.selfContained_commas .round hrows)
    exact ⟨h, h⟩
  | @subscript span value slice hvalue hslice ih ihslice =>
    have h := (ih.1.enclose 11 value.level).trailer .square (ihslice.2.bracket .square)
    rw [← Expr.piecesAt, ← Expr.pieces_subscript span] at h
    exact ⟨h, h⟩
  | @binary span left right op hleft hright ihleft ihright =>
    have h := (ihleft.1.enclose op.leftLevel left.level).join op.separator
      (ihright.1.enclose op.rightLevel right.level)
    exact ⟨h, h⟩
  | @compare span left right op hleft hright ihleft ihright =>
    have h := (ihleft.1.enclose 3 left.level).join op.separator (ihright.1.enclose 4 right.level)
    exact ⟨h, h⟩
  | @logical span op values hlen hvalues ih =>
    have h : Piece.SelfContained
        (List.intercalate op.pieces (Expr.piecesOf (op.level + 1) values)) := by
      rw [Expr.piecesOf_eq]
      refine Piece.selfContained_intercalate op.separator ?_ ?_
      · intro row hrow
        obtain ⟨v, hv, rfl⟩ := List.mem_map.1 hrow
        exact (ih v hv).1.enclose _ _
      · intro hnil
        rw [List.map_eq_nil_iff] at hnil
        rw [hnil] at hlen
        exact absurd hlen (by decide)
    exact ⟨h, h⟩
  | @unary span op operand hoperand ih =>
    have h := op.selfContained (ih.1.enclose op.level operand.level)
    exact ⟨h, h⟩
  | @tuple span elements helements ih =>
    have hrows : ∀ row ∈ elements.map Expr.pieces, Piece.SelfContained row := by
      intro row hrow
      obtain ⟨e, he, rfl⟩ := List.mem_map.1 hrow
      exact (ih e he).1
    have hcommas := Piece.selfContained_commas .round hrows
    rcases elements with _ | ⟨first, _ | ⟨second, rest⟩⟩
    · exact ⟨hcommas, hcommas⟩
    · have h := (ih first List.mem_cons_self).1.lone
      exact ⟨h, h⟩
    · refine ⟨?_, Piece.selfContained_intercalate Piece.separator_commas hrows
        (List.cons_ne_nil _ _)⟩
      rw [Expr.pieces, Expr.piecesOf_eq]
      · exact hcommas
      · simp
  | @list span elements helements ih =>
    have hrows : ∀ row ∈ Expr.piecesOf 0 elements, Piece.SelfContained row := by
      rw [Expr.piecesOf_eq]
      intro row hrow
      obtain ⟨e, he, rfl⟩ := List.mem_map.1 hrow
      exact (ih e he).1
    have h := Piece.selfContained_commas .square hrows
    exact ⟨h, h⟩
  | @dict span entries hkeys hvalues ihkeys ihvalues =>
    have hrows : ∀ row ∈ Entry.piecesOf entries, Piece.SelfContained row := by
      rw [Entry.piecesOf_eq]
      intro row hrow
      obtain ⟨⟨key, value⟩, he, rfl⟩ := List.mem_map.1 hrow
      have h := (ihkeys _ he).1.join Piece.separator_colon (ihvalues _ he).1
      rwa [List.append_assoc] at h
    have h := Piece.selfContained_commas .curly hrows
    exact ⟨h, h⟩

end Expr

end Vyper
