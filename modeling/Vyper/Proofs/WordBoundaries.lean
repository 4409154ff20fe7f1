import Vyper.Editor.LineCursor
import Vyper.Proofs.Anchoring

/-!
# Word boundaries

An editor finds the words of a line by looking at characters, the parser by tokens. The two agree on
every name of a tree: no character that could belong to a word stands right before it or right
behind it (`Token.Headed.isolated`, `Module.IsTreeOf.dotted`), nor a dot before a name that is no
member. A name ends where no more such characters follow; the only tokens that can touch it from the
left with one are numerals and the dot, and those the grammar rules out.
-/

namespace Vyper

open LineCursor (isWordChar)

namespace Lexeme

variable {c : Char} {cs : List Char}

/-! ### Characters -/

theorem toNat_lt_of_isWordStart (h : isWordStart c = true) : c.toNat < 128 := by
  rw [isWordStart, Bool.or_eq_true, isAlpha_iff, beq_iff_eq] at h
  rcases h with h | rfl
  · change c.val.toNat < 128
    omega
  · decide

theorem toNat_lt_of_isDigit (h : c.isDigit = true) : c.toNat < 128 := by
  simp only [Char.isDigit, Bool.and_eq_true, decide_eq_true_eq, ge_iff_le,
    UInt32.le_iff_toNat_le] at h
  have hnine : ('9' : Char).val.toNat = 57 := rfl
  change c.val.toNat < 128
  omega

theorem toNat_lt_of_symbolCut (h : ∀ fault, (symbolCut c cs).lexeme ≠ .bad fault) :
    c.toNat < 128 := by
  fun_cases symbolCut c cs with
  | case1 p rest hscan =>
    have hall : Punct.symbols.all fun p => p.text.toList.head?.all (·.toNat < 128) := by decide
    have hhead := List.all_eq_true.mp hall p (Punct.mem_symbols p)
    have happend := symbolCut_append c cs
    rw [symbolCut, hscan] at happend
    change p.text.toList ++ rest = c :: cs at happend
    obtain ⟨d, ds, hds⟩ := List.exists_cons_of_ne_nil (Punct.toList_text_ne_nil p)
    rw [hds] at happend hhead
    cases happend
    simpa using hhead
  | case2 hscan => exact absurd (by rw [symbolCut, hscan]) (h (.invalidCharacter c))

/-- Only ASCII characters begin a lexeme. -/
theorem toNat_lt_of_cut (h : ∀ fault, (cut c cs).lexeme ≠ .bad fault) : c.toNat < 128 := by
  unfold cut at h
  split at h
  · next hblank =>
    simp only [isBlank, Bool.or_eq_true, beq_iff_eq] at hblank
    rcases hblank with ((rfl | rfl) | rfl) | rfl <;> decide
  split at h
  · next hc => cases eq_of_beq hc; decide
  split at h
  · next hc => cases eq_of_beq hc; decide
  split at h
  · next hc => cases eq_of_beq hc; decide
  split at h
  · next hquote =>
    simp only [isQuote, Bool.or_eq_true, beq_iff_eq] at hquote
    rcases hquote with rfl | rfl <;> decide
  split at h
  · next hdigit => exact toNat_lt_of_isDigit hdigit
  split at h
  · next hstart => exact toNat_lt_of_isWordStart hstart
  · exact toNat_lt_of_symbolCut h

/-- Among ASCII characters, words are made of the same ones for an editor and for the lexer. -/
theorem isWordChar_eq_isWordPart (h : c.toNat < 128) : isWordChar c = isWordPart c := by
  rw [isWordChar, isWordPart, CharClass.isAlphanumeric, CharClass.isAlphabetic, if_pos h,
    CharClass.isNumeric, if_pos h, Char.isAlphanum]

theorem isWordChar_of_isWordPart (h : isWordPart c = true) : isWordChar c = true := by
  have hlt : c.toNat < 128 := by
    rw [isWordPart, Char.isAlphanum, Bool.or_assoc, Bool.or_comm c.isDigit, ← Bool.or_assoc,
      Bool.or_eq_true] at h
    rcases h with h | h
    · exact toNat_lt_of_isWordStart h
    · exact toNat_lt_of_isDigit h
  rwa [isWordChar_eq_isWordPart hlt]

/-! ### What a name touches -/

theorem eq_cons_of_isIdentifier {id : String} (h : isIdentifier id = true) :
    ∃ d ds, id.toList = d :: ds ∧ isWordStart d = true ∧ ∀ e ∈ ds, isWordPart e = true := by
  unfold isIdentifier at h
  split at h
  · cases h
  · next d ds hds =>
    simp only [Bool.and_eq_true, List.all_eq_true] at h
    exact ⟨d, ds, hds, h⟩

theorem isWordPart_of_isIdentifier {name : String} (h : isIdentifier name = true) :
    ∀ c ∈ name.toList, isWordPart c = true := by
  obtain ⟨first, others, hname, hfirst, hothers⟩ := eq_cons_of_isIdentifier h
  rw [hname]
  exact List.forall_mem_cons.mpr ⟨isWordPart_of_isWordStart hfirst, hothers⟩

theorem isWordChar_of_isIdentifier {name : String} (h : isIdentifier name = true) :
    ∀ c ∈ name.toList, isWordChar c = true :=
  fun c hc => isWordChar_of_isWordPart (isWordPart_of_isIdentifier h c hc)

theorem isEmpty_of_isIdentifier {name : String} (h : isIdentifier name = true) :
    name.isEmpty = false := by
  obtain ⟨first, others, hname, -⟩ := eq_cons_of_isIdentifier h
  refine Bool.eq_false_iff.mpr fun hempty => ?_
  rw [String.isEmpty_iff.mp hempty] at hname
  cases hname

theorem spells_of_cut {kind : TokenKind} (h : (cut c cs).lexeme = .token kind) :
    kind.Spells (cut c cs).text := by
  have hsorted := sorted_cut c cs
  generalize cut c cs = piece at *
  cases hsorted with
  | token hspells =>
    cases h
    exact hspells
  | _ => cases h

theorem lexeme_quotedCut_ne {opener : List Char} {q : Char} {make : String → TokenKind}
    {kind : TokenKind} (hmake : ∀ value, make value ≠ kind) :
    (quotedCut opener q cs make).lexeme ≠ .token kind := by
  unfold quotedCut
  dsimp only
  split
  · intro h
    cases h
    exact hmake _ rfl
  · nofun

/-- A name goes on as far as it can. -/
theorem isWordPart_of_name {id : String} (h : (cut c cs).lexeme = .token (.name id)) :
    ∀ d ∈ (cut c cs).rest.head?, isWordPart d = false := by
  have hstart : isWordStart c = true := by
    obtain ⟨hid, htext⟩ := spells_of_cut h
    obtain ⟨d, ds, hds, hd, -⟩ := eq_cons_of_isIdentifier hid
    have happend := cut_append c cs
    rw [htext, TokenKind.spelling, hds] at happend
    rwa [← (List.cons.inj happend).1]
  rw [cut_of_isWordStart hstart] at h ⊢
  unfold wordCut at h ⊢
  split at h
  · split at h
    · exact absurd h (lexeme_quotedCut_ne fun value hvalue => TokenKind.noConfusion hvalue)
    · next q rest hquote =>
      rw [if_neg hquote]
      intro d hd
      change d ∈ ((q :: rest).dropWhile isWordPart).head? at hd
      have hstop := List.head?_dropWhile_not isWordPart (q :: rest)
      rw [Option.mem_def.mp hd] at hstop
      simpa using hstop
  · exact fun d hd => absurd hd (Option.not_mem_none d)

/-- A character that does not take a word behind it for its own. -/
def parts (c : Char) : Bool := !isWordChar c && c != '.'

theorem isWordChar_of_parts (h : parts c = true) : isWordChar c = false := by
  rw [parts, Bool.and_eq_true, Bool.not_eq_true'] at h
  exact h.1

theorem parts_of_isQuote {q : Char} (h : isQuote q = true) : parts q = true := by
  simp only [isQuote, Bool.or_eq_true, beq_iff_eq] at h
  rcases h with rfl | rfl <;> decide

theorem parts_of_isBlank (h : isBlank c = true) : parts c = true := by
  simp only [isBlank, Bool.or_eq_true, beq_iff_eq] at h
  rcases h with ((rfl | rfl) | rfl) | rfl <;> decide

theorem parts_of_writes {value : String} {text : List Char} {last : Char}
    (h : StringLiteral.Writes value text) (hlast : last ∈ text.getLast?) : parts last = true := by
  obtain ⟨triple, q, body, hq, -, rfl, -⟩ := h
  have hquote : (StringLiteral.quotes triple q).getLast? = some q := by cases triple <;> rfl
  rw [List.getLast?_append, hquote] at hlast
  cases hlast
  exact parts_of_isQuote hq

/-- Names, numerals and the dot are the only tokens that take a word right behind them. -/
theorem parts_of_spells {kind : TokenKind} {text : List Char} {last : Char}
    (h : kind.Spells text) (hname : ∀ id, kind ≠ .name id) (hattaches : kind.attaches = false)
    (hlast : last ∈ text.getLast?) : parts last = true := by
  cases kind with
  | name id => exact absurd rfl (hname id)
  | numeral => cases hattaches
  | str value => exact parts_of_writes h hlast
  | bytes value =>
    obtain ⟨c, literal, -, rfl, hliteral⟩ := h
    obtain ⟨d, ds, rfl, -⟩ := (TokenKind.solid_of_writes hliteral).head
    rw [List.getLast?_cons_cons] at hlast
    exact parts_of_writes hliteral hlast
  | punct p =>
    obtain ⟨-, rfl⟩ := h
    have hall : Punct.symbols.all fun p =>
        (TokenKind.punct p).attaches || p.text.toList.getLast?.all parts := by decide
    have hp := List.all_eq_true.mp hall p (Punct.mem_symbols p)
    rw [TokenKind.spelling] at hlast
    rw [hattaches, Option.mem_def.mp hlast] at hp
    exact hp
  | _ => cases h.1

/-- What takes a word right behind it is a numeral or a dot. -/
theorem attaches_of_parts {last d : Char} (hgood : ∀ fault, (cut c cs).lexeme ≠ .bad fault)
    (hlast : last ∈ (cut c cs).text.getLast?) (hparts : parts last = false)
    (hnext : d ∈ (cut c cs).rest.head?) (hd : isWordPart d = true) :
    ∃ kind, (cut c cs).lexeme = .token kind ∧ kind.attaches = true := by
  have hsorted := sorted_cut c cs
  have hmunch : ∀ id, (cut c cs).lexeme = .token (.name id) →
      ∀ d ∈ (cut c cs).rest.head?, isWordPart d = false := fun _ => isWordPart_of_name
  have hfeed : parts '\n' = true := by decide
  generalize cut c cs = piece at *
  cases hsorted with
  | blanks hblanks =>
    have hblank := List.all_eq_true.mp hblanks last (List.mem_of_getLast? hlast)
    rw [parts_of_isBlank hblank] at hparts
    cases hparts
  | comment _ hstop =>
    cases hstop d hnext
    cases hd
  | continuation _ =>
    rw [List.getLast?_concat] at hlast
    cases hlast
    rw [hfeed] at hparts
    cases hparts
  | lineFeed =>
    obtain rfl : '\n' = last := by simpa using hlast
    rw [hfeed] at hparts
    cases hparts
  | @token kind text rest hspells =>
    refine ⟨kind, rfl, ?_⟩
    by_contra hattaches
    have hname : ∀ id, kind ≠ .name id := by
      rintro id rfl
      exact absurd (hmunch id rfl d hnext) (by rw [hd]; decide)
    have hend := parts_of_spells hspells hname (by simpa using hattaches) hlast
    rw [hend] at hparts
    cases hparts
  | bad => exact absurd rfl (hgood _)

/-! ### Lexemes in a row -/

variable {m : Mark} {text : List Char} {p : Placed} {ps qs : List Placed} {id : String}

theorem scan_cons_eq (h : scan m text = p :: ps) :
    ∃ c cs, text = c :: cs ∧ p.lexeme = (cut c cs).lexeme ∧
      p.span = ⟨m.pos, m.pos.advance (cut c cs).text⟩ ∧
      ps = scan (m.advance (cut c cs).text) (cut c cs).rest := by
  cases text with
  | nil =>
    rw [scan] at h
    cases h
  | cons c cs =>
    rw [scan] at h
    cases h
    exact ⟨c, cs, rfl, rfl, by rw [Mark.pos_advance], rfl⟩

theorem scan_append_eq (h : scan m text = ps ++ qs) :
    ∃ before rest, text = before ++ rest ∧ qs = scan (m.advance before) rest := by
  induction ps generalizing m text with
  | nil => exact ⟨[], text, rfl, h.symm⟩
  | cons p ps ih =>
    obtain ⟨c, cs, rfl, -, -, hps⟩ := scan_cons_eq h
    obtain ⟨before, rest, hrest, hqs⟩ := ih hps.symm
    refine ⟨(cut c cs).text ++ before, rest, ?_, ?_⟩
    · rw [List.append_assoc, ← hrest, cut_append]
    · rw [hqs, Mark.advance, Mark.advance, Mark.advance, List.foldl_append]

/-- A name at the front of a text ends before a character that belongs to no word. -/
theorem exists_name_of_scan_cons (h : scan m text = p :: ps)
    (hgood : ∀ q ∈ ps, ∀ fault, q.lexeme ≠ .bad fault) (hp : p.lexeme = .token (.name id)) :
    ∃ after, text = id.toList ++ after ∧ p.span = ⟨m.pos, m.pos.advance id.toList⟩ ∧
      ∀ d ∈ after.head?, isWordChar d = false := by
  obtain ⟨c, cs, rfl, hlexeme, hspan, hps⟩ := scan_cons_eq h
  rw [hp] at hlexeme
  obtain ⟨-, hspell⟩ := spells_of_cut hlexeme.symm
  change (cut c cs).text = id.toList at hspell
  rw [hspell] at hspan
  refine ⟨(cut c cs).rest, by rw [← hspell, cut_append], hspan, fun d hd => ?_⟩
  have hstop := isWordPart_of_name hlexeme.symm d hd
  -- The character begins the next lexeme, so it is ASCII.
  cases hrest : (cut c cs).rest with
  | nil =>
    rw [hrest] at hd
    cases hd
  | cons d' ds =>
    rw [hrest] at hd hps
    cases hd
    rw [scan] at hps
    have hnext := toNat_lt_of_cut (hgood _ (hps ▸ List.mem_cons_self))
    rwa [isWordChar_eq_isWordPart hnext]

/-- A name stands apart from the characters before it, unless a numeral or a dot touches it. -/
theorem exists_name_of_scan (h : scan m text = ps ++ p :: qs)
    (hgood : ∀ q ∈ scan m text, ∀ fault, q.lexeme ≠ .bad fault)
    (hp : p.lexeme = .token (.name id)) :
    ∃ before after, text = before ++ id.toList ++ after ∧
      p.span = ⟨m.pos.advance before, m.pos.advance (before ++ id.toList)⟩ ∧
      (∀ d ∈ after.head?, isWordChar d = false) ∧
      ((∀ d ∈ before.getLast?, parts d = true) ∨
        ∃ front q kind, ps = front ++ [q] ∧ q.lexeme = .token kind ∧ kind.attaches = true) := by
  have hbehind : ∀ q ∈ qs, ∀ fault, q.lexeme ≠ .bad fault := fun q hq =>
    hgood q (h ▸ List.mem_append_right ps (List.mem_cons_of_mem p hq))
  rcases List.eq_nil_or_concat' ps with rfl | ⟨front, q, rfl⟩
  · obtain ⟨after, htext, hspan, hstop⟩ := exists_name_of_scan_cons h hbehind hp
    exact ⟨[], after, htext, hspan, hstop, .inl nofun⟩
  · have hq : ∀ fault, q.lexeme ≠ .bad fault := hgood q (by simp [h])
    rw [List.append_assoc, List.singleton_append] at h
    obtain ⟨before, rest, rfl, hrest⟩ := scan_append_eq h
    obtain ⟨c, cs, rfl, hlexeme, -, hnext⟩ := scan_cons_eq hrest.symm
    obtain ⟨after, htext, hspan, hstop⟩ := exists_name_of_scan_cons hnext.symm hbehind hp
    rw [Mark.pos_advance, Mark.pos_advance, ← Pos.advance_append, ← Pos.advance_append] at hspan
    refine ⟨before ++ (cut c cs).text, after, ?_, hspan, hstop, ?_⟩
    · rw [List.append_assoc, ← htext, List.append_assoc, cut_append]
    · by_cases hparts : ∀ d ∈ (before ++ (cut c cs).text).getLast?, parts d = true
      · exact .inl hparts
      · simp only [not_forall, Bool.not_eq_true] at hparts
        obtain ⟨last, hlast, hparts⟩ := hparts
        rw [List.getLast?_append_of_ne_nil _ (cut_text_ne_nil c cs)] at hlast
        have hspells : TokenKind.Spells (.name id) id.toList := by
          obtain ⟨c', cs', hrest', hlexeme', -, -⟩ := scan_cons_eq hnext.symm
          obtain ⟨hid, -⟩ := spells_of_cut (hlexeme'.symm.trans hp)
          exact ⟨hid, rfl⟩
        obtain ⟨d, ds, hds, hd, -⟩ := eq_cons_of_isIdentifier hspells.1
        obtain ⟨kind, hkind, hattaches⟩ := attaches_of_parts (hlexeme ▸ hq) hlast hparts
          (by rw [htext, hds]; rfl) (isWordPart_of_isWordStart hd)
        exact .inr ⟨front, q, kind, rfl, hlexeme.trans hkind, hattaches⟩

end Lexeme

/-! ### Tokens in a row -/

namespace Layout

variable {s t : Layout} {p q : Placed} {ps qs : List Placed} {out : List Token} {eof : Span}
  {kind kind' : TokenKind}

theorem feed_token_eq_ok (h : s.feed p = .ok (out, t)) (hp : p.lexeme = .token kind) :
    (∃ marks, out = marks ++ [⟨kind, p.span⟩]) ∧ t.fresh = false := by
  obtain ⟨lexeme, span, width⟩ := p
  cases hp
  unfold feed at h
  dsimp only at h
  split at h
  · obtain ⟨⟨marks, s'⟩, -, h⟩ := exists_of_bind_eq_ok h
    cases h
    exact ⟨⟨marks, rfl⟩, rfl⟩
  · cases h
    exact ⟨⟨[], rfl⟩, rfl⟩

/-- No mark comes between two tokens that touch. -/
theorem suffix_of_tokens (h : s.tokens eof (ps ++ q :: p :: qs) = .ok out)
    (hq : q.lexeme = .token kind) (hp : p.lexeme = .token kind') :
    ∃ rest, (⟨kind, q.span⟩ :: ⟨kind', p.span⟩ :: rest) <:+ out := by
  induction ps generalizing s out with
  | nil =>
    obtain ⟨first, t, more, hfeed, hmore, rfl⟩ := tokens_cons_eq_ok h
    obtain ⟨⟨marks, rfl⟩, hfresh⟩ := feed_token_eq_ok hfeed hq
    obtain ⟨second, u, rest, hfeed', -, rfl⟩ := tokens_cons_eq_ok hmore
    obtain ⟨lexeme, span, width⟩ := p
    cases hp
    rw [feed_token_of_not_fresh hfresh] at hfeed'
    cases hfeed'
    exact ⟨rest, marks, by simp⟩
  | cons p' ps ih =>
    obtain ⟨first, t, more, -, hmore, rfl⟩ := tokens_cons_eq_ok h
    obtain ⟨rest, hrest⟩ := ih hmore
    exact ⟨rest, hrest.trans (List.suffix_append first more)⟩

end Layout

/-- A token other than a mark is a lexeme of the text. -/
theorem TokenStream.exists_placed {text : List Char} {stream : TokenStream} {t : Token}
    (h : ofText text = .ok stream) (ht : t ∈ stream.tokens) (hmark : t.kind.isMark = false) :
    ∃ ps p qs, Lexeme.scan Mark.origin text = ps ++ p :: qs ∧ p.lexeme = .token t.kind ∧
      p.span = t.span := by
  obtain ⟨-, htokens⟩ := ofText_eq_ok h
  have hgood := Layout.ne_bad_of_tokens htokens
  have hcontent : t ∈ stream.content := List.mem_filter.mpr ⟨ht, by rw [hmark]; rfl⟩
  have hlaid : Token.Laid [] _ text := Token.laid_scan rfl hgood
  rw [content, Layout.filter_tokens htokens hlaid.isMark_eq_false, List.mem_filterMap] at hcontent
  obtain ⟨p, hp, htoken⟩ := hcontent
  obtain ⟨ps, qs, hscan⟩ := List.append_of_mem hp
  refine ⟨ps, p, qs, hscan, ?_⟩
  unfold Placed.token? at htoken
  split at htoken
  · next kind hkind =>
    cases htoken
    exact ⟨hkind, rfl⟩
  · cases htoken

/-- A name of a text, and a numeral or a dot before it if they touch. -/
theorem TokenStream.exists_name {text : List Char} {stream : TokenStream} {id : String}
    {span : Span} (h : ofText text = .ok stream) (ht : ⟨.name id, span⟩ ∈ stream.tokens) :
    ∃ before after, text = before ++ id.toList ++ after ∧
      span = ⟨Pos.origin.advance before, Pos.origin.advance (before ++ id.toList)⟩ ∧
      (∀ d ∈ after.head?, isWordChar d = false) ∧
      ((∀ d ∈ before.getLast?, Lexeme.parts d = true) ∨ ∃ a rest, a.kind.attaches = true ∧
        (a :: ⟨.name id, span⟩ :: rest) <:+ stream.tokens) := by
  obtain ⟨-, htokens⟩ := ofText_eq_ok h
  obtain ⟨ps, p, qs, hscan, hlexeme, hplace⟩ := exists_placed h ht rfl
  obtain ⟨before, after, htext, hspan, hstop, hfront⟩ :=
    Lexeme.exists_name_of_scan hscan (Layout.ne_bad_of_tokens htokens) hlexeme
  rw [hplace] at hspan
  refine ⟨before, after, htext, hspan, hstop, hfront.imp_right ?_⟩
  rintro ⟨front, q, kind, rfl, hq, hattaches⟩
  rw [hscan, List.append_assoc, List.singleton_append] at htokens
  obtain ⟨rest, hrest⟩ := Layout.suffix_of_tokens htokens hq hlexeme
  rw [hplace] at hrest
  exact ⟨⟨kind, q.span⟩, rest, hattaches, hrest⟩

/-! ### Names of a tree -/

/-- Places in a text are told apart by their positions. -/
theorem Pos.eq_of_advance (p : Pos) {a b c e : List Char} (htext : a ++ b = c ++ e)
    (h : p.advance a = p.advance c) : a = c := by
  have hstep : ∀ {x y : List Char}, p.advance x = p.advance (x ++ y) → x = x ++ y := by
    intro x y hxy
    by_cases hy : y = []
    · simp [hy]
    · rw [advance_append] at hxy
      exact absurd hxy ((p.advance x).lt_advance hy).ne
  rcases List.append_eq_append_iff.mp htext with ⟨y, rfl, -⟩ | ⟨y, rfl, -⟩
  · exact hstep h
  · exact (hstep h.symm).symm

/-- A name at a place of a text, between what stands before it and behind it; it is no part of a
longer word, and no member. -/
structure BareName (text : List Char) (place : Pos) (name : String) (before after : List Char) :
    Prop where
  text_eq : text = before ++ name.toList ++ after
  place_eq : Pos.origin.advance before = place
  apart_before : ∀ c ∈ before.getLast?, Lexeme.parts c = true
  apart_after : ∀ c ∈ after.head?, isWordChar c = false
  identifier : isIdentifier name = true

/-- A name that is taken by no token before it is a word of its own, and no member. -/
theorem Token.Headed.bareName {text : List Char} {stream : TokenStream} {name : String}
    {span : Span} (h : Headed stream.tokens ⟨.name name, span⟩)
    (hstream : TokenStream.ofText text = .ok stream) :
    ∃ before after, BareName text span.start name before after := by
  obtain ⟨front, back, hts, hlast⟩ := h
  have ht : ⟨.name name, span⟩ ∈ stream.tokens :=
    hts ▸ List.mem_append_right front List.mem_cons_self
  obtain ⟨before, after, htext, hspan, hafter, hbefore⟩ := TokenStream.exists_name hstream ht
  refine ⟨before, after,
    htext, by rw [hspan], ?_, hafter, (TokenStream.spelled_of_mem hstream _ ht rfl).1⟩
  rcases hbefore with hbefore | ⟨a, rest, hattaches, others, hothers⟩
  · exact hbefore
  · have hrow := TokenStream.row_tokens hstream
    have hts' : stream.tokens = (others ++ [a]) ++ ⟨.name name, span⟩ :: rest := by
      rw [← hothers]
      simp
    have hfront := Token.eq_of_append_cons hrow.apart.1 (hrow.start_lt_stop _ ht rfl) hts hts'
    have hfree := hlast a (by rw [hfront, List.getLast?_concat]; rfl)
    rw [hfree] at hattaches
    cases hattaches

namespace Module.IsTreeOf

variable {m : Module} {text : List Char} {stream : TokenStream} {path : List Nat} {c : Node}

theorem mem_tokens (h : m.IsTreeOf text) (hstream : TokenStream.ofText text = .ok stream) :
    (Node.module m).WellPlaced (· ∈ stream.tokens) := by
  refine h.wellPlaced_of_tokens fun stream' hstream' t ht _ => ?_
  cases hstream.symm.trans hstream'
  exact ht

theorem exists_stream (h : m.IsTreeOf text) : ∃ stream, TokenStream.ofText text = .ok stream := by
  obtain ⟨parsed, hparse, -⟩ := h
  obtain ⟨stream, -, hstream, -⟩ := exists_of_parse hparse
  exact ⟨stream, hstream⟩

/-- An access begins where its value does, and ends with the name of the member. -/
theorem isolated_member (h : m.IsTreeOf text) {span : Span} {value : Expr} {attr : String}
    (hc : (Node.module m).at? path = some (.expr (.member span value attr))) :
    span.start = value.span.start ∧ isIdentifier attr = true ∧
      ∃ before after, text = before ++ attr.toList ++ after ∧
        span.stop = Pos.origin.advance (before ++ attr.toList) ∧
        ∀ d ∈ after.head?, isWordChar d = false := by
  obtain ⟨stream, hstream⟩ := h.exists_stream
  obtain ⟨hstart, place, hplace, hstop⟩ := ((h.mem_tokens hstream).at? hc).placed.access
  obtain ⟨before, after, htext, hspan, hafter, -⟩ := TokenStream.exists_name hstream hplace
  have hspelled := (TokenStream.spelled_of_mem hstream _ hplace rfl).1
  exact ⟨hstart, hspelled, before, after, htext, by rw [hstop, hspan], hafter⟩

end Module.IsTreeOf

/-- An access to a member of a name, written without gaps between what stands before it and behind
it. It is no part of a longer access to the left, and its last name is no part of a longer word. -/
structure Dotted (text : List Char) (base attr : String) (before after : List Char) : Prop where
  text_eq : text = before ++ (base ++ "." ++ attr).toList ++ after
  apart_before : ∀ c ∈ before.getLast?, Lexeme.parts c = true
  apart_after : ∀ c ∈ after.head?, isWordChar c = false
  base : isIdentifier base = true
  attr : isIdentifier attr = true

theorem Module.IsTreeOf.dotted {m : Module} {text : List Char} {path : List Nat}
    (h : m.IsTreeOf text) {span place : Span} {base attr : String} {before after : List Char}
    (hc : (Node.module m).at? path = some (.expr (.member span (.name place base) attr)))
    (htext : text = before ++ (base ++ "." ++ attr).toList ++ after)
    (hspan : span =
      ⟨Pos.origin.advance before, Pos.origin.advance (before ++ (base ++ "." ++ attr).toList)⟩) :
    Dotted text base attr before after := by
  obtain ⟨stream, hstream⟩ := h.exists_stream
  have hbase : (Node.module m).at? (path ++ [0]) = some (.expr (.name place base)) :=
    Node.at?_append hc [0]
  have hheaded : Token.Headed stream.tokens ⟨.name base, place⟩ := h.heads hstream hbase
  obtain ⟨left, right, hleft⟩ := hheaded.bareName hstream
  obtain ⟨hstart, hattr, left', right', htext', hstop, hright⟩ := h.isolated_member hc
  -- Places in a text are told apart by their positions, so the access begins with its first token
  -- and ends with its last.
  have hbefore : before = left := by
    refine Pos.eq_of_advance .origin (b := (base ++ "." ++ attr).toList ++ after)
      (e := base.toList ++ right) ?_ ?_
    · rw [← List.append_assoc, ← htext, ← List.append_assoc, ← hleft.text_eq]
    · rw [hleft.place_eq, ← show span.start = place.start from hstart, hspan]
  have hafter : after = right' := by
    have hlast : before ++ (base ++ "." ++ attr).toList = left' ++ attr.toList := by
      refine Pos.eq_of_advance .origin (htext.symm.trans htext') ?_
      rw [← hstop, hspan]
    rw [htext, hlast] at htext'
    exact List.append_cancel_left htext'
  exact ⟨htext, hbefore ▸ hleft.apart_before, hafter ▸ hright, hleft.identifier, hattr⟩

end Vyper
