import Vyper.Proofs.Fallible
import Vyper.Proofs.Lexing
import Vyper.Proofs.Slices
import Mathlib.Data.List.Basic

/-!
# Nothing is lost between tokens

A text is its tokens with gaps before, between and behind them: `Token.Laid` takes it apart, each
token spelled out at its span. `TokenStream.laid_ofText` is the result for every text that has
tokens.
-/

namespace Vyper

namespace StringLiteral

def quotes (triple : Bool) (q : Char) : List Char := if triple then [q, q, q] else [q]

/-- A literal with its quotes, one on each side or three. Nothing in its body closes it. -/
def Writes (value : String) (text : List Char) : Prop :=
  ∃ triple q body, Lexeme.isQuote q = true ∧ value = String.ofList (unescape body) ∧
    text = quotes triple q ++ body ++ quotes triple q ∧
    splitBody triple (quotes triple q) (body ++ quotes triple q) = some (body, [])

end StringLiteral

/-- The texts a token is written as. -/
def TokenKind.Spells (kind : TokenKind) (text : List Char) : Prop :=
  match kind with
  | .str value => StringLiteral.Writes value text
  | .bytes value =>
    ∃ c literal, (c = 'b' ∨ c = 'x') ∧ text = c :: literal ∧ StringLiteral.Writes value literal
  | kind => kind.isWritten = true ∧ text = kind.spelling

/-- Whitespace, line feeds, comments up to the end of their line, and backslashes at the end of a
line. -/
inductive Gap : List Char → Prop where
  | nil : Gap []
  | blank {c : Char} {cs : List Char} : Lexeme.isBlank c = true ∨ c = '\n' → Gap cs → Gap (c :: cs)
  | comment {body cs : List Char} : '\n' ∉ body → Gap cs → Gap ('#' :: body ++ '\n' :: cs)
  | continuation {returns cs : List Char} :
    returns = [] ∨ returns = ['\r'] → Gap cs → Gap ('\\' :: returns ++ '\n' :: cs)

/-- A text after `before` is made of tokens with gaps around them; the last gap may be a comment
that the end of the text ends. -/
def Token.Laid : List Char → List Token → List Char → Prop
  | _, [], text => Gap (text ++ ['\n'])
  | before, t :: ts, text =>
    ∃ gap lexeme rest, text = gap ++ (lexeme ++ rest) ∧ Gap gap ∧ t.kind.Spells lexeme ∧
      t.span = ⟨Pos.origin.advance (before ++ gap), Pos.origin.advance (before ++ gap ++ lexeme)⟩ ∧
      Laid (before ++ gap ++ lexeme) ts rest

/-! ### Spelling -/

namespace StringLiteral

theorem splitBody_cons {triple : Bool} {close : List Char} {c : Char} (hc : c ≠ '\\')
    (cs : List Char) :
    splitBody triple close (c :: cs) =
      if c == '\n' && !triple then none
      else if close.isPrefixOf (c :: cs) then some ([], (c :: cs).drop close.length)
      else (splitBody triple close cs).map fun (body, rest) => (c :: body, rest) := by
  rw [splitBody]
  · rintro h
    exact absurd h hc
  · rintro _ _ h
    exact absurd h hc

theorem quotes_eq_cons (triple : Bool) (q : Char) : ∃ more, quotes triple q = q :: more := by
  cases triple
  · exact ⟨[], rfl⟩
  · exact ⟨[q, q], rfl⟩

theorem splitBody_quotes {triple : Bool} {q : Char} (hq : Lexeme.isQuote q = true)
    (rest : List Char) :
    splitBody triple (quotes triple q) (quotes triple q ++ rest) = some ([], rest) := by
  have hne : q ≠ '\\' ∧ q ≠ '\n' := by constructor <;> rintro rfl <;> cases hq
  obtain ⟨more, hmore⟩ := quotes_eq_cons triple q
  have hclose : (quotes triple q).isPrefixOf (q :: (more ++ rest)) = true := by
    rw [List.isPrefixOf_iff_prefix, ← List.cons_append, ← hmore]
    exact List.prefix_append _ _
  rw [hmore, List.cons_append, ← hmore, splitBody_cons hne.1, if_neg (by simp [hne.2]),
    if_pos hclose, ← List.cons_append, ← hmore, List.drop_left]

/-- The closing quotes close a literal right behind its body, whatever comes next. -/
theorem splitBody_append_append {triple : Bool} {q : Char} {cs body rest : List Char}
    (hq : Lexeme.isQuote q = true) (h : splitBody triple (quotes triple q) cs = some (body, rest))
    (more : List Char) :
    splitBody triple (quotes triple q) (body ++ quotes triple q ++ more) = some (body, more) := by
  fun_induction splitBody triple (quotes triple q) cs generalizing body with
  | case1 => cases h
  | case2 => cases h
  | case3 c cs ih =>
    obtain ⟨⟨b, r⟩, hb, hr⟩ := Option.map_eq_some_iff.1 h
    cases hr
    have hmore := ih hb
    rw [List.append_assoc] at hmore
    simp [splitBody, hmore]
  | case4 => cases h
  | case5 c cs _ _ _ hclose =>
    cases h
    exact splitBody_quotes hq more
  | case6 c cs hlone hpair hline hclose ih =>
    obtain ⟨⟨b, r⟩, hb, hr⟩ := Option.map_eq_some_iff.1 h
    cases hr
    have hc : c ≠ '\\' := by
      rintro rfl
      cases cs with
      | nil => exact hlone rfl rfl
      | cons d ds => exact hpair d ds rfl rfl
    -- What closes the literal in its own text closes it in the longer text as well.
    have hopen : ¬(quotes triple q).isPrefixOf (c :: (b ++ quotes triple q ++ more)) = true := by
      intro hpre
      rw [List.isPrefixOf_iff_prefix] at hpre hclose
      have hown : c :: (b ++ quotes triple q) <+: c :: (b ++ quotes triple q ++ more) :=
        List.cons_prefix_cons.mpr ⟨rfl, List.prefix_append _ _⟩
      have hshort := List.prefix_of_prefix_length_le hpre hown (by simp; omega)
      rw [← append_of_splitBody hb] at hclose
      exact hclose (hshort.trans (List.cons_prefix_cons.mpr ⟨rfl, List.prefix_append _ _⟩))
    rw [List.cons_append, List.cons_append, splitBody_cons hc, if_neg hline, if_neg hopen, ih hb]
    rfl

theorem splitBody_append {triple : Bool} {q : Char} {cs body rest : List Char}
    (hq : Lexeme.isQuote q = true) (h : splitBody triple (quotes triple q) cs = some (body, rest)) :
    splitBody triple (quotes triple q) (body ++ quotes triple q) = some (body, []) := by
  simpa using splitBody_append_append hq h []

end StringLiteral

/-! ### What is cut off a text -/

/-- What a cut can be. A comment goes up to the end of its line. -/
inductive Cut.Sorted : Cut → Prop where
  | blanks {text rest : List Char} : text.all Lexeme.isBlank = true → Sorted ⟨.gap, text, rest⟩
  | comment {body rest : List Char} :
    '\n' ∉ body → (∀ c ∈ rest.head?, c = '\n') → Sorted ⟨.gap, '#' :: body, rest⟩
  | continuation {returns rest : List Char} :
    returns = [] ∨ returns = ['\r'] → Sorted ⟨.gap, '\\' :: returns ++ ['\n'], rest⟩
  | lineFeed {rest : List Char} : Sorted ⟨.lineFeed, ['\n'], rest⟩
  | token {kind : TokenKind} {text rest : List Char} :
    kind.Spells text → Sorted ⟨.token kind, text, rest⟩
  | bad {fault : Fault} {text rest : List Char} : Sorted ⟨.bad fault, text, rest⟩

namespace Lexeme

variable {c : Char} {cs : List Char}

theorem sorted_quotedCut (before : List Char) {q : Char} {make : String → TokenKind}
    (hq : isQuote q = true) (hmake : ∀ value literal, StringLiteral.Writes value literal →
      (make value).Spells (before ++ literal)) : (quotedCut (before ++ [q]) q cs make).Sorted := by
  have hquotes : ∀ triple, q :: (if triple = true then [q, q] else []) =
      StringLiteral.quotes triple q := by
    rintro (_ | _) <;> rfl
  unfold quotedCut
  simp only [hquotes]
  generalize [q, q].isPrefixOf cs = triple
  split
  · next body rest hbody =>
    have hwrites := StringLiteral.splitBody_append hq hbody
    have hspells := hmake _ _ ⟨triple, q, body, hq, rfl, rfl, hwrites⟩
    refine .token ?_
    simpa [← hquotes] using hspells
  · exact .bad

theorem spells_numeral {form : Numeral} {text : List Char}
    (h : form.spells (String.ofList text) = true) :
    TokenKind.Spells (.numeral form (String.ofList text)) text :=
  ⟨h, String.toList_ofList.symm⟩

theorem sorted_decimalCut (hc : c.isDigit = true) : (decimalCut c cs).Sorted := by
  have hint : Numeral.int.spells (String.ofList (c :: cs.takeWhile isDigitOrBar)) = true := by
    simp [Numeral.spells, hc, List.all_takeWhile]
  fun_cases decimalCut c cs with
  | case1 whole rest d ds hrest hd =>
    refine .token (spells_numeral ?_)
    have hwhole : ∀ x ∈ cs.takeWhile isDigitOrBar, isDigitOrBar x = true :=
      List.all_eq_true.mp List.all_takeWhile
    have hpoint : (cs.takeWhile isDigitOrBar ++ '.' :: d :: ds.takeWhile isDigitOrBar).dropWhile
        isDigitOrBar = '.' :: d :: ds.takeWhile isDigitOrBar :=
      dropWhile_append_of_stop hwhole (by rintro _ ⟨⟩; rfl)
    simp [whole, Numeral.spells, hc, hd, hpoint, List.all_takeWhile]
  | case2 => exact .token (spells_numeral hint)
  | case3 => exact .token (spells_numeral hint)

theorem sorted_numberCut (hc : c.isDigit = true) : (numberCut c cs).Sorted := by
  fun_cases numberCut c cs with
  | case1 x y ys hx =>
    simp only [Bool.and_eq_true, beq_iff_eq] at hx
    obtain ⟨⟨rfl, hx⟩, hy⟩ := hx
    refine .token (spells_numeral ?_)
    simp [Numeral.spells, hx, hy, List.all_takeWhile]
  | case2 => exact sorted_decimalCut hc
  | case3 => exact sorted_decimalCut hc

theorem sorted_wordCut (hc : isWordStart c = true) : (wordCut c cs).Sorted := by
  fun_cases wordCut c cs with
  | case1 q rest hq =>
    simp only [Bool.and_eq_true, Bool.or_eq_true, beq_iff_eq] at hq
    refine sorted_quotedCut [c] hq.2 ?_
    intro value literal hliteral
    exact ⟨c, literal, hq.1, rfl, hliteral⟩
  | case2 q rest hq =>
    refine .token ⟨?_, String.toList_ofList.symm⟩
    simp [TokenKind.isWritten, isIdentifier, hc, List.all_takeWhile]
  | case3 =>
    refine .token ⟨?_, String.toList_ofList.symm⟩
    simp [TokenKind.isWritten, isIdentifier, hc]

theorem sorted_symbolCut : (symbolCut c cs).Sorted := by
  fun_cases symbolCut c cs with
  | case1 p rest hp => exact .token ⟨rfl, rfl⟩
  | case2 => exact .bad

theorem sorted_continuationCut : (continuationCut cs).Sorted := by
  fun_cases continuationCut cs with
  | case1 rest => exact .continuation (.inl rfl)
  | case2 rest => exact .continuation (.inr rfl)
  | case3 => exact .bad

theorem head?_dropWhile_ne (cs : List Char) :
    ∀ d ∈ (cs.dropWhile (· != '\n')).head?, d = '\n' := by
  intro d hd
  have hstop := List.head?_dropWhile_not (· != '\n') cs
  rw [Option.mem_def.mp hd] at hstop
  simpa using hstop

theorem sorted_cut (c : Char) (cs : List Char) : (cut c cs).Sorted := by
  fun_cases cut c cs with
  | case1 hblank =>
    refine .blanks ?_
    simp [hblank, List.all_takeWhile]
  | case2 _ hcomment =>
    cases eq_of_beq hcomment
    refine .comment (fun hmem => ?_) (head?_dropWhile_ne cs)
    have hne := List.all_eq_true.mp List.all_takeWhile '\n' hmem
    simp at hne
  | case3 => exact sorted_continuationCut
  | case4 _ _ _ hline =>
    cases eq_of_beq hline
    exact .lineFeed
  | case5 _ _ _ _ hq =>
    refine sorted_quotedCut [] hq ?_
    intro value literal hliteral
    exact hliteral
  | case6 _ _ _ _ _ hdigit => exact sorted_numberCut hdigit
  | case7 _ _ _ _ _ _ hword => exact sorted_wordCut hword
  | case8 => exact sorted_symbolCut

end Lexeme

/-! ### Ends of tokens -/

/-- A text that starts inside a row and does not end with a carriage return. -/
structure Solid (text : List Char) : Prop where
  head : ∃ c cs, text = c :: cs ∧ c ≠ '\n' ∧ c ≠ '\r'
  last : ∀ c ∈ text.getLast?, c ≠ '\r'

namespace TokenKind

variable {kind : TokenKind} {text : List Char}

theorem ne_of_isWordPart {c : Char} (h : Lexeme.isWordPart c = true) : c ≠ '\n' ∧ c ≠ '\r' := by
  constructor <;> rintro rfl <;> cases h

theorem mem_numeral {form : Numeral} {digits : String} (h : form.spells digits = true) :
    ∀ c ∈ digits.toList, Lexeme.isWordPart c = true ∨ c = '.' := by
  have hdigit : ∀ {c : Char}, c.isDigit = true → Lexeme.isWordPart c = true := fun hc =>
    Lexeme.isWordPart_of_isDigitOrBar (by simp [Lexeme.isDigitOrBar, hc])
  intro c hc
  unfold Numeral.spells at h
  split at h
  · next d ds hw =>
    rw [hw] at hc
    simp only [Bool.and_eq_true, List.all_eq_true] at h
    rcases List.mem_cons.mp hc with rfl | hc
    · exact .inl (hdigit h.1)
    · exact .inl (Lexeme.isWordPart_of_isDigitOrBar (h.2 c hc))
  · next x y ys hw =>
    rw [hw] at hc
    simp only [Bool.and_eq_true, Bool.or_eq_true, beq_iff_eq, List.all_eq_true] at h
    simp only [List.mem_cons] at hc
    rcases hc with rfl | rfl | rfl | hc
    · exact .inl (by decide)
    · rcases h.1.1 with rfl | rfl <;> exact .inl (by decide)
    · exact .inl (Lexeme.isWordPart_of_isHexOrBar h.1.2)
    · exact .inl (Lexeme.isWordPart_of_isHexOrBar (h.2 c hc))
  · next d ds hw =>
    rw [hw] at hc
    simp only [Bool.and_eq_true] at h
    obtain ⟨hd, hpoint⟩ := h
    split at hpoint
    · next e es hds =>
      simp only [Bool.and_eq_true, List.all_eq_true] at hpoint
      rw [← List.takeWhile_append_dropWhile (p := Lexeme.isDigitOrBar) (l := ds), hds] at hc
      simp only [List.mem_cons, List.mem_append] at hc
      rcases hc with rfl | hc | rfl | rfl | hc
      · exact .inl (hdigit hd)
      · exact .inl (Lexeme.isWordPart_of_isDigitOrBar (List.all_eq_true.mp List.all_takeWhile c hc))
      · exact .inr rfl
      · exact .inl (hdigit hpoint.1)
      · exact .inl (Lexeme.isWordPart_of_isDigitOrBar (hpoint.2 c hc))
    · cases hpoint
  · cases h

theorem ne_of_mem_spelling (hk : kind.isWritten = true) :
    ∀ c ∈ kind.spelling, c ≠ '\n' ∧ c ≠ '\r' := by
  intro c hc
  cases kind with
  | name id =>
    change isIdentifier id = true at hk
    unfold isIdentifier at hk
    split at hk
    · cases hk
    · next d ds hw =>
      rw [spelling, hw] at hc
      simp only [Bool.and_eq_true, List.all_eq_true] at hk
      rcases List.mem_cons.mp hc with rfl | hc
      · exact ne_of_isWordPart (Lexeme.isWordPart_of_isWordStart hk.1)
      · exact ne_of_isWordPart (hk.2 c hc)
  | numeral form digits =>
    rcases mem_numeral hk c hc with hword | rfl
    · exact ne_of_isWordPart hword
    · decide
  | punct p =>
    have hall : Punct.symbols.all fun p => p.text.toList.all fun c => c != '\n' && c != '\r' := by
      decide
    have hp := List.all_eq_true.mp hall p (Punct.mem_symbols p)
    have hne := List.all_eq_true.mp hp c hc
    simpa using hne
  | _ => cases hk

theorem solid_of_writes {value : String} (h : StringLiteral.Writes value text) : Solid text := by
  obtain ⟨triple, q, body, hq, -, rfl, -⟩ := h
  have hne : q ≠ '\n' ∧ q ≠ '\r' := by
    constructor <;> rintro rfl <;> cases hq
  obtain ⟨more, hquotes⟩ := StringLiteral.quotes_eq_cons triple q
  have hlast : (StringLiteral.quotes triple q).getLast? = some q := by cases triple <;> rfl
  constructor
  · exact ⟨q, more ++ body ++ StringLiteral.quotes triple q, by simp [hquotes], hne⟩
  · rw [List.getLast?_append, hlast]
    rintro _ ⟨⟩
    exact hne.2

theorem Spells.solid (h : kind.Spells text) : Solid text := by
  have hwritten : kind.isWritten = true → text = kind.spelling → Solid text := by
    rintro hk rfl
    have hne := ne_of_mem_spelling hk
    constructor
    · obtain ⟨c, cs, hc⟩ := List.exists_cons_of_ne_nil (spelling_ne_nil hk)
      exact ⟨c, cs, hc, hne c (by simp [hc])⟩
    · exact fun c hc => (hne c (List.mem_of_getLast? hc)).2
  cases kind with
  | str value => exact solid_of_writes h
  | bytes value =>
    obtain ⟨c, literal, hc, rfl, hliteral⟩ := h
    obtain ⟨⟨d, ds, rfl, -⟩, hlast⟩ := solid_of_writes hliteral
    constructor
    · exact ⟨c, d :: ds, rfl, by rcases hc with rfl | rfl <;> decide⟩
    · simpa using hlast
  | _ => exact hwritten h.1 h.2

theorem Spells.isMark_eq_false (h : kind.Spells text) : kind.isMark = false := by
  cases kind with
  | name | numeral | str | bytes | punct => rfl
  | _ => cases h.1

end TokenKind

/-! ### Lexemes and gaps -/

/-- The token a lexeme in its place is. -/
def Placed.token? (p : Placed) : Option Token :=
  match p.lexeme with
  | .token kind => some ⟨kind, p.span⟩
  | _ => none

namespace Token

variable {before text gap : List Char} {ts : List Token}

/-- More of a gap before the first token. -/
theorem Laid.widen (h : Laid (before ++ gap) ts text)
    (hgap : ∀ more, Gap more → Gap (gap ++ more)) : Laid before ts (gap ++ text) := by
  cases ts with
  | nil =>
    have hend := hgap _ h
    rwa [← List.append_assoc] at hend
  | cons t ts =>
    obtain ⟨gap', lexeme, rest, rfl, hgap', hspells, hspan, hrest⟩ := h
    simp only [List.append_assoc] at hspan hrest
    refine ⟨gap ++ gap', lexeme, rest, by simp, hgap gap' hgap', hspells, ?_, ?_⟩
    · simpa using hspan
    · simpa using hrest

theorem gap_blanks {blanks : List Char} (h : blanks.all Lexeme.isBlank = true) {more : List Char}
    (hmore : Gap more) : Gap (blanks ++ more) := by
  induction blanks with
  | nil => exact hmore
  | cons c cs ih =>
    simp only [List.all_cons, Bool.and_eq_true] at h
    exact .blank (.inl h.1) (ih h.2)

theorem gap_of_cons_lineFeed {cs : List Char} (h : Gap ('\n' :: cs)) : Gap cs := by
  cases h with
  | blank _ h => exact h

/-- A comment before a line feed or the end of the text. -/
theorem Laid.comment {body : List Char} (h : Laid (before ++ '#' :: body) ts text)
    (hbody : '\n' ∉ body) (htext : ∀ c ∈ text.head?, c = '\n') :
    Laid before ts ('#' :: body ++ text) := by
  cases ts with
  | nil =>
    cases text with
    | nil =>
      change Gap ('#' :: body ++ [] ++ ['\n'])
      rw [List.append_nil]
      exact .comment hbody .nil
    | cons c cs =>
      cases htext c rfl
      have hend := gap_of_cons_lineFeed h
      change Gap ('#' :: body ++ '\n' :: cs ++ ['\n'])
      rw [List.append_assoc]
      exact .comment hbody hend
  | cons t ts =>
    obtain ⟨gap, lexeme, rest, rfl, hgap, hspells, hspan, hrest⟩ := h
    cases gap with
    | nil =>
      -- A token does not start where a line ends.
      obtain ⟨c, cs, rfl, hc, -⟩ := hspells.solid.head
      exact absurd (htext c rfl) hc
    | cons c gap =>
      cases htext c rfl
      refine ⟨'#' :: body ++ '\n' :: gap, lexeme, rest, by simp, ?_, hspells, ?_, ?_⟩
      · exact .comment hbody (gap_of_cons_lineFeed hgap)
      · simpa using hspan
      · simpa using hrest

end Token

theorem Mark.pos_advance (m : Mark) (text : List Char) :
    (m.advance text).pos = m.pos.advance text := by
  induction text generalizing m with
  | nil => rfl
  | cons c cs ih => exact ih (m.step c)

/-- The tokens of a text that is cut into lexemes of which none is bad. -/
theorem Token.laid_scan {before text : List Char} {m : Mark}
    (hm : m.pos = Pos.origin.advance before)
    (hgood : ∀ p ∈ Lexeme.scan m text, ∀ fault, p.lexeme ≠ .bad fault) :
    Laid before ((Lexeme.scan m text).filterMap Placed.token?) text := by
  fun_induction Lexeme.scan m text generalizing before with
  | case1 m => exact .blank (.inr rfl) .nil
  | case2 m c cs next =>
    rename_i ih
    have hnext : next.pos = Pos.origin.advance (before ++ (Lexeme.cut c cs).text) := by
      rw [Mark.pos_advance, Pos.advance_append, hm]
    have hrest := ih hnext fun p hp => hgood p (List.mem_cons_of_mem _ hp)
    have hhead := hgood _ List.mem_cons_self
    rw [← Lexeme.cut_append c cs, List.filterMap_cons, Placed.token?]
    have hsorted := Lexeme.sorted_cut c cs
    clear_value next
    clear ih hgood
    generalize Lexeme.cut c cs = cut at *
    cases hsorted with
    | blanks hblanks => exact hrest.widen fun _ => gap_blanks hblanks
    | comment hbody hstop => exact hrest.comment hbody hstop
    | continuation hreturns =>
      refine hrest.widen fun more hmore => ?_
      rw [List.append_assoc]
      exact .continuation hreturns hmore
    | lineFeed => exact hrest.widen fun _ => .blank (.inr rfl)
    | token hspells =>
      refine ⟨[], _, _, rfl, .nil, hspells, ?_, ?_⟩
      · rw [List.append_nil, hm, hnext]
      · rwa [List.append_nil]
    | bad => exact absurd rfl (hhead _)

/-! ### Tokens and marks -/

namespace Layout

/-- The tokens one lexeme adds: marks before it and the lexeme itself, or a newline. -/
inductive Fed (p : Placed) : List Token → Prop where
  | silent : p.token? = none → Fed p []
  | newline : p.token? = none → Fed p [⟨.newline, p.span⟩]
  | token {marks : List Token} {t : Token} : p.token? = some t → t.span = p.span →
    (∀ m ∈ marks, m.kind.isMark = true ∧ m.span = .point p.span.start) → Fed p (marks ++ [t])

variable {s t : Layout} {p : Placed} {ps : List Placed} {out : List Token} {eof : Span}

theorem marks_of_indentTo {width : Nat} {place : Pos} (h : s.indentTo width place = .ok (out, t)) :
    ∀ m ∈ out, m.kind.isMark = true ∧ m.span = .point place := by
  unfold indentTo at h
  dsimp only at h
  split at h
  · cases h
    simp [TokenKind.isMark]
  split at h
  · split at h
    · cases h
      simp only [List.mem_map]
      rintro _ ⟨_, -, rfl⟩
      exact ⟨rfl, rfl⟩
    · cases h
  · cases h
    nofun

theorem fed_of_feed (h : s.feed p = .ok (out, t)) : Fed p out ∧ ∀ fault, p.lexeme ≠ .bad fault := by
  obtain ⟨lexeme, span, width⟩ := p
  unfold feed at h
  cases lexeme with
  | gap =>
    cases h
    exact ⟨.silent rfl, nofun⟩
  | bad fault => cases h
  | lineFeed =>
    dsimp only at h
    split at h
    · cases h
      split
      · exact ⟨.newline rfl, nofun⟩
      · exact ⟨.silent rfl, nofun⟩
    · cases h
      exact ⟨.silent rfl, nofun⟩
  | token kind =>
    refine ⟨?_, nofun⟩
    dsimp only at h
    split at h
    · obtain ⟨⟨marks, s'⟩, hmarks, h⟩ := exists_of_bind_eq_ok h
      cases h
      exact .token rfl rfl (marks_of_indentTo hmarks)
    · cases h
      have hmarks : ∀ m ∈ ([] : List Token),
          m.kind.isMark = true ∧ m.span = .point span.start := nofun
      exact .token rfl rfl hmarks

theorem tokens_cons_eq_ok (h : s.tokens eof (p :: ps) = .ok out) :
    ∃ first t more, s.feed p = .ok (first, t) ∧ t.tokens eof ps = .ok more ∧
      out = first ++ more := by
  obtain ⟨⟨first, t⟩, hfeed, h⟩ := exists_of_bind_eq_ok h
  obtain ⟨more, hmore, h⟩ := exists_of_bind_eq_ok h
  cases h
  exact ⟨first, t, more, hfeed, hmore, rfl⟩

theorem ne_bad_of_tokens (h : s.tokens eof ps = .ok out) :
    ∀ p ∈ ps, ∀ fault, p.lexeme ≠ .bad fault := by
  induction ps generalizing s out with
  | nil => nofun
  | cons p ps ih =>
    obtain ⟨first, t, more, hfeed, hmore, -⟩ := tokens_cons_eq_ok h
    exact List.forall_mem_cons.mpr ⟨(fed_of_feed hfeed).2, ih hmore⟩

theorem filter_of_marks {marks : List Token} (h : ∀ m ∈ marks, m.kind.isMark = true) :
    marks.filter (!·.kind.isMark) = [] := by
  simpa using h

/-- Without the marks of line structure, the tokens are the lexemes that are tokens. -/
theorem filter_tokens (h : s.tokens eof ps = .ok out)
    (hps : ∀ t ∈ ps.filterMap Placed.token?, t.kind.isMark = false) :
    out.filter (!·.kind.isMark) = ps.filterMap Placed.token? := by
  induction ps generalizing s out with
  | nil =>
    cases h
    refine filter_of_marks fun m hm => ?_
    rw [finish, List.mem_append, List.mem_map] at hm
    rcases hm with hm | ⟨_, -, rfl⟩
    · split at hm
      · cases List.mem_singleton.mp hm
        rfl
      · cases hm
    · rfl
  | cons p ps ih =>
    obtain ⟨first, t, more, hfeed, hmore, rfl⟩ := tokens_cons_eq_ok h
    rw [List.filter_append]
    cases (fed_of_feed hfeed).1 with
    | silent hp =>
      rw [List.filterMap_cons_none hp] at hps ⊢
      exact ih hmore hps
    | newline hp =>
      rw [List.filterMap_cons_none hp] at hps ⊢
      exact ih hmore hps
    | token hp hspan hmarks =>
      rw [List.filterMap_cons_some hp] at hps ⊢
      obtain ⟨ht, hps⟩ := List.forall_mem_cons.mp hps
      rw [List.filter_append, filter_of_marks fun m hm => (hmarks m hm).1, ih hmore hps]
      simp [ht]

end Layout

namespace Token

variable {before text : List Char} {ts : List Token}

theorem Laid.isMark_eq_false (h : Laid before ts text) : ∀ t ∈ ts, t.kind.isMark = false := by
  induction ts generalizing before text with
  | nil => nofun
  | cons t ts ih =>
    obtain ⟨gap, lexeme, rest, -, -, hspells, -, hrest⟩ := h
    exact List.forall_mem_cons.mpr ⟨hspells.isMark_eq_false, ih hrest⟩

theorem exact_before {lexeme : List Char} (h : Solid lexeme) (rest : List Char) :
    Rows.Exact before (lexeme ++ rest) := by
  obtain ⟨c, cs, rfl, hc⟩ := h.head
  exact .inr ⟨c, cs ++ rest, rfl, hc⟩

theorem exact_after {lexeme : List Char} (h : Solid lexeme) (rest : List Char) :
    Rows.Exact (before ++ lexeme) rest := by
  obtain ⟨c, cs, rfl, -⟩ := h.head
  refine .inl fun d hd => h.last d ?_
  rwa [List.getLast?_append_cons] at hd

/-- The slice at the span of a token spells the token. -/
theorem Laid.spells_slice (h : Laid before ts text) :
    ∀ t ∈ ts, t.kind.Spells (Rows.slice (before ++ text) t.span) := by
  induction ts generalizing before text with
  | nil => nofun
  | cons t ts ih =>
    obtain ⟨gap, lexeme, rest, rfl, -, hspells, hspan, hrest⟩ := h
    have htext : before ++ (gap ++ (lexeme ++ rest)) = before ++ gap ++ lexeme ++ rest := by simp
    rw [htext]
    refine List.forall_mem_cons.mpr ⟨?_, ih hrest⟩
    rw [hspan, Rows.slice_advance (exact_before hspells.solid rest)
      (exact_after hspells.solid rest)]
    exact hspells

/-- The slice between two neighbouring tokens is a gap. -/
theorem Laid.isChain_gap (h : Laid before ts text) :
    ts.IsChain fun a b => Gap (Rows.slice (before ++ text) ⟨a.span.stop, b.span.start⟩) := by
  induction ts generalizing before text with
  | nil => exact .nil
  | cons a ts ih =>
    obtain ⟨gap, lexeme, rest, rfl, -, hspells, hspan, hrest⟩ := h
    have htext : before ++ (gap ++ (lexeme ++ rest)) = before ++ gap ++ lexeme ++ rest := by simp
    have hchain := ih hrest
    rw [htext]
    cases ts with
    | nil => exact .singleton a
    | cons b ts =>
      refine .cons_cons ?_ hchain
      obtain ⟨gap', lexeme', rest', rfl, hgap', hspells', hspan', -⟩ := hrest
      rw [hspan, hspan', ← List.append_assoc,
        Rows.slice_advance ?_ (exact_before hspells'.solid rest')]
      · exact hgap'
      · exact exact_after hspells.solid _

end Token

namespace TokenStream

/-- The tokens with a text of their own. -/
def content (stream : TokenStream) : List Token := stream.tokens.filter (!·.kind.isMark)

theorem ofText_eq_ok {text : List Char} {stream : TokenStream} (h : ofText text = .ok stream) :
    stream.eof = .point (Pos.origin.advance text) ∧
      Layout.tokens {} stream.eof (Lexeme.scan Mark.origin text) = .ok stream.tokens := by
  obtain ⟨tokens, htokens, h⟩ := exists_of_bind_eq_ok h
  cases h
  exact ⟨rfl, htokens⟩

/-- A text that has tokens is these tokens with gaps around them. -/
theorem laid_ofText {text : List Char} {stream : TokenStream} (h : ofText text = .ok stream) :
    Token.Laid [] stream.content text := by
  obtain ⟨-, htokens⟩ := ofText_eq_ok h
  have hlaid : Token.Laid [] _ text := Token.laid_scan rfl (Layout.ne_bad_of_tokens htokens)
  rw [content, Layout.filter_tokens htokens hlaid.isMark_eq_false]
  exact hlaid

/-- The same around tokens in a row that all have a text of their own. -/
theorem laid_append {text : List Char} {stream : TokenStream} {front own back : List Token}
    (h : ofText text = .ok stream) (htokens : stream.tokens = front ++ (own ++ back))
    (hown : ∀ t ∈ own, t.kind.isMark = false) :
    Token.Laid [] (front.filter (!·.kind.isMark) ++ (own ++ back.filter (!·.kind.isMark)))
      text := by
  have hlaid := laid_ofText h
  have hkeep : own.filter (!·.kind.isMark) = own :=
    List.filter_eq_self.mpr fun t ht => by simp [hown t ht]
  rwa [content, htokens, List.filter_append, List.filter_append, hkeep] at hlaid

end TokenStream

end Vyper
