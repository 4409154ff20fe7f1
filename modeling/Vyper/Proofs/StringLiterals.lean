import Vyper.Proofs.Losslessness

/-!
# String literals read back

A text is written into a literal character by character, each as it is or behind a backslash
(`StringLiteral.Stroke`). The scan for the closing quotes and the decoding of the body each go over
pairs of a backslash and a character; `splitBody_strokes` and `unescape_strokes` say that both see
the strokes, so that the literal is one token with the text as its value
(`StringLiteral.tokens_literal`).
-/

namespace Vyper

namespace StringLiteral

/-- A character of a body: as it is, or behind a backslash. -/
structure Stroke where
  char : Char
  escaped : Bool
deriving DecidableEq

/-- What stands behind the backslash for a character. -/
def escapeCode : Char → Char
  | '\n' => 'n'
  | '\t' => 't'
  | c => c

namespace Stroke

def text (w : Stroke) : List Char := if w.escaped then ['\\', escapeCode w.char] else [w.char]

/-- The strokes that a body may have: a backslash is never left as it is, and the quote and a line
feed only between triple quotes. -/
def Fits (triple : Bool) (q : Char) (w : Stroke) : Prop :=
  if w.escaped then w.char ∈ ['\\', '\'', '"', '\n', '\t']
  else w.char ≠ '\\' ∧ (triple = false → w.char ≠ q ∧ w.char ≠ '\n')

end Stroke

/-- The strokes of a text with its backslashes, quotes `q`, line feeds and tabs escaped. -/
def escaping (q : Char) (s : List Char) : List Stroke :=
  s.map fun c => ⟨c, c ∈ ['\\', q, '\n', '\t']⟩

/-- The body that strokes make. -/
def body (strokes : List Stroke) : List Char := strokes.flatMap Stroke.text

variable {triple : Bool} {q : Char} {s tail : List Char} {w : Stroke} {strokes : List Stroke}

theorem body_cons (w : Stroke) (strokes : List Stroke) :
    body (w :: strokes) = w.text ++ body strokes := rfl

/-- Decoding goes stroke by stroke. -/
theorem unescape_stroke (h : w.Fits triple q) (tail : List Char) :
    unescape (w.text ++ tail) = w.char :: unescape tail := by
  obtain ⟨c, escaped⟩ := w
  cases escaped with
  | true =>
    have hc : c ∈ ['\\', '\'', '"', '\n', '\t'] := h
    simp only [List.mem_cons, List.not_mem_nil, or_false] at hc
    rcases hc with rfl | rfl | rfl | rfl | rfl <;> rfl
  | false =>
    have hc : c ≠ '\\' := h.1
    change unescape (c :: tail) = c :: unescape tail
    rw [unescape] <;> simp [hc]

theorem unescape_strokes (h : ∀ w ∈ strokes, w.Fits triple q) :
    unescape (body strokes) = strokes.map Stroke.char := by
  induction strokes with
  | nil => rfl
  | cons w strokes ih =>
    rw [body_cons, unescape_stroke (h w List.mem_cons_self),
      ih fun w hw => h w (List.mem_cons_of_mem _ hw)]
    rfl

/-- The scan goes on behind a stroke that does not begin the closing quotes. -/
theorem splitBody_stroke (h : w.Fits triple q) {close rest inner more : List Char}
    (hopen : w.escaped = false → close.isPrefixOf (w.char :: rest) = false)
    (hrest : splitBody triple close rest = some (inner, more)) :
    splitBody triple close (w.text ++ rest) = some (w.text ++ inner, more) := by
  obtain ⟨c, escaped⟩ := w
  cases escaped with
  | true =>
    change splitBody triple close ('\\' :: escapeCode c :: rest) = _
    rw [splitBody, hrest]
    rfl
  | false =>
    have hline : ¬(c == '\n' && !triple) = true := by
      simp only [Bool.and_eq_true, beq_iff_eq, Bool.not_eq_true', not_and]
      intro hc htriple
      exact (h.2 htriple).2 hc
    change splitBody triple close (c :: rest) = some (c :: inner, more)
    rw [splitBody_cons h.1, if_neg hline, hopen rfl, hrest]
    rfl

/-- Strokes that nothing closes before their end: between triple quotes, no three quotes in a row
are left as they are, and none at the end. -/
structure Sealed (triple : Bool) (q : Char) (strokes : List Stroke) : Prop where
  fits : ∀ w ∈ strokes, w.Fits triple q
  apart : triple = true → ¬[⟨q, false⟩, ⟨q, false⟩, ⟨q, false⟩] <:+: strokes
  ends : triple = true → strokes.getLast? ≠ some ⟨q, false⟩

theorem Sealed.of_cons (h : Sealed triple q (w :: strokes)) : Sealed triple q strokes where
  fits := fun w hw => h.fits w (List.mem_cons_of_mem _ hw)
  apart := fun htriple hrun => h.apart htriple (hrun.trans (List.suffix_cons _ _).isInfix)
  ends := by
    intro htriple hlast
    refine h.ends htriple ?_
    rw [List.getLast?_cons, hlast]
    rfl

/-- A body that goes on with a quote goes on with a quote that is left as it is. -/
theorem exists_of_cons_body_append {q : Char} (hq : Lexeme.isQuote q = true) {rest more : List Char}
    (h : body strokes ++ rest = q :: more) (hne : strokes ≠ []) :
    ∃ others, strokes = ⟨q, false⟩ :: others ∧ body others ++ rest = more := by
  obtain ⟨⟨c, escaped⟩, others, rfl⟩ := List.exists_cons_of_ne_nil hne
  cases escaped with
  | true =>
    obtain ⟨rfl, -⟩ : '\\' = q ∧ _ := List.cons.inj h
    cases hq
  | false =>
    obtain ⟨rfl, hmore⟩ : c = q ∧ _ := List.cons.inj h
    exact ⟨others, rfl, hmore⟩

/-- No stroke of a sealed body begins the closing quotes. -/
theorem Sealed.not_isPrefixOf (hq : Lexeme.isQuote q = true) (h : Sealed triple q (w :: strokes))
    (hraw : w.escaped = false) (tail : List Char) :
    (quotes triple q).isPrefixOf (w.char :: (body strokes ++ (quotes triple q ++ tail))) =
      false := by
  obtain ⟨c, escaped⟩ := w
  cases hraw
  have hfits := h.fits _ List.mem_cons_self
  cases triple with
  | false =>
    have hc : c ≠ q := (hfits.2 rfl).1
    simp [quotes, List.isPrefixOf, Ne.symm hc]
  | true =>
    rw [Bool.eq_false_iff]
    intro hprefix
    obtain ⟨more, hmore⟩ := List.isPrefixOf_iff_prefix.mp hprefix
    obtain ⟨rfl, hrest⟩ : q = c ∧ q :: q :: more = _ := List.cons.inj hmore
    have hsome : strokes ≠ [] := by
      rintro rfl
      exact h.ends rfl rfl
    obtain ⟨others, rfl, hnext⟩ := exists_of_cons_body_append hq hrest.symm hsome
    have hothers : others ≠ [] := by
      rintro rfl
      exact h.ends rfl rfl
    obtain ⟨others, rfl, -⟩ := exists_of_cons_body_append hq hnext hothers
    exact h.apart rfl ⟨[], others, rfl⟩

theorem splitBody_strokes (hq : Lexeme.isQuote q = true) (h : Sealed triple q strokes)
    (tail : List Char) :
    splitBody triple (quotes triple q) (body strokes ++ (quotes triple q ++ tail)) =
      some (body strokes, tail) := by
  induction strokes with
  | nil => exact splitBody_quotes hq tail
  | cons w strokes ih =>
    rw [body_cons, List.append_assoc]
    exact splitBody_stroke (h.fits w List.mem_cons_self) (h.not_isPrefixOf hq · tail) (ih h.of_cons)

/-- A text with its backslashes, quotes and line feeds escaped is sealed by one quote. -/
theorem sealed_escaping (hq : Lexeme.isQuote q = true) (s : List Char) :
    Sealed false q (escaping q s) where
  fits := by
    simp only [escaping, List.forall_mem_map]
    intro c _
    by_cases hc : c ∈ ['\\', q, '\n', '\t']
    · have hquote : q = '"' ∨ q = '\'' := by simpa [Lexeme.isQuote] using hq
      simp only [Stroke.Fits, hc, decide_true, if_true]
      rcases hquote with rfl | rfl <;> simp only [List.mem_cons] at hc ⊢ <;> tauto
    · simp only [Stroke.Fits, hc, decide_false, Bool.false_eq_true, if_false]
      simp_all
  apart := by simp
  ends := by simp

/-- A literal, with `b` or `x` before its quotes or nothing. -/
def literal (opener : Option Char) (triple : Bool) (q : Char) (strokes : List Stroke) : List Char :=
  opener.toList ++ quotes triple q ++ body strokes ++ quotes triple q

/-- What a literal stands for. -/
def literalKind (opener : Option Char) (value : String) : TokenKind :=
  if opener.isSome then .bytes value else .str value

/-- One quote is not followed by two more, unless the literal is empty and a quote comes behind it.
-/
theorem Sealed.not_isPrefixOf_single (hq : Lexeme.isQuote q = true) (h : Sealed false q strokes)
    (htail : strokes = [] → tail.head? ≠ some q) :
    [q, q].isPrefixOf (body strokes ++ q :: tail) = false := by
  rw [Bool.eq_false_iff]
  intro hprefix
  obtain ⟨more, hmore⟩ := List.isPrefixOf_iff_prefix.mp hprefix
  by_cases hempty : strokes = []
  · subst hempty
    obtain ⟨-, hrest⟩ : q = q ∧ q :: more = tail := List.cons.inj hmore
    exact htail rfl (by rw [← hrest]; rfl)
  · obtain ⟨others, rfl, -⟩ := exists_of_cons_body_append hq hmore.symm hempty
    exact ((h.fits _ List.mem_cons_self).2 rfl).1 rfl

theorem quotedCut_literal (hq : Lexeme.isQuote q = true) (h : Sealed triple q strokes)
    (htail : triple = false → strokes = [] → tail.head? ≠ some q) (opener : List Char)
    (make : String → TokenKind) :
    Lexeme.quotedCut opener q ((quotes triple q).tail ++
      (body strokes ++ (quotes triple q ++ tail))) make =
      ⟨.token (make (String.ofList (strokes.map Stroke.char))),
        opener ++ (quotes triple q).tail ++ body strokes ++ quotes triple q, tail⟩ := by
  have hsplit := splitBody_strokes hq h tail
  have hvalue := unescape_strokes h.fits
  have htriple :
      [q, q].isPrefixOf ((quotes triple q).tail ++ (body strokes ++ (quotes triple q ++ tail))) =
      triple := by
    cases triple with
    | true => simp [quotes, List.isPrefixOf]
    | false => exact h.not_isPrefixOf_single hq (htail rfl)
  have hmore : (if triple then [q, q] else []) = (quotes triple q).tail := by cases triple <;> rfl
  have hquotes : q :: (quotes triple q).tail = quotes triple q := by cases triple <;> rfl
  simp only [Lexeme.quotedCut, htriple, hmore, hquotes, List.drop_left, hsplit, hvalue]

theorem cut_quote (hq : Lexeme.isQuote q = true) (cs : List Char) :
    Lexeme.cut q cs = Lexeme.quotedCut [q] q cs .str := by
  have hquote : q = '"' ∨ q = '\'' := by simpa [Lexeme.isQuote] using hq
  rcases hquote with rfl | rfl <;> rfl

theorem cut_opener {c : Char} (hc : c = 'b' ∨ c = 'x') (hq : Lexeme.isQuote q = true)
    (cs : List Char) : Lexeme.cut c (q :: cs) = Lexeme.quotedCut [c, q] q cs .bytes := by
  have hword : Lexeme.cut c (q :: cs) =
      Lexeme.wordCut c (q :: cs) := by rcases hc with rfl | rfl <;> rfl
  have hbytes : (c == 'b' || c == 'x') = true := by rcases hc with rfl | rfl <;> rfl
  rw [hword, Lexeme.wordCut, hbytes, hq]
  rfl

/-- A literal is cut off as one token, whatever comes behind it; only an empty one takes a quote
with it. -/
theorem cut_literal (hq : Lexeme.isQuote q = true) {opener : Option Char}
    (hopener : ∀ c ∈ opener, c = 'b' ∨ c = 'x') (h : Sealed triple q strokes)
    (htail : triple = false → strokes = [] → tail.head? ≠ some q) :
    ∃ c cs, literal opener triple q strokes ++ tail = c :: cs ∧
      Lexeme.cut c cs = ⟨.token (literalKind opener (String.ofList (strokes.map Stroke.char))),
        literal opener triple q strokes, tail⟩ := by
  obtain ⟨more, hquotes⟩ := quotes_eq_cons triple q
  have hquoted := quotedCut_literal hq h htail
  rw [hquotes, List.tail_cons] at hquoted
  cases opener with
  | none =>
    refine ⟨q, more ++ (body strokes ++ (q :: more ++ tail)), by simp [literal, hquotes], ?_⟩
    rw [cut_quote hq, hquoted]
    simp [literal, literalKind, hquotes]
  | some c =>
    refine ⟨c, q :: (more ++ (body strokes ++ (q :: more ++ tail))), by simp [literal, hquotes], ?_⟩
    rw [cut_opener (hopener c rfl) hq, hquoted]
    simp [literal, literalKind, hquotes]

end StringLiteral

/-- A text that is cut off as one token is a line with that token alone. -/
theorem TokenStream.ofText_of_cut {kind : TokenKind} {text : List Char} {c : Char} {cs : List Char}
    (htext : text = c :: cs) (hcut : Lexeme.cut c cs = ⟨.token kind, text, []⟩) :
    TokenStream.ofText text = .ok
      ⟨[⟨kind, ⟨Pos.origin, Pos.origin.advance text⟩⟩,
        ⟨.newline, .point (Pos.origin.advance text)⟩], .point (Pos.origin.advance text)⟩ := by
  have hscan : Lexeme.scan Mark.origin text =
      [⟨.token kind, ⟨Pos.origin, Pos.origin.advance text⟩, 0⟩] := by
    have hpos : (Mark.origin.advance text).pos = Pos.origin.advance text := Mark.pos_advance _ _
    have hend : Lexeme.scan (Mark.origin.advance text) [] = [] := by rw [Lexeme.scan]
    rw [← hpos]
    conv_lhs => rw [htext, Lexeme.scan, hcut]
    rw [hend]
    rfl
  rw [TokenStream.ofText, hscan]
  rfl

namespace StringLiteral

/-- The ways to write a text into a literal: between single quotes, with every backslash, such
quote, line feed and tab escaped; between triple quotes, with line feeds and quotes left as they are
as well, unless three in a row or the last one would close the literal. -/
inductive Encodes (q : Char) (s : List Char) : Bool → List Stroke → Prop where
  | inSingle : Encodes q s false (escaping q s)
  | inTriple {strokes : List Stroke} : strokes.map Stroke.char = s →
      (∀ w ∈ strokes, w.Fits true q) →
    ¬[⟨q, false⟩, ⟨q, false⟩, ⟨q, false⟩] <:+: strokes → strokes.getLast? ≠ some ⟨q, false⟩ →
    Encodes q s true strokes

theorem Encodes.sealed (hq : Lexeme.isQuote q = true) (h : Encodes q s triple strokes) :
    Sealed triple q strokes := by
  cases h with
  | inSingle => exact sealed_escaping hq s
  | inTriple _ hfits hapart hends => exact ⟨hfits, fun _ => hapart, fun _ => hends⟩

theorem Encodes.map_char (h : Encodes q s triple strokes) : strokes.map Stroke.char = s := by
  cases h with
  | inSingle =>
    rw [escaping, List.map_map]
    exact List.map_id _
  | inTriple hchars => exact hchars

/-- A literal is one token with the text that was written for its value, and one of bytes with `b`
or `x` before its quotes: the only token of a line of its own, and the first of any text that begins
with it. Only an empty one between single quotes may not have one more behind it. -/
theorem tokens_literal {q : Char} (hq : Lexeme.isQuote q = true) {opener : Option Char}
    (hopener : ∀ c ∈ opener, c = 'b' ∨ c = 'x') {s : String} {triple : Bool} {strokes : List Stroke}
    (h : Encodes q s.toList triple strokes) :
    (∃ eof, TokenStream.ofText (literal opener triple q strokes) = .ok
      ⟨[⟨literalKind opener s, ⟨Pos.origin, Pos.origin.advance (literal opener triple q strokes)⟩⟩,
        ⟨.newline, eof⟩], eof⟩) ∧
    ∀ tail : List Char, (triple = false → s = "" → tail.head? ≠ some q) →
      ∃ c cs, literal opener triple q strokes ++ tail = c :: cs ∧
        Lexeme.cut c cs = ⟨.token (literalKind opener s), literal opener triple q strokes,
          tail⟩ := by
  have hchars := h.map_char
  have hcut : ∀ tail : List Char, (triple = false → s = "" → tail.head? ≠ some q) →
      ∃ c cs, literal opener triple q strokes ++ tail = c :: cs ∧
        Lexeme.cut c cs = ⟨.token (literalKind opener s), literal opener triple q strokes,
          tail⟩ := by
    intro tail htail
    have hempty : triple = false → strokes = [] → tail.head? ≠ some q := by
      rintro htriple rfl
      exact htail htriple (String.toList_eq_nil_iff.mp hchars.symm)
    have hread := cut_literal hq hopener (h.sealed hq) hempty
    rwa [hchars, String.ofList_toList] at hread
  refine ⟨?_, hcut⟩
  obtain ⟨c, cs, htext, hread⟩ := hcut [] (by simp)
  rw [List.append_nil] at htext
  exact ⟨_, TokenStream.ofText_of_cut htext hread⟩

/-- The bytes `it's`, a backslash and a line feed between apostrophes, and a text with quotes and a
line feed between triple quotes, of which the last quote is escaped. -/
theorem tokens_literal_mixed :
    (literal (some 'x') false '\'' (escaping '\'' "it's\\\n".toList) = "x'it\\'s\\\\\\n'".toList ∧
      ∃ eof span, TokenStream.ofText "x'it\\'s\\\\\\n'".toList =
        .ok ⟨[⟨.bytes "it's\\\n", span⟩, ⟨.newline, eof⟩], eof⟩) ∧
    ∃ strokes, literal none true '"' strokes = "\"\"\"\"\"a\n\\\"\"\"\"".toList ∧
      ∃ eof span, TokenStream.ofText "\"\"\"\"\"a\n\\\"\"\"\"".toList =
        .ok ⟨[⟨.str "\"\"a\n\"", span⟩, ⟨.newline, eof⟩], eof⟩ := by
  refine ⟨?_, ?_⟩
  · have htext : literal (some 'x') false '\'' (escaping '\'' "it's\\\n".toList) =
        "x'it\\'s\\\\\\n'".toList := by decide
    obtain ⟨⟨eof, hread⟩, -⟩ :=
      @tokens_literal '\'' rfl (some 'x') (by simp) "it's\\\n" _ _ .inSingle
    rw [htext] at hread
    exact ⟨htext, eof, _, hread⟩
  · let strokes : List Stroke :=
      [⟨'"', false⟩, ⟨'"', false⟩, ⟨'a', false⟩, ⟨'\n', false⟩, ⟨'"', true⟩]
    have htext : literal none true '"' strokes = "\"\"\"\"\"a\n\\\"\"\"\"".toList := by decide
    have hfits : ∀ w ∈ strokes, w.Fits true '"' := by simp [strokes, Stroke.Fits]
    obtain ⟨⟨eof, hread⟩, -⟩ := @tokens_literal '"' rfl none (by simp) "\"\"a\n\"" _ _
      (@Encodes.inTriple _ _ strokes (by decide) hfits (by decide) (by decide))
    rw [htext] at hread
    exact ⟨strokes, htext, eof, _, hread⟩

end StringLiteral

end Vyper
