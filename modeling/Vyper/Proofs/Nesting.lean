import Vyper.Editor.LineCursor
import Vyper.Proofs.Anchoring
import Vyper.Proofs.WordBoundaries

/-!
# Brackets in a text and brackets of tokens

An editor counts brackets and commas in a text, the grammar has them among its tokens. The tokens of
an expression close what they open, and no comma and no colon of them is outside brackets
(`Grammar.Rule.holds`). A text without brackets in its literals and comments has the brackets of its
tokens and no others, up to every place in it (`Token.Laid.split`).
-/

namespace Vyper

open LineCursor (bracketDepth countCommas)

theorem prefix_append_cases {α : Type} {q a b : List α} (h : q <+: a ++ b) :
    q <+: a ∨ ∃ r, q = a ++ r ∧ r ≠ [] ∧ r <+: b := by
  rcases Nat.lt_or_ge a.length q.length with hlt | hle
  · obtain ⟨r, rfl⟩ := List.prefix_of_prefix_length_le (List.prefix_append a b) h hlt.le
    exact .inr ⟨r, rfl, by rintro rfl; simp at hlt, (List.prefix_append_right_inj a).mp h⟩
  · exact .inl (List.prefix_of_prefix_length_le h (List.prefix_append a b) hle)

/-! ### Nested brackets -/

/-- An opening bracket and the one that closes it. -/
inductive Bracket : Char → Char → Prop where
  | round : Bracket '(' ')'
  | square : Bracket '[' ']'
  | curly : Bracket '\x7b' '\x7d'

/-- Brackets in pairs, with commas and colons inside them, and also outside if these are free. -/
inductive Nested : Bool → List Char → Prop where
  | nil {free : Bool} : Nested free []
  | mark {c : Char} {cs : List Char} : c = ',' ∨ c = ':' → Nested true cs → Nested true (c :: cs)
  | pair {free : Bool} {o c : Char} {inner rest : List Char} : Bracket o c → Nested true inner →
    Nested free rest → Nested free (o :: (inner ++ c :: rest))

variable {free : Bool} {cs ds a : List Char} {c o : Char}

theorem Nested.append (h : Nested free cs) (h' : Nested free ds) : Nested free (cs ++ ds) := by
  induction h with
  | nil => exact h'
  | mark hc _ ih => exact .mark hc (ih h')
  | pair hpair hinner _ _ ih =>
    rw [List.cons_append, List.append_assoc, List.cons_append]
    exact .pair hpair hinner (ih h')

/-- A pair leaves the depth of the editor as it was, and a pair the editor counts is deeper inside.
-/
theorem Bracket.depth (h : Bracket o c) (d : Nat) : bracketDepth (bracketDepth d o) c = d ∧
    d ≤ bracketDepth d o ∧ (o ≠ '\x7b' → 0 < bracketDepth d o) := by
  cases h <;> simp [bracketDepth]

theorem bracketDepth_mark (h : c = ',' ∨ c = ':') (d : Nat) : bracketDepth d c = d := by
  rcases h with rfl | rfl <;> rfl

theorem Nested.foldl_bracketDepth (h : Nested free cs) (d : Nat) : cs.foldl bracketDepth d = d := by
  induction h generalizing d with
  | nil => rfl
  | mark hc _ ih => rw [List.foldl_cons, bracketDepth_mark hc, ih]
  | pair hpair _ _ ihinner ih =>
    rw [List.foldl_cons, List.foldl_append, ihinner, List.foldl_cons, (hpair.depth d).1, ih]

/-- A depth depends on the brackets of a text alone. -/
theorem foldl_bracketDepth_of_filter {keep : Char → Bool}
    (hkeep : ∀ c ∈ ['(', ')', '[', ']'], keep c = true) (h : cs.filter keep = ds.filter keep)
    (d : Nat) :
    cs.foldl bracketDepth d = ds.foldl bracketDepth d := by
  have hfilter : ∀ es : List Char, (es.filter keep).foldl bracketDepth d =
      es.foldl bracketDepth d := by
    intro es
    rw [List.foldl_filter]
    congr 1
    funext e c
    split
    · rfl
    · next hc => simp only [bracketDepth]; grind
  rw [← hfilter cs, h, hfilter]

theorem countCommas_append (d : Nat) (cs ds : List Char) :
    countCommas d (cs ++ ds) = countCommas d cs + countCommas (cs.foldl bracketDepth d) ds := by
  induction cs generalizing d with
  | nil => rw [List.nil_append, countCommas, Nat.zero_add, List.foldl_nil]
  | cons c cs ih =>
    rw [List.cons_append, countCommas, ih, countCommas, List.foldl_cons, Nat.add_assoc]

/-- In a part from the start on, no bracket is closed that was not opened, and no comma is outside
brackets. -/
theorem Nested.front (h : Nested free cs) (ha : a <+: cs) (d : Nat) :
    d ≤ a.foldl bracketDepth d ∧ ((free = true → 0 < d) → '\x7b' ∉ a → countCommas d a = 0) := by
  have hempty : d ≤ ([] : List Char).foldl bracketDepth d ∧
      ((free = true → 0 < d) → '\x7b' ∉ ([] : List Char) → countCommas d [] = 0) :=
      ⟨le_rfl, fun _ _ => rfl⟩
  induction h generalizing a d with
  | nil => exact List.prefix_nil.mp ha ▸ hempty
  | mark hc _ ih =>
    rcases List.prefix_cons_iff.mp ha with rfl | ⟨a, rfl, htail⟩
    · exact hempty
    obtain ⟨hle, hcommas⟩ := ih htail d ⟨le_rfl, fun _ _ => rfl⟩
    rw [List.foldl_cons, countCommas, bracketDepth_mark hc]
    refine ⟨hle, fun hd hbrace => ?_⟩
    rw [if_neg (by have := hd rfl; omega), hcommas hd (by simp_all)]
  | @pair free o c inner rest hpair hinner hrest ihinner ih =>
    obtain ⟨hback, hdeep, hinside⟩ := hpair.depth d
    rcases List.prefix_cons_iff.mp ha with rfl | ⟨a, rfl, htail⟩
    · exact hempty
    have ho : ¬ (o = ',' ∧ d = 0) := by
      rintro ⟨rfl, -⟩
      cases hpair
    rw [List.foldl_cons, countCommas, if_neg ho, Nat.zero_add]
    rcases prefix_append_cases htail with hin | ⟨r, rfl, hne, hr⟩
    · obtain ⟨hle, hcommas⟩ := ihinner hin _ ⟨le_rfl, fun _ _ => rfl⟩
      refine ⟨hdeep.trans hle, fun _ hbrace => hcommas (fun _ => hinside ?_) (by simp_all)⟩
      rintro rfl
      simp at hbrace
    -- The part goes on behind the closing bracket, where it is as deep as before the opening one.
    · obtain ⟨r, rfl, hrest'⟩ := (List.prefix_cons_iff.mp hr).resolve_left hne
      obtain ⟨hle, hcommas⟩ := ih hrest' d ⟨le_rfl, fun _ _ => rfl⟩
      have hclose : ∀ e, ¬ (c = ',' ∧ e = 0) := by
        rintro e ⟨rfl, -⟩
        cases hpair
      rw [List.foldl_append, List.foldl_cons, countCommas_append, hinner.foldl_bracketDepth,
        countCommas, hback, if_neg (hclose _), Nat.zero_add]
      refine ⟨hle, fun hd hbrace => ?_⟩
      have hbrace' : '\x7b' ∉ inner ∧ '\x7b' ∉ r := by simp_all
      rw [hcommas hd hbrace'.2, (ihinner List.prefix_rfl _ ⟨le_rfl, fun _ _ => rfl⟩).2
        (fun _ => hinside (by rintro rfl; simp at hbrace)) hbrace'.1]

/-! ### Tokens -/

/-- The bracket, comma or colon that a token is. -/
def TokenKind.sign? : TokenKind → Option Char
  | .punct .openParen => some '('
  | .punct .closeParen => some ')'
  | .punct .openBracket => some '['
  | .punct .closeBracket => some ']'
  | .punct .openBrace => some '\x7b'
  | .punct .closeBrace => some '\x7d'
  | .punct .comma => some ','
  | .punct .colon => some ':'
  | _ => none

/-- Whether a token may stand outside brackets. -/
def TokenKind.fits (free : Bool) (k : TokenKind) : Bool :=
  !k.isMark && k.sign?.all fun c => free && (c == ',' || c == ':')

namespace Token

variable {ts us : List Token} {t : Token}

/-- The brackets, commas and colons among tokens. -/
def signs (ts : List Token) : List Char := ts.flatMap (·.kind.sign?.toList)

@[simp] theorem signs_append : signs (ts ++ us) = signs ts ++ signs us := List.flatMap_append

@[simp] theorem signs_cons : signs (t :: ts) = t.kind.sign?.toList ++ signs ts := rfl

@[simp] theorem signs_nil : signs [] = [] := rfl

/-- Tokens without marks of line structure, with nested signs. -/
structure Held (free : Bool) (ts : List Token) : Prop where
  plain : ∀ t ∈ ts, t.kind.isMark = false
  nested : Nested free (signs ts)

theorem Held.append (hts : Held free ts) (hus : Held free us) : Held free (ts ++ us) :=
  ⟨List.forall_mem_append.mpr ⟨hts.plain, hus.plain⟩, signs_append ▸ hts.nested.append hus.nested⟩

theorem held_singleton (h : t.kind.fits free = true) : Held free [t] := by
  obtain ⟨hmark, hsign⟩ := Bool.and_eq_true_iff.mp h
  refine ⟨List.forall_mem_singleton.mpr (by simpa using hmark), ?_⟩
  cases hkind : t.kind.sign? with
  | none => simpa [hkind] using Nested.nil
  | some c =>
    simp only [hkind, Option.all_some, Bool.and_eq_true, Bool.or_eq_true, beq_iff_eq] at hsign
    obtain ⟨rfl, hc⟩ := hsign
    simpa [hkind] using Nested.mark hc .nil

theorem Held.enclose {opening closing : Token} (hts : Held true ts)
    (hmarks : opening.kind.isMark = false ∧ closing.kind.isMark = false)
    (hpair : ∃ o c, Bracket o c ∧ opening.kind.sign? = some o ∧ closing.kind.sign? = some c) :
    Held free (opening :: (ts ++ [closing])) := by
  obtain ⟨o, c, hbracket, ho, hc⟩ := hpair
  refine ⟨List.forall_mem_cons.mpr ⟨hmarks.1, List.forall_mem_append.mpr
    ⟨hts.plain, List.forall_mem_singleton.mpr hmarks.2⟩⟩, ?_⟩
  simpa [ho, hc] using @Nested.pair free _ _ _ _ hbracket hts.nested .nil

end Token

open Token (Held signs)

namespace Grammar

open Vyper.Grammar.Symbol (sign word)

variable {notes : List Deprecation} {items row : List Symbol} {x : Symbol} {ts us : List Token}
  {p q : Punct} {a b : Span}

/-- Whether a symbol may stand in a row with nested signs. -/
def Symbol.fits (free : Bool) : Symbol → Bool
  | .token t => t.kind.fits free
  | .head .. | .operand .. | .node (.keyword _) | .node (.params _) | .node (.expr _) => true
  | .listed .. | .node (.param _) => free
  | .node _ => false

/-- Tokens that a symbol is read from. Those of parameters are in parentheses. -/
def Symbol.Holds : Symbol → List Token → Prop
  | .token t, us => us = [t]
  | .node (.params p), us => ∃ opening list closing, us = opening :: (list ++ [closing]) ∧
      Held true list ∧ opening.kind = .punct .openParen ∧ closing.kind = .punct .closeParen ∧
      p.span = opening.span.cover closing.span
  | x, us => ∀ free, x.fits free = true → Held free us

theorem Symbol.Holds.held (h : x.Holds us) (hx : x.fits free = true) : Held free us := by
  cases x with
  | token t =>
    obtain rfl : us = [t] := h
    exact Token.held_singleton hx
  | node n =>
    cases n with
    | params p =>
      obtain ⟨opening, list, closing, rfl, hlist, hopening, hclosing, -⟩ := h
      refine hlist.enclose ⟨by rw [hopening]; rfl, by rw [hclosing]; rfl⟩ ⟨_, _, .round, ?_, ?_⟩
      · rw [hopening]; rfl
      · rw [hclosing]; rfl
    | _ => exact h free hx
  | _ => exact h free hx

theorem Along.held (h : Along Symbol.Holds row us) (hrow : row.all (Symbol.fits free) = true) :
    Held free us := by
  induction row generalizing us with
  | nil =>
    obtain rfl : us = [] := h
    exact ⟨nofun, .nil⟩
  | cons x row ih =>
    obtain ⟨vs, ws, rfl, hx, hrest⟩ := h
    obtain ⟨hfits, hrow⟩ := Bool.and_eq_true_iff.mp hrow
    exact (hx.held hfits).append (ih hrest hrow)

/-- Brackets around a row. -/
theorem Along.enclosed (h : Along Symbol.Holds (sign p a :: row ++ [sign q b]) us)
    (hrow : row.all (Symbol.fits true) = true) :
    ∃ list, us = ⟨.punct p, a⟩ :: (list ++ [⟨.punct q, b⟩]) ∧ Held true list ∧
      Along Symbol.Holds row list := by
  obtain ⟨_, _, rfl, rfl, hrest⟩ := h
  obtain ⟨list, _, rfl, hlist, _, _, rfl, rfl, rfl⟩ := along_append.mp hrest
  exact ⟨list, rfl, hlist.held hrow, hlist⟩

section Fits

variable {α : Type} {sep : TokenKind} {Item : List Symbol → α → Prop} {trailing : Bool}
  {as : List α}

theorem Listed.fits (h : Listed sep Item trailing row as) (hsep : sep.fits free = true)
    (hitem : ∀ row a, Item row a → row.all (Symbol.fits free) = true) :
    row.all (Symbol.fits free) = true :=
  List.all_eq_true.mpr (h.forall_mem (fun _ => hsep) fun row a h =>
    List.all_eq_true.mp (hitem row a h))

theorem Listed.fits_operands {l : Nat} {es : List Expr} (h : Listed sep (Operand l) trailing row es)
    (hsep : sep.fits free = true) : row.all (Symbol.fits free) = true :=
  h.fits hsep (by rintro _ _ ⟨⟩; rfl)

theorem Listed.fits_arguments {as : List (Expr ⊕ Keyword)}
    (h : Listed (.punct .comma) Argument trailing row as) : row.all (Symbol.fits true) = true :=
  h.fits rfl (by rintro _ _ (_ | _) <;> rfl)

end Fits

/-- A rule puts nested tokens together. -/
theorem Rule.holds (h : Rule notes items x) (hitems : Along Symbol.Holds items us) :
    x.Holds us := by
  cases h with
  | tuple h =>
    obtain ⟨list, rfl, hlist, -⟩ := hitems.enclosed (h.fits_operands rfl)
    exact fun _ _ => hlist.enclose ⟨rfl, rfl⟩ ⟨_, _, .round, rfl, rfl⟩
  | list h =>
    obtain ⟨list, rfl, hlist, -⟩ := hitems.enclosed (h.fits_operands rfl)
    exact fun _ _ => hlist.enclose ⟨rfl, rfl⟩ ⟨_, _, .square, rfl, rfl⟩
  | dict h =>
    obtain ⟨list, rfl, hlist, -⟩ := hitems.enclosed (h.fits rfl (by rintro _ _ ⟨⟩; rfl))
    exact fun _ _ => hlist.enclose ⟨rfl, rfl⟩ ⟨_, _, .curly, rfl, rfl⟩
  | call h =>
    obtain ⟨vs, _, rfl, hfunc, hrest⟩ := hitems
    obtain ⟨list, rfl, hlist, -⟩ := Along.enclosed hrest h.fits_arguments
    exact fun _ _ => (hfunc.held rfl).append (hlist.enclose ⟨rfl, rfl⟩ ⟨_, _, .round, rfl, rfl⟩)
  | @subscript k value slice a b =>
    obtain ⟨vs, _, rfl, hvalue, hrest⟩ := hitems
    obtain ⟨list, rfl, hlist, -⟩ := @Along.enclosed [.listed false slice] _ _ _ _ _ hrest rfl
    exact fun _ _ => (hvalue.held rfl).append (hlist.enclose ⟨rfl, rfl⟩ ⟨_, _, .square, rfl, rfl⟩)
  | params h =>
    obtain ⟨list, rfl, hlist, -⟩ := hitems.enclosed (h.fits rfl (by rintro _ _ ⟨_ | _⟩ <;> rfl))
    exact ⟨_, list, _, rfl, hlist, rfl, rfl, rfl⟩
  | name | truth | numeral | str | bytes | binder | member | keyword | binary =>
    exact fun _ _ => hitems.held rfl
  | @unary op kind _ _ _ h => exact fun _ _ => hitems.held (by cases op <;> cases h <;> rfl)
  | @compare op k left k' right ts h =>
    intro free _
    have hts : (Piece.kindsOf op.pieces).all (TokenKind.fits free) = true := by cases op <;> rfl
    rw [← h, List.all_map] at hts
    refine hitems.held ?_
    rw [List.cons_append, List.all_cons, List.all_append, List.all_map]
    exact Bool.and_eq_true_iff.mpr ⟨rfl, Bool.and_eq_true_iff.mpr ⟨hts, rfl⟩⟩
  | bare h => exact fun free (hfree : free = true) => hfree ▸ hitems.held (h.fits_operands rfl)
  | logical h => exact fun _ _ => hitems.held (h.fits_operands rfl)
  | param => exact fun free (hfree : free = true) => hfree ▸ hitems.held rfl
  | _ => exact fun _ hfits => by cases hfits

theorem Shift.holds (h : Shift items x) (hitems : Along Symbol.Holds items us) : x.Holds us := by
  cases h with
  | @group k e a b =>
    obtain ⟨list, rfl, hlist, -⟩ := @Along.enclosed [.operand 0 k e] _ _ _ _ _ hitems rfl
    exact fun _ _ => hlist.enclose ⟨rfl, rfl⟩ ⟨_, _, .round, rfl, rfl⟩
  | single | loosen => exact fun _ _ => hitems.held rfl

/-- The tokens that the symbols of a node are read from. -/
theorem Formed.along {n : Node} (h : Formed ts notes n) : n.span.Closed ts ∧ ∃ items x lo hi us,
    Rule notes items x ∧ x.nodes = [n] ∧ Stand (fun _ => True) lo items hi ∧ us <:+: ts ∧
      Along Symbol.Holds items us := by
  obtain ⟨items, x, lo, hi, hrule, hx, -, hstand, row, us, hderives, hus⟩ := h
  have hall : Along Symbol.Holds (row ++ items) us := by
    refine hderives.along (fun _ => rfl) (fun id a _ _ => Token.held_singleton rfl) ?_ ?_ hus
    · exact fun _ _ _ _ => Rule.holds
    · exact fun _ _ _ => Shift.holds
  obtain ⟨front, back, rfl, -, hitems⟩ := along_append.mp hall
  obtain ⟨t, ht, hclosed⟩ :=
    (hrule.closed fun y hy => hderives.closed y (List.mem_append_right row hy)).node n
      (by simp [hx])
  exact ⟨⟨t, hus.subset ht, hclosed⟩, items, x, lo, hi, back, hrule, hx, hstand,
    (List.suffix_append front back).isInfix.trans hus.isInfix, hitems⟩

end Grammar

/-! ### Texts -/

def TokenKind.isLiteral : TokenKind → Bool
  | .str _ | .bytes _ => true
  | _ => false

/-- The characters that are tokens of their own when they open, close or separate. -/
def TokenKind.isSign (c : Char) : Bool := c ∈ ['(', ')', '[', ']', '\x7b', '\x7d', ',', ':']

theorem TokenKind.isSign_of_isWordPart (h : Lexeme.isWordPart c = true) : isSign c = false := by
  have hall : ∀ d ∈ ['(', ')', '[', ']', '\x7b', '\x7d', ',', ':'],
      Lexeme.isWordPart d = false := by
    simp only [List.forall_mem_cons, List.not_mem_nil, false_imp_iff, implies_true, and_true]
    decide
  exact decide_eq_false fun hmem => by simp [hall c hmem] at h

/-- A token that is no literal is a sign, or has no signs in it. -/
theorem TokenKind.sign_or_quiet {k : TokenKind} {text : List Char} (h : k.Spells text)
    (hk : k.isLiteral = false) :
    (∃ c, k.sign? = some c ∧ text = [c]) ∨ (k.sign? = none ∧ ∀ c ∈ text, isSign c = false) := by
  cases k with
  | name id =>
    obtain ⟨hid, rfl⟩ := h
    exact .inr ⟨rfl, fun c hc => isSign_of_isWordPart (Lexeme.isWordPart_of_isIdentifier hid c hc)⟩
  | numeral form digits =>
    obtain ⟨hdigits, rfl⟩ := h
    refine .inr ⟨rfl, fun c hc => ?_⟩
    rcases mem_numeral hdigits c hc with hword | rfl
    · exact isSign_of_isWordPart hword
    · rfl
  | punct p =>
    obtain ⟨-, rfl⟩ := h
    have hall : Punct.symbols.all fun p => decide ((TokenKind.punct p).sign? = p.text.toList.head? ∧
        p.text.toList.length = 1 ∨
        (TokenKind.punct p).sign? = none ∧ p.text.toList.all (!isSign ·)) := by
      decide
    rcases of_decide_eq_true (List.all_eq_true.mp hall p (Punct.mem_symbols p)) with
      ⟨hsign, hone⟩ | ⟨hnone, hquiet⟩
    · obtain ⟨c, hc⟩ := List.length_eq_one_iff.mp hone
      exact .inl ⟨c, by rw [hsign, hc]; rfl, hc⟩
    · exact .inr ⟨hnone, fun c hc => by simpa using List.all_eq_true.mp hquiet c hc⟩
  | str value | bytes value => cases hk
  | _ => cases h.1

namespace Token

variable {before text q lexeme : List Char} {ts us : List Token} {t : Token}
  {keep : Char → Bool} {p : Pos}

/-- Without the characters that a scan looks for. -/
def Quiet (keep : Char → Bool) (text : List Char) : Prop := ∀ c ∈ text, keep c = false

instance : Decidable (Quiet keep text) := List.decidableBAll _ text

/-- Nothing that a scan looks for stands between the tokens, or in a literal among those before
`stop`. -/
def Unspoiled (keep : Char → Bool) (text : List Char) (stop : Pos) : Pos → List Token → Prop
  | _, [] => True
  | p, t :: ts => Quiet keep (Rows.slice text ⟨p, t.span.start⟩) ∧
      (t.kind.isLiteral = true → t.span.start < stop → Quiet keep (Rows.slice text t.span)) ∧
      Unspoiled keep text stop t.span.stop ts

theorem unspoiled_of_isChain
    (hgaps : (t :: ts).IsChain fun a b => Quiet keep (Rows.slice text ⟨a.span.stop, b.span.start⟩))
    (hliterals : ∀ u ∈ ts, u.kind.isLiteral = true → u.span.start < p →
      Quiet keep (Rows.slice text u.span)) :
    Unspoiled keep text p t.span.stop ts := by
  induction ts generalizing t with
  | nil => trivial
  | cons u ts ih =>
    obtain ⟨hgap, hgaps⟩ := List.isChain_cons_cons.mp hgaps
    obtain ⟨hu, hliterals⟩ := List.forall_mem_cons.mp hliterals
    exact ⟨hgap, hu, ih hgaps hliterals⟩

theorem Quiet.filter_isPrefix (h : Quiet keep text) (hq : q <+: text) : q.filter keep = [] :=
  List.filter_eq_nil_iff.mpr fun c hc hkeep => by simp [h c (hq.subset hc)] at hkeep

/-- The first characters of a token, at least one of them. -/
theorem filter_spelled (hkeep : ∀ c, keep c = true → TokenKind.isSign c = true)
    (h : t.kind.Spells lexeme) (hliteral : t.kind.isLiteral = true → Quiet keep lexeme)
    (hq : q <+: lexeme) (hne : q ≠ []) :
    q.filter keep = t.kind.sign?.toList.filter keep := by
  have hquiet : t.kind.sign? = none → Quiet keep lexeme →
      q.filter keep = t.kind.sign?.toList.filter keep :=
    fun hsign hlexeme => by rw [hsign, hlexeme.filter_isPrefix hq]; rfl
  cases hkind : t.kind.isLiteral with
  | true =>
    refine hquiet ?_ (hliteral hkind)
    cases htk : t.kind <;> rw [htk] at hkind <;> first | rfl | cases hkind
  | false =>
    rcases TokenKind.sign_or_quiet h hkind with ⟨c, hsign, rfl⟩ | ⟨hsign, hlexeme⟩
    · obtain rfl := hq.eq_of_length (Nat.le_antisymm hq.length_le (List.length_pos_iff.mpr hne))
      rw [hsign]
      rfl
    · exact hquiet hsign fun c hc => Bool.eq_false_iff.mpr
        fun hc' => by simpa [hlexeme c hc] using hkeep c hc'

theorem advance_le_of_isPrefix {q text : List Char} (before : List Char) (h : q <+: text) :
    Pos.origin.advance (before ++ q) ≤ Pos.origin.advance (before ++ text) := by
  obtain ⟨r, rfl⟩ := h
  rw [← List.append_assoc, Pos.advance_append _ (before ++ q)]
  exact Pos.le_advance _ r

theorem Laid.le_start (h : Laid before ts text) :
    ∀ t ∈ ts, Pos.origin.advance before ≤ t.span.start := by
  induction ts generalizing before text with
  | nil => nofun
  | cons t ts ih =>
    obtain ⟨gap, lexeme, rest, -, -, -, hspan, hrest⟩ := h
    refine List.forall_mem_cons.mpr ⟨?_, fun u hu => le_trans ?_ (ih hrest u hu)⟩
    · rw [hspan, Pos.advance_append]
      exact Pos.le_advance _ gap
    · rw [List.append_assoc, Pos.advance_append]
      exact Pos.le_advance _ _

/-- The first token of a text, and the gap before it. -/
theorem Laid.uncons (h : Laid before (t :: ts) text) (hlast : ∀ c ∈ before.getLast?, c ≠ '\r') :
    ∃ gap lexeme rest, text = gap ++ (lexeme ++ rest) ∧ t.kind.Spells lexeme ∧ lexeme ≠ [] ∧
      (∀ c ∈ (before ++ gap ++ lexeme).getLast?, c ≠ '\r') ∧
      t.span = ⟨Pos.origin.advance (before ++ gap), Pos.origin.advance (before ++ gap ++ lexeme)⟩ ∧
      Laid (before ++ gap ++ lexeme) ts rest ∧
      ∀ {keep p us}, Unspoiled keep (before ++ text) p (Pos.origin.advance before) (t :: us) →
        Quiet keep gap ∧ (t.kind.isLiteral = true → t.span.start < p → Quiet keep lexeme) ∧
        Unspoiled keep (before ++ gap ++ lexeme ++ rest) p
          (Pos.origin.advance (before ++ gap ++ lexeme)) us := by
  obtain ⟨gap, lexeme, rest, rfl, -, hspells, hspan, hrest⟩ := h
  have hbefore : Rows.Exact (before ++ gap) (lexeme ++ rest) := exact_before hspells.solid rest
  have hne : lexeme ≠ [] := by
    obtain ⟨c, cs, rfl, -⟩ := hspells.solid.head
    exact List.cons_ne_nil c cs
  refine ⟨gap, lexeme, rest, rfl, hspells, hne, ?_, hspan, hrest, fun hclear => ?_⟩
  · rw [List.getLast?_append_of_ne_nil _ hne]
    exact hspells.solid.last
  · obtain ⟨hgap, hliteral, hclear⟩ := hclear
    have htext : before ++ (gap ++ (lexeme ++ rest)) = before ++ gap ++ lexeme ++ rest := by simp
    rw [htext, hspan] at hliteral hclear hgap
    rw [Rows.slice_advance hbefore (exact_after hspells.solid rest)] at hliteral
    rw [List.append_assoc _ lexeme, Rows.slice_advance (.inl hlast) hbefore] at hgap
    exact ⟨hgap, hspan ▸ hliteral, hclear⟩

/-- The text up to a token. If it is clear, it has up to every place the signs of the tokens that
begin there. -/
theorem Laid.split (h : Laid before (ts ++ t :: us) text)
    (hlast : ∀ c ∈ before.getLast?, c ≠ '\r') :
    ∃ own lexeme rest, text = own ++ (lexeme ++ rest) ∧ t.kind.Spells lexeme ∧
      t.span = ⟨Pos.origin.advance (before ++ own), Pos.origin.advance (before ++ own ++ lexeme)⟩ ∧
      Laid (before ++ own ++ lexeme) us rest ∧
      ∀ {keep p q}, (∀ c, keep c = true → TokenKind.isSign c = true) →
        Unspoiled keep (before ++ text) p (Pos.origin.advance before) (ts ++ [t]) →
        q <+: own → Pos.origin.advance (before ++ q) ≤ p → ∃ vs ws, ts = vs ++ ws ∧
          (∀ t ∈ vs, t.span.start < Pos.origin.advance (before ++ q)) ∧
          (∀ t ∈ ws, Pos.origin.advance (before ++ q) ≤ t.span.start) ∧
          q.filter keep = (signs vs).filter keep := by
  induction ts generalizing before text with
  | nil =>
    obtain ⟨gap, lexeme, rest, rfl, hspells, -, -, hspan, hrest, hclear⟩ := h.uncons hlast
    refine ⟨gap, lexeme, rest, rfl, hspells, hspan, hrest, fun _ h hq _ => ⟨[], [], rfl, ?_⟩⟩
    exact ⟨by simp, by simp, (hclear h).1.filter_isPrefix hq⟩
  | cons u ts ih =>
    obtain ⟨gap, lexeme, rest, rfl, hspells, hne', hend, hspan, hrest, hclear⟩ := h.uncons hlast
    obtain ⟨own, lexeme', rest, rfl, hspells', hspan', hback, hfilter⟩ := ih hrest hend
    refine ⟨gap ++ (lexeme ++ own), lexeme', rest, by simp, hspells', by simpa using hspan',
      by simpa using hback, fun hkeep h hq hp => ?_⟩
    obtain ⟨hgap, hliteral, hrest'⟩ := hclear h
    have hbehind := fun v hv => hrest.le_start v (List.mem_append_left _ hv)
    -- The part ends in the gap, in the token, or behind it.
    rcases prefix_append_cases hq with hq | ⟨q, rfl, hne, hq⟩
    · have hle := advance_le_of_isPrefix before hq
      have hle' := advance_le_of_isPrefix before (hq.trans (List.prefix_append gap lexeme))
      rw [← List.append_assoc] at hle'
      exact ⟨[], u :: ts, rfl, by simp, List.forall_mem_cons.mpr ⟨by rwa [hspan],
        fun v hv => hle'.trans (hbehind v hv)⟩, hgap.filter_isPrefix hq⟩
    · rw [← List.append_assoc] at hp ⊢
      have hlt : u.span.start < Pos.origin.advance (before ++ gap ++ q) := by
        rw [hspan, Pos.advance_append _ (before ++ gap) q]
        exact Pos.lt_advance _ hne
      have hquiet := fun h => hliteral h (lt_of_lt_of_le hlt hp)
      rcases prefix_append_cases hq with hq | ⟨q, rfl, -, hq⟩
      · refine ⟨[u], ts, rfl, List.forall_mem_singleton.mpr hlt,
          fun v hv => (advance_le_of_isPrefix _ hq).trans (hbehind v hv), ?_⟩
        rw [List.filter_append, hgap.filter_isPrefix List.prefix_rfl,
          filter_spelled hkeep hspells hquiet hq hne]
        simp
      · rw [← List.append_assoc] at hp hlt ⊢
        obtain ⟨vs, ws, rfl, hvs, hws, hsigns⟩ := hfilter hkeep hrest' hq hp
        refine ⟨u :: vs, ws, rfl, List.forall_mem_cons.mpr ⟨hlt, hvs⟩, hws, ?_⟩
        have hlexeme := filter_spelled hkeep hspells hquiet List.prefix_rfl hne'
        simp [hgap.filter_isPrefix List.prefix_rfl, hlexeme, hsigns]

/-- A token before a place is among those before it. -/
theorem prefix_of_start_lt {vs ws : List Token} (h : ts ++ t :: us = vs ++ ws)
    (hws : ∀ t ∈ ws, p ≤ t.span.start) (ht : t.span.start < p) : ts ++ [t] <+: vs := by
  have hpre : ts ++ [t] <+: vs ++ ws := ⟨us, by simp [← h]⟩
  refine (prefix_append_cases hpre).resolve_right ?_
  rintro ⟨r, heq, hne, hr⟩
  have hmem : t ∈ r := by
    have hlast := congrArg List.getLast? heq
    rw [List.getLast?_concat, List.getLast?_append_of_ne_nil _ hne] at hlast
    exact List.mem_of_getLast? hlast.symm
  exact absurd (hws t (hr.subset hmem)) (not_le.mpr ht)

/-- A token that is not before a place is behind those before it. -/
theorem prefix_of_le_start {vs ws : List Token} (h : ts ++ t :: us = vs ++ ws)
    (hvs : ∀ t ∈ vs, t.span.start < p) (ht : p ≤ t.span.start) : vs <+: ts := by
  have hpre : vs <+: ts ++ t :: us := ⟨ws, h.symm⟩
  refine (prefix_append_cases hpre).resolve_right ?_
  rintro ⟨r, rfl, hne, hr⟩
  obtain ⟨r, rfl, -⟩ := (List.prefix_cons_iff.mp hr).resolve_left hne
  exact absurd (hvs t (by simp)) (not_lt.mpr ht)

end Token

end Vyper
