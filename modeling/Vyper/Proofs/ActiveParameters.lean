import Vyper.Proofs.Margins
import Vyper.Proofs.Nesting
import Vyper.Proofs.Parentheses
import Vyper.Proofs.Retracing

/-!
# Active parameters

A cursor in the arguments of a call is told the callee and a number: the characters between the
parenthesis and the cursor are counted, and commas in brackets are left out. The parser has the same
call as tokens. Behind the parenthesis, its arguments stand between commas outside all brackets
(`Grammar.Listed.behind`), and within a line only blanks stand between tokens
(`Token.Laid.unspoiled`). So as long as what is counted stands in no literal, the number is that of
the arguments that begin before the one with the cursor (`LineCursor.callContext_argument`). In a
literal they are counted too (`LineCursor.callContext_literal`).
-/

namespace Vyper

open LineCursor (bracketDepth countCommas)
open Token (Held Framed Frame Sorted Laid Quiet Unspoiled signs)

/-! ### Arguments in the grammar -/

/-- The arguments of a call, named or not. -/
def callArguments (args : List Expr) (keywords : List Keyword) : List Node :=
  args.map .expr ++ keywords.map .keyword

/-- How many of some nodes begin before a node. -/
def Node.rank (ns : List Node) (n : Node) : Nat := ns.countP fun m => m.span.start < n.span.start

theorem perm_callArguments (arguments : List (Expr ⊕ Keyword)) :
    (arguments.map Parser.argumentNode).Perm
    (callArguments (arguments.filterMap Sum.getLeft?) (arguments.filterMap Sum.getRight?)) := by
  induction arguments with
  | nil => exact .refl _
  | cons a as ih =>
    cases a with
    | inl e => exact ih.cons _
    | inr w => exact (ih.cons _).trans List.perm_middle.symm

/-- Of nodes in the order of the text, those begin before one that come before it. -/
theorem Node.Row.rank_eq {P : Token → Prop} {lo hi : Pos} {ns ms : List Node} {n : Node}
    (h : Row P lo (ns ++ n :: ms) hi) : n.rank (ns ++ n :: ms) = ns.length := by
  induction ns generalizing lo with
  | nil =>
    obtain ⟨-, -, hlt, hrow⟩ := h
    refine List.countP_eq_zero.mpr (List.forall_mem_cons.mpr ⟨by simp, fun m hm => ?_⟩)
    have hle := (hrow.behind hm).1
    simp only [decide_eq_true_eq, not_lt]
    order
  | cons m ns ih =>
    obtain ⟨-, -, hlt, hrow⟩ := h
    have hle := (@behind _ n _ _ _ hrow (by simp)).1
    rw [rank, List.cons_append, List.countP_cons_of_pos (by simpa using lt_of_lt_of_le hlt hle)]
    exact congrArg (· + 1) (ih hrow)

namespace Grammar

open Vyper.Grammar.Symbol (sign)

variable {notes : List Deprecation} {row : List Symbol} {ts us : List Token}

/-- The tokens of an argument among those of all arguments, behind so many commas. -/
def Behind (k : Nat) (inner : List Token) (a : Node) : Prop :=
  ∃ front own back, inner = front ++ (own ++ back) ∧ Nested false (signs own) ∧
    (signs front).foldl bracketDepth 0 = 0 ∧
    ('\x7b' ∉ signs front → countCommas 0 (signs front) = k) ∧
    (∀ t ∈ front.getLast?, t.span.stop ≤ a.span.start) ∧
      ∀ t ∈ back.head?, a.span.stop ≤ t.span.start

theorem Argument.exists_symbol {a : Expr ⊕ Keyword} (h : Argument row a) : ∃ x, row = [x] ∧
    x.span = (Parser.argumentNode a).span ∧ x.front = x.span.start ∧ x.fits false = true := by
  cases h <;> exact ⟨_, rfl, rfl, rfl, rfl⟩

/-- Each argument is behind as many commas as there are arguments before it. -/
theorem Listed.behind {as bs items : List (Expr ⊕ Keyword)} {a : Expr ⊕ Keyword} {trailing : Bool}
    {lo hi : Pos} (h : Listed (.punct .comma) Argument trailing row items)
    (hitems : items = as ++ a :: bs) (hrow : Along Symbol.Holds row us)
    (hstand : Stand (fun _ => True) lo row hi) :
    lo ≤ (Parser.argumentNode a).span.start ∧ Behind as.length us (Parser.argumentNode a) := by
  induction h generalizing us lo as with
  | nil => simp at hitems
  | last hb =>
    obtain ⟨x, rfl, hspan, hfront, hfits⟩ := hb.exists_symbol
    cases as with
    | nil =>
      cases hitems
      have hheld := hrow.held (by simpa using hfits)
      rw [← hspan, ← hfront]
      exact ⟨hstand.2.1, [], us, [], by simp, hheld.nested, rfl, fun _ => rfl, by simp, by simp⟩
    | cons => simp at hitems
  | cons mark hb _ ih =>
    obtain ⟨x, rfl, hspan, hfront, hfits⟩ := hb.exists_symbol
    obtain ⟨vs, _, rfl, hvs, _, ws, rfl, rfl, hws⟩ := hrow
    obtain ⟨-, hlo, hle, -, hmark, hmark', hrest⟩ := hstand
    have hheld := (hvs.held hfits).nested
    cases as with
    | nil =>
      cases hitems
      rw [Behind, ← hspan]
      exact ⟨hfront ▸ hlo, [], vs, _, rfl, hheld, rfl,
        fun _ => rfl, by simp, by rintro t ⟨⟩; exact hmark⟩
    | cons _ as =>
      cases hitems
      obtain ⟨hstart, front, own, back, rfl, hown, hdepth, hcount, hlast, hback⟩ := ih rfl hws hrest
      have hlo : lo ≤ mark.start := (hfront ▸ hlo).trans (hle.trans hmark)
      refine ⟨hlo.trans (hmark'.trans hstart), vs ++ ⟨.punct .comma, mark⟩ :: front, own,
        back, by simp, hown, ?_, fun hbrace => ?_, ?_, hback⟩
      · simpa [hheld.foldl_bracketDepth, TokenKind.sign?, bracketDepth] using hdepth
      · have hzero := (hheld.front List.prefix_rfl 0).2 (by simp) (by simp_all)
        simp only [Token.signs_append, Token.signs_cons] at hbrace ⊢
        rw [countCommas_append, hzero, hheld.foldl_bracketDepth]
        simp [TokenKind.sign?, countCommas, bracketDepth] at hbrace ⊢
        rw [hcount hbrace.2, Nat.add_comm]
      · rw [List.getLast?_append_cons]
        cases front with
        | nil => rintro t ⟨⟩; exact hstart
        | cons u front => simpa using hlast

/-- The tokens of a call. -/
structure CallRow (span : Span) (func : Expr) (args : List Expr) (keywords : List Keyword) where
  callee : List Token
  opening : Token
  inner : List Token
  closing : Token
  opening_kind : opening.kind = .punct .openParen
  closing_kind : closing.kind = .punct .closeParen
  callee_frame : Frame callee func.span
  callee_plain : ∀ t ∈ callee, t.kind.isMark = false
  callee_lt : func.span.start < func.span.stop
  inner_held : Held true inner
  span_eq : span = ⟨func.span.start, closing.span.stop⟩
  argument : ∀ a ∈ callArguments args keywords, a.span.stop ≤ closing.span.start ∧
    Behind (a.rank (callArguments args keywords)) inner a

namespace CallRow

variable {span : Span} {func : Expr} {args : List Expr} {keywords : List Keyword}

def tokens (r : CallRow span func args keywords) : List Token :=
  r.callee ++ r.opening :: (r.inner ++ [r.closing])

theorem plain (r : CallRow span func args keywords) : ∀ t ∈ r.tokens, t.kind.isMark = false := by
  have hinner := r.inner_held.plain
  simp only [tokens, List.forall_mem_append, List.forall_mem_cons, r.opening_kind, r.closing_kind]
  exact ⟨r.callee_plain, rfl, hinner, rfl, by simp⟩

end CallRow

/-- A call is read from the tokens of its callee, a parenthesis, its arguments and the parenthesis
that closes. -/
theorem Formed.exists_call {span : Span} {func : Expr} {args : List Expr} {keywords : List Keyword}
    (h : Formed ts notes (.expr (.call span func args keywords))) (hts : Sorted ts) :
    ∃ (r : CallRow span func args keywords) (front back : List Token),
      ts = front ++ (r.tokens ++ back) := by
  obtain ⟨items, x, lo, hi, hrule, hx, -, hstand, row, us, hderives, hus⟩ := h
  have hall : Along (fun x us => x.Holds us ∧ x.Rereads us) (row ++ items) us := by
    refine hderives.along (fun _ => ⟨rfl, rfl⟩)
      (fun _ _ => ⟨fun _ _ => Token.held_singleton rfl, rfl⟩) ?_ ?_ hus
    · intro items x vs hvs hrule hitems
      have hrereads := hrule.rereads hts hvs (hitems.mono fun _ _ h => h.2)
      exact ⟨hrule.holds (hitems.mono fun _ _ h => h.1), hrereads.1⟩
    · intro items x vs hshift hitems
      exact ⟨hshift.holds (hitems.mono fun _ _ h => h.1),
        hshift.rereads (hitems.mono fun _ _ h => h.2)⟩
  obtain ⟨front, _, rfl, -, hitems⟩ := along_append.mp hall
  obtain ⟨back, rfl⟩ := hus
  cases hrule with
  | @call k _ trailing row arguments a b harguments =>
    cases hx
    obtain ⟨callee, _, rfl, hcallee, _, _, rfl, ⟨rfl, -⟩, hrest⟩ := hitems
    obtain ⟨inner, _, rfl, hinner, _, _, rfl, ⟨rfl, -⟩, rfl⟩ := along_append.mp hrest
    obtain ⟨hfunc, -, hle, -, hopening, hopening', hrest⟩ := hstand
    obtain ⟨mid, hrow, -, hmid, hclosing, -⟩ := stand_append.mp hrest
    have hinner := hinner.mono fun _ _ h => h.1
    have hbetween := hrow.le
    have hspan : func.span.cover b = ⟨func.span.start, b.stop⟩ := by
      dsimp only [Symbol.span, Symbol.front] at *
      exact Span.cover_eq (by order) (by order)
    refine ⟨⟨callee, ⟨.punct .openParen, a⟩, inner, ⟨.punct .closeParen, b⟩, rfl, rfl,
      hcallee.2.1.frame,
      hcallee.2.1.closed.plain, (hfunc.node _ List.mem_cons_self).2,
        hinner.held harguments.fits_arguments, hspan,
      fun n hn => ?_⟩, front, back, by simp [CallRow.tokens]⟩
    have hperm := perm_callArguments arguments
    obtain ⟨argument, hmem, rfl⟩ := List.mem_map.mp (hperm.mem_iff.mpr hn)
    obtain ⟨as, bs, rfl⟩ := List.append_of_mem hmem
    have hnodes := hrow.row_nodes
    rw [harguments.nodes_eq (f := fun a => [Parser.argumentNode a]) (by rintro _ _ ⟨⟩ <;> rfl),
      ← List.map_eq_flatMap, List.map_append, List.map_cons] at hnodes
    have hrank := hnodes.rank_eq
    rw [Node.rank, ← List.map_cons, ← List.map_append, hperm.countP_eq, List.length_map] at hrank
    refine ⟨(hnodes.within _ (by simp)).2.trans hmid, ?_⟩
    rw [Node.rank, hrank]
    exact (harguments.behind rfl hinner hrow).2
  | _ => cases hx

end Grammar

/-! ### Arguments in the text -/

theorem Pos.line_lt_advance {text : List Char} (h : '\n' ∈ text) (p : Pos) :
    p.line < (p.advance text).line := by
  obtain ⟨a, b, rfl⟩ := List.append_of_mem h
  have ha := line_le_of_le (p.le_advance a)
  have hb := line_le_of_le (((p.advance a).step '\n').le_advance b)
  rw [advance_append]
  exact lt_of_le_of_lt ha (lt_of_lt_of_le (Nat.lt_succ_self _) hb)

theorem Pos.prefix_of_advance_le {text a b : List Char} (ha : a <+: text) (hb : b <+: text)
    (h : origin.advance a ≤ origin.advance b) : a <+: b := by
  rcases List.prefix_or_prefix_of_prefix ha hb with hab | ⟨r, rfl⟩
  · exact hab
  · by_cases hr : r = []
    · simp [hr]
    · rw [advance_append] at h
      exact absurd h (not_le.mpr (lt_advance _ hr))

theorem Gap.isBlank_of_line {gap : List Char} (h : Gap gap) (hline : '\n' ∉ gap) :
    ∀ c ∈ gap, Lexeme.isBlank c = true := by
  induction h with
  | nil => simp
  | blank hc _ ih =>
    simp only [List.mem_cons, not_or] at hline
    exact List.forall_mem_cons.mpr ⟨hc.resolve_right (Ne.symm hline.1), ih hline.2⟩
  | comment | continuation => simp at hline

/-- The token behind spaces and before a parenthesis is that parenthesis. -/
theorem Gap.eq_spaces {gap blank more rest : List Char} {c : Char} (h : Gap gap)
    (hblank : ∀ c ∈ blank, c = ' ')
    (hc : c ≠ ' ') (heq : blank ++ '(' :: more = gap ++ c :: rest) :
    gap = blank ∧ c = '(' ∧ rest = more := by
  induction blank generalizing gap with
  | nil =>
    cases h with
    | nil => cases heq; exact ⟨rfl, rfl, rfl⟩
    | blank hd =>
      cases heq
      exact absurd hd (by decide)
    | comment | continuation => cases heq
  | cons b blank ih =>
    obtain ⟨rfl, hspaces⟩ := List.forall_mem_cons.mp hblank
    cases h with
    | nil =>
      cases heq
      exact absurd rfl hc
    | blank _ h =>
      obtain ⟨rfl, htail⟩ := List.cons.inj heq
      obtain ⟨rfl, hrest⟩ := ih h hspaces htail
      exact ⟨rfl, hrest⟩
    | comment | continuation => cases heq

theorem TokenKind.eq_openBrace_of_sign? {k : TokenKind} (h : k.sign? = some '\x7b') :
    k = .punct .openBrace := by
  unfold sign? at h
  split at h <;> simp_all

namespace Token

variable {before text : List Char} {ts us : List Token} {t u : Token} {keep : Char → Bool} {p : Pos}

/-- Within a line there are only blanks between tokens. -/
theorem Laid.unspoiled (h : Laid before (ts ++ us) text) (hlast : ∀ c ∈ before.getLast?, c ≠ '\r')
    (hkeep : ∀ c, keep c = true → TokenKind.isSign c = true)
    (hline : ∀ t ∈ ts, t.span.start.line ≤ (Pos.origin.advance before).line)
    (hliterals : ∀ t ∈ ts, t.kind.isLiteral = true → t.span.start < p →
      Quiet keep (Rows.slice (before ++ text) t.span)) :
    Unspoiled keep (before ++ text) p (Pos.origin.advance before) ts := by
  induction ts generalizing before text with
  | nil => trivial
  | cons t ts ih =>
    obtain ⟨gap, lexeme, rest, rfl, hgap, hspells, hspan, hrest⟩ := h
    obtain ⟨ht, hline⟩ := List.forall_mem_cons.mp hline
    obtain ⟨hliteral, hliterals⟩ := List.forall_mem_cons.mp hliterals
    have hbefore : Rows.Exact (before ++ gap) (lexeme ++ rest) := exact_before hspells.solid rest
    have hslice := Rows.slice_advance (.inl hlast) hbefore
    rw [List.append_assoc] at hslice
    refine ⟨?_, hliteral, ?_⟩
    · rw [hspan, hslice]
      rw [hspan, Pos.advance_append] at ht
      have hblank := hgap.isBlank_of_line fun hfeed =>
        absurd (Pos.line_lt_advance hfeed _) (not_lt.mpr ht)
      refine fun c hc => Bool.eq_false_iff.mpr fun hkept => ?_
      have hsign := hkeep c hkept
      have hblank := hblank c hc
      simp only [Lexeme.isBlank, Bool.or_eq_true, beq_iff_eq] at hblank
      rcases hblank with ((rfl | rfl) | rfl) | rfl <;> cases hsign
    · have hle : (Pos.origin.advance before).line ≤
          (Pos.origin.advance (before ++ gap ++ lexeme)).line := by
        rw [List.append_assoc, Pos.advance_append]
        exact Pos.line_le_of_le (Pos.le_advance _ _)
      have hend : ∀ c ∈ (before ++ gap ++ lexeme).getLast?, c ≠ '\r' := by
        obtain ⟨c, cs, rfl, -⟩ := hspells.solid.head
        rw [List.getLast?_append_cons]
        exact hspells.solid.last
      have hmore := ih hrest hend (fun t ht => (hline t ht).trans hle) (by simpa using hliterals)
      simpa [hspan] using hmore

theorem Sorted.start_le_last (h : Sorted (ts ++ [t])) :
    ∀ u ∈ ts ++ [t], u.span.start ≤ t.span.stop := by
  have hlast := h.start_le t (by simp)
  refine List.forall_mem_append.mpr ⟨fun u hu => ?_, List.forall_mem_singleton.mpr hlast⟩
  have hstart := h.start_le u (by simp [hu])
  have hstop := (List.pairwise_append.mp h.apart).2.2 u hu t (by simp)
  order

/-- Behind a callee and spaces, a parenthesis opens the call. -/
theorem Laid.opening {a blank more : List Char} {right : List Token}
    (h : Laid [] (ts ++ u :: (right ++ t :: us)) (a ++ (blank ++ '(' :: more)))
    (ha : Pos.origin.advance a = u.span.stop) (hblank : ∀ c ∈ blank, c = ' ')
    (hright : ∀ t ∈ right, t.kind = .punct .closeParen) (ht : t.kind = .punct .openParen) :
    Laid (a ++ blank ++ ['(']) us more := by
  obtain ⟨own, lexeme, rest, htext, -, hspan, hrest, -⟩ := h.split (by simp)
  rw [hspan, List.nil_append] at ha
  rw [← List.append_assoc own] at htext
  obtain rfl := Pos.eq_of_advance _ htext ha
  obtain rfl := List.append_cancel_left htext
  cases right with
  | nil =>
    obtain ⟨gap, _, rest, heq, hgap, hspells, -, hrest⟩ := hrest
    rw [ht] at hspells
    obtain rfl := hspells.2
    obtain ⟨rfl, -, rfl⟩ := hgap.eq_spaces hblank (by decide) heq
    exact hrest
  | cons r right =>
    obtain ⟨gap, _, rest, heq, hgap, hspells, -⟩ := hrest
    rw [hright r List.mem_cons_self] at hspells
    obtain rfl := hspells.2
    exact absurd (hgap.eq_spaces hblank (by decide) heq).2.1 (by decide)

end Token

/-! ### Cursors in arguments -/

namespace LineCursor

/-- The characters that are counted to the left of a cursor. -/
def isCounted (c : Char) : Bool := c ∈ ['(', ')', '[', ']', ',']

theorem isSign_of_isCounted (c : Char) (h : isCounted c = true) : TokenKind.isSign c = true := by
  have hall : ∀ d ∈ ['(', ')', '[', ']', ','], TokenKind.isSign d = true := by
    simp [TokenKind.isSign]
  exact hall c (of_decide_eq_true h)

theorem countCommas_filter (cs : List Char) (d : Nat) :
    countCommas d (cs.filter isCounted) = countCommas d cs := by
  induction cs generalizing d with
  | nil => rfl
  | cons c cs ih =>
    by_cases hc : isCounted c = true
    · rw [List.filter_cons_of_pos hc, countCommas, countCommas, ih]
    · have hother : c ∉ ['(', ')', '[', ']', ','] := by simpa [isCounted] using hc
      simp only [List.mem_cons, not_or] at hother
      rw [List.filter_cons_of_neg hc, countCommas]
      simp [bracketDepth, hother, ih]

/-- A text with a cursor in it: a line up to the cursor has a callee and a parenthesis behind it. -/
structure CallCursor where
  before : List Char
  left : List Char
  callee : List Char
  blank : List Char
  written : List Char
  after : List Char

namespace CallCursor

variable (c : CallCursor)

def line : List Char := c.left ++ c.callee ++ c.blank ++ '(' :: c.written

def text : List Char := c.before ++ c.line ++ c.after

/-- Where the callee stands. -/
def span : Span := ⟨Pos.origin.advance (c.before ++ c.left),
    Pos.origin.advance (c.before ++ c.left ++ c.callee)⟩

/-- The text up to the parenthesis. -/
def opened : List Char := c.before ++ c.left ++ c.callee ++ c.blank ++ ['(']

/-- The place of the cursor. -/
def place : Pos := Pos.origin.advance (c.opened ++ c.written)

/-- The callee is one for the editor too. Behind the parenthesis, those that are opened are closed,
and of the tokens that begin before the cursor none is a brace and no literal has in it what is
counted. -/
structure Clear (ts : List Token) : Prop where
  detached : Detached c.left
  callee : Callee c.callee
  blank : ∀ x ∈ c.blank, x = ' '
  matched : Matched c.written
  tokens : ∀ t ∈ ts, Pos.origin.advance c.opened ≤ t.span.start → t.span.start < c.place →
    t.kind ≠ .punct .openBrace ∧ (t.kind.isLiteral = true →
      Quiet isCounted (Rows.slice c.text t.span))

variable {c} {front back : List Token} {span : Span} {func : Expr} {args : List Expr}
  {keywords : List Keyword} {r : Grammar.CallRow span func args keywords}

theorem append_eq : c.opened ++ (c.written ++ c.after) = c.text := by simp [opened, text, line]

/-- The parenthesis is that of the call, and its arguments stand behind it. -/
theorem laid (h : Laid [] (front ++ (r.tokens ++ back)) c.text) (hfunc : func.span = c.span)
    (hblank : ∀ x ∈ c.blank, x = ' ') :
    Laid c.opened (r.inner ++ r.closing :: back) (c.written ++ c.after) := by
  obtain ⟨left, own, right, hcallee, hframed⟩ := r.callee_frame
  obtain ⟨u, hu, hstop⟩ := Option.map_eq_some_iff.mp hframed.spans.stop
  obtain ⟨own, rfl⟩ := List.getLast?_eq_some_iff.mp hu
  rw [hfunc] at hstop
  refine @Laid.opening (front ++ left ++ own) _ _ u _ _ _ right ?_ hstop.symm hblank hframed.right
    r.opening_kind
  rw [Grammar.CallRow.tokens, hcallee, ← append_eq] at h
  simpa [opened] using h

/-- On the line of the parenthesis, the commas counted up to the cursor are those among the tokens
up to it. -/
theorem exists_signs (h : Laid c.opened (r.inner ++ r.closing :: back) (c.written ++ c.after))
    (hstop : c.place ≤ r.closing.span.start)
    (hline : ∀ t ∈ r.inner ++ [r.closing], t.span.start.line ≤ (Pos.origin.advance c.opened).line)
    (hliterals : ∀ t ∈ r.inner ++ [r.closing], t.kind.isLiteral = true → t.span.start < c.place →
      Quiet isCounted (Rows.slice c.text t.span)) :
    ∃ vs ws, r.inner = vs ++ ws ∧ (∀ t ∈ vs, t.span.start < c.place) ∧
      (∀ t ∈ ws, c.place ≤ t.span.start) ∧ countCommas 0 c.written = countCommas 0 (signs vs) := by
  have hlast : ∀ x ∈ c.opened.getLast?, x ≠ '\r' := by simp [opened]
  obtain ⟨own, lexeme, rest, hown, -, hspan, -, hfilter⟩ := h.split hlast
  have hwritten : c.written <+: own := by
    refine (List.prefix_append_right_inj c.opened).mp
      (@Pos.prefix_of_advance_le c.text _ _ ?_ ?_ ?_)
    · exact ⟨c.after, by rw [List.append_assoc, c.append_eq]⟩
    · exact ⟨lexeme ++ rest, by rw [List.append_assoc, ← hown, c.append_eq]⟩
    · rwa [hspan] at hstop
  rw [List.append_cons] at h
  rw [← c.append_eq] at hliterals
  have hunspoiled := h.unspoiled hlast isSign_of_isCounted hline hliterals
  obtain ⟨vs, ws, hinner, hvs, hws, hsigns⟩ :=
    hfilter isSign_of_isCounted hunspoiled hwritten le_rfl
  exact ⟨vs, ws, hinner, hvs, hws, by rw [← countCommas_filter, hsigns, countCommas_filter]⟩

end CallCursor

/-- A front of the tokens that ends in an argument. -/
theorem countCommas_behind {k : Nat} {inner vs ws : List Token} {a : Node} {p : Pos}
    (h : Grammar.Behind k inner a) (hinner : inner = vs ++ ws) (hvs : ∀ t ∈ vs, t.span.start < p)
    (hws : ∀ t ∈ ws, p ≤ t.span.start) (hlt : ∀ t ∈ inner, t.span.start < t.span.stop)
    (hstart : a.span.start ≤ p) (hstop : p ≤ a.span.stop) (hbrace : '\x7b' ∉ signs vs) :
    countCommas 0 (signs vs) = k := by
  obtain ⟨front, own, back, rfl, hown, hdepth, hcount, hlast, hback⟩ := h
  obtain ⟨part, rfl⟩ : front <+: vs := by
    rcases List.eq_nil_or_concat' front with rfl | ⟨front, t, rfl⟩
    · exact List.nil_prefix
    · rw [List.append_assoc] at hinner
      refine Token.prefix_of_start_lt hinner hws ?_
      have hle := hlast t (by simp)
      have hlt := hlt t (by simp)
      order
  have hpart : part <+: own := by
    refine (List.prefix_append_right_inj front).mp ?_
    rw [← List.append_assoc] at hinner
    cases back with
    | nil => exact ⟨ws, by rw [← hinner, List.append_nil]⟩
    | cons t back => exact Token.prefix_of_le_start hinner hvs (hstop.trans (hback t rfl))
  obtain ⟨more, rfl⟩ := hpart
  rw [Token.signs_append] at hown hbrace ⊢
  rw [List.mem_append, not_or] at hbrace
  rw [countCommas_append, hcount hbrace.1, hdepth,
    (hown.front (List.prefix_append _ _) 0).2 (by simp) hbrace.2, Nat.add_zero]

/-- A cursor in an argument of a call on one line is told the source of the callee and how many
arguments begin before this one. The callee has to be one for the editor too, and between its
parenthesis and the cursor no parenthesis may be left open, no brace opened, and no comma or bracket
stand in a literal. -/
theorem callContext_argument (c : CallCursor) {parsed : Parsed} {stream : TokenStream}
    {path : List Nat} {span : Span} {func : Expr} {args : List Expr} {keywords : List Keyword}
    (hparse : Module.parse c.text = .ok parsed) (hstream : TokenStream.ofText c.text = .ok stream)
    (hcall : (Node.module parsed.tree).at? path = some (.expr (.call span func args keywords)))
    (hline : span.start.line = span.stop.line) (hfunc : func.span = c.span) {a : Node}
    (ha : a ∈ callArguments args keywords) (hstart : a.span.start ≤ c.place)
    (hstop : c.place ≤ a.span.stop) (hclear : c.Clear stream.tokens) {line : List Char}
    {index : Nat} (htake : line.take index = c.line) :
    callContext line index = some ⟨c.callee, a.rank (callArguments args keywords)⟩ := by
  have hrow := TokenStream.row_tokens hstream
  have hformed := Module.throughout_of_parse hparse hstream (P := fun n => ∀ e, n = .expr e →
    Grammar.Formed stream.tokens parsed.notes n) (by simp) fun _ h _ _ => h
  obtain ⟨r, front, back, htokens⟩ := (hformed path _ hcall _ rfl).exists_call hrow.sorted
  obtain ⟨hclosing, hbehind⟩ := r.argument a ha
  have hne : c.callee ≠ [] := by
    intro hnil
    have hlt := r.callee_lt
    rw [hfunc, CallCursor.span, hnil, List.append_nil] at hlt
    exact lt_irrefl _ hlt
  have hlaid := c.laid (TokenStream.laid_append hstream htokens r.plain) hfunc hclear.blank
  have hmem : ∀ t ∈ r.inner ++ [r.closing], t ∈ r.tokens := fun t ht =>
    List.mem_append_right _ (List.mem_cons_of_mem _ ht)
  have htoken : ∀ t ∈ r.inner ++ [r.closing], t.span.start < c.place →
      t.kind ≠ .punct .openBrace ∧ (t.kind.isLiteral = true →
        Quiet isCounted (Rows.slice c.text t.span)) := by
    intro t ht hlt
    refine hclear.tokens t (by simp [htokens, hmem t ht]) (hlaid.le_start t ?_) hlt
    rw [List.append_cons]
    exact List.mem_append_left _ ht
  -- The call ends on the line of its callee, so all its tokens are on the line of the parenthesis.
  have hlines : ∀ t ∈ r.inner ++ [r.closing], t.span.start.line ≤
      (Pos.origin.advance c.opened).line := by
    have hsorted : Token.Sorted (r.inner ++ [r.closing]) :=
      hrow.sorted.of_infix ⟨front ++ r.callee ++ [r.opening],
        back, by simp [htokens, Grammar.CallRow.tokens]⟩
    have hcallee : func.span.start ≤ Pos.origin.advance c.opened := by
      rw [hfunc]
      exact Token.advance_le_of_isPrefix [] ⟨c.callee ++ c.blank ++ ['('], by simp⟩
    rw [r.span_eq] at hline
    refine fun t ht => (Pos.line_le_of_le ?_).trans (hline ▸ Pos.line_le_of_le hcallee)
    exact hsorted.start_le_last t ht
  obtain ⟨vs, ws, hinner, hvs, hws, hcount⟩ :=
    CallCursor.exists_signs hlaid (hstop.trans hclosing) hlines
    fun t ht hliteral hlt => (htoken t ht hlt).2 hliteral
  have hbrace : '\x7b' ∉ signs vs := by
    intro hsign
    obtain ⟨t, ht, hsign⟩ := List.mem_flatMap.mp hsign
    have hkind := TokenKind.eq_openBrace_of_sign? (Option.mem_toList.mp hsign)
    exact (htoken t (by simp [hinner, ht]) (hvs t ht)).1 hkind
  have hlt : ∀ t ∈ r.inner, t.span.start < t.span.stop := fun t ht =>
    have hrowed := hmem t (List.mem_append_left _ ht)
    hrow.start_lt_stop t (by simp [htokens, hrowed]) (r.plain t hrowed)
  rw [callContext_append htake hclear.detached hclear.callee hne hclear.blank hclear.matched,
    hcount, countCommas_behind hbehind hinner hvs hws hlt hstart hstop hbrace]

/-- The places of a call and of its callee, and those of its arguments with their ranks. -/
def callPlaces? : Node → Option (Span × Span × List (Span × Nat))
  | .expr (.call span func args keywords) => some (span, func.span,
    (callArguments args keywords).map fun a => (a.span, a.rank (callArguments args keywords)))
  | _ => none

theorem exists_argument {text : List Char} {path : List Nat} {span place : Span}
    {places : List (Span × Nat)}
    (h : ((Module.parse text).toOption.bind fun parsed => ((Node.module parsed.tree).at? path).bind
      callPlaces?) = some (span, place, places)) {own : Span} {k : Nat} (hmem : (own, k) ∈ places) :
    ∃ parsed func args keywords a, Module.parse text = .ok parsed ∧
      (Node.module parsed.tree).at? path = some (.expr (.call span func args keywords)) ∧
      func.span = place ∧
      a ∈ callArguments args keywords ∧ a.span = own ∧
        a.rank (callArguments args keywords) = k := by
  obtain ⟨parsed, hparsed, h⟩ := Option.bind_eq_some_iff.mp h
  obtain ⟨n, hn, h⟩ := Option.bind_eq_some_iff.mp h
  unfold callPlaces? at h
  split at h
  · cases h
    obtain ⟨a, ha, hplace⟩ := List.mem_map.mp hmem
    cases hplace
    exact ⟨parsed, _, _, _, a, eq_ok_of_toOption hparsed, hn, rfl, ha, rfl, rfl⟩
  · cases h

/-- A cursor in a named argument, behind commas in brackets and a literal. -/
def named : CallCursor where
  before := []
  left := "x: T = ".toList
  callee := "a.f".toList
  blank := []
  written := "b[c, d], \"e\", k=".toList
  after := "g(h))".toList

theorem callContext_argument_named :
    ∃ parsed func args keywords a, Module.parse named.text = .ok parsed ∧
    (Node.module parsed.tree).at? [0, 2] =
      some (.expr (.call ⟨⟨1, 7⟩, ⟨1, 32⟩⟩ func args keywords)) ∧
    a ∈ callArguments args keywords ∧ a.span = ⟨⟨1, 25⟩, ⟨1, 31⟩⟩ ∧
    callContext named.text 27 = some ⟨"a.f".toList, a.rank (callArguments args keywords)⟩ ∧
    a.rank (callArguments args keywords) = 2 := by
  obtain ⟨parsed, func, args, keywords, a, hparse, hcall, hfunc, ha, hspan, hrank⟩ :=
    @exists_argument named.text [0, 2] ⟨⟨1, 7⟩, ⟨1, 32⟩⟩ named.span
    [(⟨⟨1, 11⟩, ⟨1, 18⟩⟩, 0), (⟨⟨1, 20⟩, ⟨1, 23⟩⟩, 1), (⟨⟨1, 25⟩, ⟨1, 31⟩⟩, 2)]
    (by decide +kernel) ⟨⟨1, 25⟩, ⟨1, 31⟩⟩ 2 (by simp)
  have htokens : (TokenStream.ofText named.text).toOption.map
      (fun stream => stream.tokens.all fun t =>
        t.kind != .punct .openBrace &&
          (!t.kind.isLiteral || decide (Quiet isCounted (Rows.slice named.text t.span)))) =
      some true := by decide +kernel
  obtain ⟨stream, hstream, hchecks⟩ := Option.map_eq_some_iff.mp htokens
  have hclear : named.Clear stream.tokens := by
    refine ⟨by decide +kernel, ?_, by simp [named], by decide +kernel, fun t ht _ _ => ?_⟩
    · exact ((Callee.nil.char (by decide +kernel)).char (by decide +kernel)).char
        (by decide +kernel)
    · have hcheck := List.all_eq_true.mp hchecks t ht
      simp only [Bool.and_eq_true, bne_iff_ne, Bool.or_eq_true, Bool.not_eq_true',
        decide_eq_true_eq] at hcheck
      exact ⟨hcheck.1, fun hliteral => hcheck.2.resolve_left (by simp [hliteral])⟩
  refine ⟨parsed, func, args, keywords, a, hparse, hcall, ha, hspan, ?_, hrank⟩
  exact callContext_argument named hparse (eq_ok_of_toOption hstream) hcall rfl hfunc ha
    (by rw [hspan]; decide +kernel) (by rw [hspan]; decide +kernel) hclear (by decide +kernel)

/-- A comma in a literal is counted, so a cursor in the second argument is taken to be in the third.
-/
theorem callContext_literal : ∃ parsed func args keywords a,
    Module.parse "x: T = f(\"a,b\", c)".toList = .ok parsed ∧
    (Node.module parsed.tree).at? [0, 2] =
      some (.expr (.call ⟨⟨1, 7⟩, ⟨1, 18⟩⟩ func args keywords)) ∧
    a ∈ callArguments args keywords ∧ a.span = ⟨⟨1, 16⟩, ⟨1, 17⟩⟩ ∧
      a.rank (callArguments args keywords) = 1 ∧
    callContext "x: T = f(\"a,b\", c)".toList 16 = some ⟨"f".toList, 2⟩ := by
  obtain ⟨parsed, func, args, keywords, a, hparse, hcall, -, ha, hspan, hrank⟩ :=
    @exists_argument "x: T = f(\"a,b\", c)".toList [0, 2] ⟨⟨1, 7⟩, ⟨1, 18⟩⟩ ⟨⟨1, 7⟩, ⟨1, 8⟩⟩
    [(⟨⟨1, 9⟩, ⟨1, 14⟩⟩, 0), (⟨⟨1, 16⟩, ⟨1, 17⟩⟩, 1)]
      (by decide +kernel) ⟨⟨1, 16⟩, ⟨1, 17⟩⟩ 1 (by simp)
  exact ⟨parsed, func, args, keywords, a, hparse, hcall, ha, hspan, hrank, by decide +kernel⟩

end LineCursor

end Vyper
