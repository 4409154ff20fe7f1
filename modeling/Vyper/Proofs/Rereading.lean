import Vyper.Proofs.Brackets
import Vyper.Proofs.Throughout

/-!
# Reading the tokens of an expression again

The tokens that were read for an expression at a level are read for it again, wherever they stand
and whatever comes behind them, as long as that ends the level (`Parser.Block`). The parsers of the
grammar are gone through once, from the atoms to the boolean operators: each puts together the
tokens of its operands, and the lemmas on reading known tokens say that the result is read from
them. A node is made from one such row of tokens. If the brackets of its own tokens are balanced,
they are that row, and in parentheses the row is read as the node (`Parser.Restored`).
-/

namespace Vyper

open TokenKind (Balanced)
open Token (Sorted Spans Frame Tight)

/-- The name that an expression begins with, if it begins with one. -/
def Expr.lead? : Expr → Option String
  | .name _ id => some id
  | .member _ value _ => value.lead?
  | .call _ func _ _ => func.lead?
  | .subscript _ value _ => value.lead?
  | .binary _ left _ _ => left.lead?
  | .compare _ left _ _ => left.lead?
  | _ => none

/-- An expression that says in parentheses what it says without them: it does not begin with a name
that is read as something else there. A tuple keeps its own text together, and is none that only a
comma behind its text makes one. -/
structure Expr.Enclosable (e : Expr) (ks : List TokenKind) : Prop where
  lead : ∀ id ∈ e.lead?, id ∉ ["not", "True", "False"]
  tuple : ∀ span elements, e = .tuple span elements →
    Balanced ks ∧ ∀ only, elements = [only] → span ≠ only.span

namespace Token

/-- Tokens without marks of line structure, and with their brackets closed. -/
structure Closed (ts : List Token) : Prop where
  plain : ∀ t ∈ ts, t.kind.isMark = false
  balanced : Balanced (ts.map Token.kind)

variable {ts us : List Token}

theorem closed_nil : Closed [] := ⟨nofun, TokenKind.balanced_nil⟩

theorem Closed.append (hts : Closed ts) (hus : Closed us) : Closed (ts ++ us) := by
  refine ⟨List.forall_mem_append.mpr ⟨hts.plain, hus.plain⟩, ?_⟩
  rw [List.map_append]
  exact hts.balanced.append hus.balanced

/-- A token that is no bracket and no mark. -/
theorem closed_singleton {t : Token} {k : TokenKind} (h : t.kind = k)
    (hk : (k.isMark || k.closes || Layout.depthAfter 0 k != 0) = false) : Closed [t] := by
  subst h
  simp only [Bool.or_eq_false_iff, bne_eq_false_iff_eq] at hk
  exact ⟨List.forall_mem_singleton.mpr hk.1.1, TokenKind.balanced_singleton hk.2 hk.1.2⟩

theorem Closed.cons {t : Token} {k : TokenKind} (h : t.kind = k)
    (hk : (k.isMark || k.closes || Layout.depthAfter 0 k != 0) = false) (hts : Closed ts) :
    Closed (t :: ts) :=
  (closed_singleton h hk).append hts

theorem Closed.enclose {opening closing : Token} {p q : Punct} (hbrackets : Piece.Brackets p q)
    (hopening : opening.kind = .punct p) (hclosing : closing.kind = .punct q) (hts : Closed ts) :
    Closed (opening :: (ts ++ [closing])) := by
  refine ⟨List.forall_mem_cons.mpr ⟨by rw [hopening]; rfl, List.forall_mem_append.mpr
    ⟨hts.plain, List.forall_mem_singleton.mpr (by rw [hclosing]; rfl)⟩⟩, ?_⟩
  rw [List.map_cons, List.map_append, List.map_singleton, hopening, hclosing]
  exact hts.balanced.enclose hbrackets

/-- Two brackets and what is between them. -/
theorem tight_brackets {opening closing : Token} (h : Sorted (opening :: (ts ++ [closing]))) :
    Tight (opening :: (ts ++ [closing])) (opening.span.cover closing.span) := by
  have hsorted : Sorted ([opening] ++ ts ++ [closing]) := h
  have hopening := (spans_singleton opening).tight.frame
  have hclosing := (spans_singleton closing).tight.frame
  rw [hopening.cover_eq hclosing hsorted]
  exact ((spans_singleton opening).append ts (spans_singleton closing)).tight

end Token

open Token (Closed)

namespace Parser

/-! ### Rows of tokens -/

/-- Tokens that were read for an expression at a level, and that are read for it again. -/
structure Block (l : Nat) (ts : List Token) (e : Expr) : Prop where
  closed : Closed ts
  frame : Frame ts e.span
  starts : StartsAt 0 (ts.map Token.kind)
  sign : 11 ≤ l → signOf (next (ts.map Token.kind)) = none
  lead : 3 ≤ l → next (ts.map Token.kind) = .name "not" → e.lead? = some "not"
  reads : ∀ n, ts.length ≤ n → ReadsAt (expressionUpTo n) l (ts.map Token.kind) e
  reaches : Loops l → ∀ n, ts.length ≤ n → ReachesAt (expressionUpTo n) l (ts.map Token.kind) e

/-- A row of tokens in parentheses. -/
def enclosedRow (ts : List Token) : List TokenKind :=
  .punct .openParen :: (ts.map Token.kind ++ [.punct .closeParen])

/-- What the tokens of an expression are good for: those between its ends, if parentheses around
them close behind them, are read for it in parentheses. -/
def Restored (tokens : List Token) : Node → Prop
  | .expr e => ∃ own, own <:+: tokens ∧ Spans own e.span ∧ (∀ t ∈ own, t.kind.isMark = false) ∧
      (TokenKind.openAfter 1 (own.map Token.kind) = some 1 → e.Enclosable (own.map Token.kind) →
        ∀ n, own.length + 2 ≤ n → ReadsAt (expressionUpTo n) 0 (enclosedRow own) e)
  | _ => True

variable {l n : Nat} {ts us : List Token} {e : Expr} {tokens : List Token}

namespace Block

theorem ne_nil (h : Block l ts e) : ts ≠ [] := by
  rintro rfl
  exact h.starts.ne_nil rfl

theorem kinds_ne_nil (h : Block l ts e) : ts.map Token.kind ≠ [] := h.starts.ne_nil

theorem readsInside (h : Block 0 ts e) (hn : ts.length ≤ n) :
    ReadsInside (expressionUpTo (n + 1)) (ts.map Token.kind) e :=
  fun _ hrest => (h.reads n hn).reads hrest

/-- From a level to the whole grammar, where no name stands for an operator. -/
theorem widen (h : Block l ts e) (hl : l ≤ 11)
    (hnot : 3 ≤ l → next (ts.map Token.kind) ≠ .name "not") (hn : ts.length ≤ n) :
    ReadsAt (expressionUpTo n) 0 (ts.map Token.kind) e :=
  (h.reads n hn).descend (Nat.zero_le l) hl ⟨h.starts.opens, h.starts.second, hnot, h.sign⟩

end Block

/-- What is an atom in parentheses is an expression there. -/
theorem readsAt_enclosedRow
    (hsecond : next (ts.map Token.kind ++ [.punct .closeParen]) ≠ .punct .assign)
    (h : ∀ n, ts.length ≤ n → ∀ rest,
      Reads (atom (expressionUpTo (n + 1))) (enclosedRow ts) rest e.Like)
    (hn : ts.length + 2 ≤ n) : ReadsAt (expressionUpTo n) 0 (enclosedRow ts) e := by
  obtain ⟨m, rfl⟩ : ∃ m, n = m + 1 := ⟨n - 1, by omega⟩
  have hreads := (reachesAt_of_atom (h m (by omega))).readsAt (.inr rfl)
  exact hreads.descend (Nat.zero_le 11) (Nat.le_refl 11) (startsAt_open (by decide) hsecond)

namespace Block

theorem reads_group (h : Block l ts e) (hl : l ≤ 11) (he : ∀ id ∈ e.lead?, id ≠ "not")
    (hn : ts.length + 2 ≤ n) : ReadsAt (expressionUpTo n) 0 (enclosedRow ts) e := by
  have hnot : 3 ≤ l → next (ts.map Token.kind) ≠ .name "not" :=
    fun hlevel hnot => he "not" (h.lead hlevel hnot) rfl
  refine readsAt_enclosedRow ?_ (fun n hn rest => ?_) hn
  · rw [next_append h.kinds_ne_nil]
    exact h.starts.next_ne_assign
  · exact reads_atom_group (fun rest hrest => (h.widen hl hnot hn).reads hrest) h.starts rest

/-- A node is restored from the tokens it is made from. The parentheses around its own tokens are
the ones that were read there, or new ones. -/
theorem restored (h : Block l ts e) (hl : l ≤ 11) (hts : ts <:+: tokens)
    (htight : Tight ts e.span) : Restored tokens (.expr e) := by
  obtain ⟨left, own, right, rfl, hframed, hbare⟩ := htight
  have hown : own <:+: left ++ own ++ right := List.infix_append left own right
  refine ⟨own, hown.trans hts, hframed.spans, fun t ht => h.closed.plain t (hown.subset ht),
    fun hopen he => ?_⟩
  obtain ⟨heq, hle⟩ := hbare 1 hopen
  rcases left with _ | ⟨opening, _ | ⟨second, left⟩⟩
  · obtain rfl : right = [] := List.eq_nil_of_length_eq_zero heq.symm
    rw [List.nil_append, List.append_nil] at h
    refine fun n hn => h.reads_group hl (fun id hid hnot => he.lead id hid ?_) hn
    rw [hnot]
    decide
  · obtain ⟨closing, rfl⟩ := List.length_eq_one_iff.mp heq.symm
    have hrow : ([opening] ++ own ++ [closing]).map Token.kind = enclosedRow own := by
      simp [enclosedRow, hframed.left opening List.mem_cons_self,
        hframed.right closing List.mem_cons_self]
    intro n hn
    rw [← hrow]
    refine h.widen hl (fun _ => ?_) (by grind)
    rw [hrow]
    nofun
  · simp at hle

/-- What a row of tokens needs to be an atom. -/
theorem of_atom (hclosed : Closed ts) (hframe : Frame ts e.span)
    (hstarts : StartsAt 0 (ts.map Token.kind)) (hsign : signOf (next (ts.map Token.kind)) = none)
    (hlead : next (ts.map Token.kind) = .name "not" → e.lead? = some "not")
    (hreads : ∀ n, ts.length ≤ n → ∀ rest,
      Reads (atom (expressionUpTo n)) (ts.map Token.kind) rest e.Like) : Block 11 ts e where
  closed := hclosed
  frame := hframe
  starts := hstarts
  sign _ := hsign
  lead _ := hlead
  reads n hn := (reachesAt_of_atom (hreads n hn)).readsAt (.inr rfl)
  reaches _ n hn := reachesAt_of_atom (hreads n hn)

/-- An atom that is one token. -/
theorem of_token {t : Token} {k : TokenKind} (ht : t.kind = k) (hspan : t.span = e.span)
    (hk : (k.isMark || k.closes || Layout.depthAfter 0 k != 0) = false)
    (hopens : opensExpression k = true) (hsign : signOf k = none)
    (hlead : k = .name "not" → e.lead? = some "not")
    (hreads : ∀ n rest, Reads (atom (expressionUpTo n)) [k] rest e.Like) : Block 11 [t] e := by
  refine of_atom (Token.closed_singleton ht hk) ?_ ⟨?_, nofun, nofun, nofun⟩ ?_ ?_
    fun n _ rest => ?_
  · rw [← hspan]
    exact (Token.spans_singleton t).tight.frame
  · simpa [next, ht] using hopens
  · simpa [next, ht] using hsign
  · simpa [next, ht] using hlead
  · rw [List.map_singleton, ht]
    exact hreads n rest

theorem of_name {t : Token} {id : String} (ht : t.kind = .name id) (htrue : id ≠ "True")
    (hfalse : id ≠ "False") : Block 11 [t] (.name t.span id) := by
  refine of_token ht rfl rfl rfl rfl ?_ fun n rest => reads_atom_name_of_ne htrue hfalse rest
  rintro ⟨⟩
  rfl

/-- An atom that begins with a bracket. -/
theorem of_brackets {opening : Token} {p : Punct} (hp : p ∈ [.openParen, .openBracket, .openBrace])
    (hopening : opening.kind = .punct p) (hsecond : next (us.map Token.kind) ≠ .punct .assign)
    (hclosed : Closed (opening :: us)) (hframe : Frame (opening :: us) e.span)
    (hreads : ∀ n, us.length ≤ n → ∀ rest,
      Reads (atom (expressionUpTo (n + 1))) (.punct p :: us.map Token.kind) rest e.Like) :
    Block 11 (opening :: us) e := by
  have hstarts : StartsAt 11 (.punct p :: us.map Token.kind) := startsAt_open hp hsecond
  have hkinds : (opening :: us).map Token.kind = .punct p :: us.map Token.kind := by
    rw [List.map_cons, hopening]
  refine of_atom hclosed hframe ?_ ?_ ?_ fun n hn rest => ?_
  · rw [hkinds]
    exact hstarts.mono (by decide)
  · rw [hkinds]
    exact hstarts.sign (Nat.le_refl 11)
  · rw [hkinds]
    nofun
  · obtain ⟨m, rfl⟩ : ∃ m, n = m + 1 := ⟨n - 1, by rw [List.length_cons] at hn; omega⟩
    rw [hkinds]
    exact hreads m (by rw [List.length_cons] at hn; omega) rest

theorem group {opening closing : Token} (h : Block 0 ts e)
    (hopening : opening.kind = .punct .openParen) (hclosing : closing.kind = .punct .closeParen) :
    Block 11 (opening :: (ts ++ [closing])) e := by
  have hkinds : (ts ++ [closing]).map Token.kind = ts.map Token.kind ++ [.punct .closeParen] := by
    rw [List.map_append, List.map_singleton, hclosing]
  refine of_brackets (by decide) hopening ?_ (h.closed.enclose .round hopening hclosing)
    (h.frame.group hopening hclosing) fun n hn rest => ?_
  · rw [hkinds, next_append h.kinds_ne_nil]
    exact h.starts.next_ne_assign
  · rw [List.length_append] at hn
    rw [hkinds]
    exact reads_atom_group (h.readsInside (by omega)) h.starts rest

end Block

/-! ### Lists -/

section Lists

variable {α γ : Type}

/-- Tokens that were read for an item of a list, and that are read for it again. -/
structure Item (item : Nat → Parser α) (view : α → γ) (fits : List TokenKind → Prop)
    (ts : List Token) (a : α) : Prop where
  closed : Closed ts
  opens : opensExpression (next (ts.map Token.kind)) = true
  reads : ∀ n, ts.length ≤ n → ∀ rest, fits rest →
    Reads (item n) (ts.map Token.kind) rest fun b => view b = view a

/-- Items with a separator behind each but perhaps the last. -/
inductive Separated (sep : TokenKind) (Item : List Token → α → Prop) :
    Bool → List Token → List α → Prop where
  | nil : Separated sep Item true [] []
  | last {ts : List Token} {a : α} : Item ts a → Separated sep Item false ts [a]
  | cons {ts us : List Token} {mark : Token} {trailing : Bool} {a : α} {as : List α} :
    Item ts a → mark.kind = sep → Separated sep Item trailing us as →
      Separated sep Item trailing (ts ++ mark :: us) (a :: as)

variable {sep : TokenKind} {P : List Token → α → Prop} {trailing : Bool} {as : List α}

theorem Separated.mono {Q : List Token → α → Prop} (h : Separated sep P trailing ts as)
    (hPQ : ∀ ts a, P ts a → Q ts a) : Separated sep Q trailing ts as := by
  induction h with
  | nil => exact .nil
  | last ha => exact .last (hPQ _ _ ha)
  | cons ha hmark _ ih => exact .cons (hPQ _ _ ha) hmark ih

theorem Separated.closed (h : Separated sep P trailing ts as) (hP : ∀ ts a, P ts a → Closed ts)
    (hsep : (sep.isMark || sep.closes || Layout.depthAfter 0 sep != 0) = false) : Closed ts := by
  induction h with
  | nil => exact Token.closed_nil
  | last ha => exact hP _ _ ha
  | cons ha hmark _ ih => exact (hP _ _ ha).append (ih.cons hmark hsep)

theorem Separated.length_le (h : Separated sep P trailing ts as) (hP : ∀ ts a, P ts a → ts ≠ []) :
    as.length ≤ ts.length := by
  induction h with
  | nil => exact Nat.le_refl 0
  | last ha => exact List.length_pos_iff.2 (hP _ _ ha)
  | cons ha hmark _ ih =>
    simp only [List.length_cons, List.length_append]
    omega

section Commas

variable {item : Nat → Parser α} {view : α → γ} {fits : List TokenKind → Prop}
  {stop : TokenKind → Bool} {rest : List TokenKind}

theorem Item.ne_nil {a : α} (h : Item item view fits ts a) : ts ≠ [] := by
  rintro rfl
  cases h.opens

theorem Item.next_append {a : α} (h : Item item view fits ts a) (rest : List TokenKind) :
    opensExpression (next (ts.map Token.kind ++ rest)) = true := by
  rw [Parser.next_append (by simpa using h.ne_nil)]
  exact h.opens

/-- Items with commas between them are read again, where what follows stops them. -/
theorem Separated.reads_commaItems
    (h : Separated (.punct .comma) (Item item view fits) trailing ts as)
    (hfollow : Follow fits rest) (hstop : trailing = true → stop (next rest) = true)
    (hgo : ∀ k, opensExpression k = true → stop k = false) {fuel : Nat} (hfuel : as.length < fuel)
    (hn : ts.length ≤ n) :
    Reads (commaItems stop (item n) fuel) (ts.map Token.kind) rest
      fun bs => bs.map view = as.map view := by
  induction h generalizing fuel with
  | nil =>
    obtain ⟨m, rfl⟩ : ∃ m, fuel = m + 1 := ⟨fuel - 1, by simp at hfuel; omega⟩
    refine (reads_peekKind _).look ?_
    rintro _ rfl
    rw [List.map_nil, List.nil_append, hstop rfl]
    exact reads_pure (by rfl) rest
  | @last ts a ha =>
    obtain ⟨m, rfl⟩ : ∃ m, fuel = m + 1 := ⟨fuel - 1, by simp at hfuel; omega⟩
    refine (reads_peekKind _).look ?_
    rintro _ rfl
    rw [hgo _ (ha.next_append rest)]
    refine (ha.reads n hn rest hfollow.fits).finish ?_
    intro b hb
    refine (reads_accept_none hfollow.next).finish ?_
    rintro _ rfl
    exact reads_pure (by simp [hb]) rest
  | @cons ts us mark trailing a as ha hmark _ ih =>
    obtain ⟨m, rfl⟩ : ∃ m, fuel = m + 1 := ⟨fuel - 1, by simp at hfuel; omega⟩
    simp only [List.length_append, List.length_cons] at hn hfuel
    refine (reads_peekKind _).look ?_
    rintro _ rfl
    rw [List.map_append, List.map_cons, hmark, List.append_assoc, hgo _ (ha.next_append _)]
    refine (ha.reads n (by omega) _ (hfollow.comma _)).bind ?_
    intro b hb
    refine (reads_accept (.punct .comma) _).cons ?_
    rintro _ ⟨span, rfl⟩
    refine (ih hstop (by omega) (by omega)).finish ?_
    intro bs hbs
    exact reads_pure (by simp [hb, hbs]) rest

theorem Separated.reads_commaList
    (h : Separated (.punct .comma) (Item item view fits) trailing ts as)
    (hfollow : Follow fits rest) (hstop : trailing = true → stop (next rest) = true)
    (hgo : ∀ k, opensExpression k = true → stop k = false) (hn : ts.length ≤ n) :
    Reads (commaList stop (item n)) (ts.map Token.kind) rest fun bs =>
      bs.map view = as.map view := by
  refine (reads_limit _).look ?_
  intro fuel hfuel
  have hlen := h.length_le fun _ _ => Item.ne_nil
  rw [List.length_append, List.length_map] at hfuel
  exact h.reads_commaItems hfollow hstop hgo (by omega) hn

/-- What begins an item does not close the brackets. -/
theorem beq_of_opens {close : Punct} (hclose : opensExpression (.punct close) = false)
    (k : TokenKind) (hk : opensExpression k = true) : (k == .punct close) = false := by
  rw [beq_eq_false_iff_ne]
  rintro rfl
  rw [hk] at hclose
  cases hclose

theorem Separated.reads_bracketed {close : Punct}
    (h : Separated (.punct .comma) (Item item view fits) trailing ts as)
    (hfollow : Follow fits (.punct close :: rest)) (hclose : opensExpression (.punct close) = false)
    (hn : ts.length ≤ n) :
    Reads (bracketed close (item n)) (ts.map Token.kind ++ [.punct close]) rest
      fun r => r.1.map view = as.map view := by
  refine (h.reads_commaList hfollow (fun _ => by simp [next]) (beq_of_opens hclose) hn).bind ?_
  intro bs hbs
  refine (reads_expect (.punct close) _ rest).finish ?_
  intro span _
  exact reads_pure (by exact hbs) rest

theorem Separated.next_ne {k : TokenKind} {ls : List TokenKind}
    (h : Separated sep (Item item view fits) trailing ts as) (hk : opensExpression k = false)
    (hls : next ls ≠ k) : next (ts.map Token.kind ++ ls) ≠ k := by
  have hne : ∀ {ts : List Token} {a : α}, Item item view fits ts a → ∀ ls,
      next (ts.map Token.kind ++ ls) ≠ k := by
    rintro ts a ha ls rfl
    rw [ha.next_append] at hk
    cases hk
  cases h with
  | nil => exact hls
  | last ha => exact hne ha ls
  | cons ha hmark hmore =>
    rw [List.map_append, List.append_assoc]
    exact hne ha _

end Commas

end Lists

/-! ### Operators -/

namespace Block

variable {left right : Expr}

/-- A trailer is read behind the tokens of its value, up to its last token. -/
theorem trailer {value longer : Expr} {last : Token} (h : Block 11 ts value)
    (hus : Closed (us ++ [last])) (hnext : next ((us ++ [last]).map Token.kind) ≠ .punct .assign)
    (hsorted : Sorted (ts ++ us ++ [last])) (hspan : longer.span = value.span.cover last.span)
    (hlead : longer.lead? = value.lead?)
    (htrailer : ∀ n, us.length < n → ∀ a rest, value.Like a →
      Reads (Parser.trailer (expressionUpTo n) a) ((us ++ [last]).map Token.kind) rest
        fun o => ∃ b, o = some b ∧ longer.Like b) :
    Block 11 (ts ++ us ++ [last]) longer ∧ Tight (ts ++ us ++ [last]) longer.span := by
  have hclosed : Closed (ts ++ us ++ [last]) := by
    rw [List.append_assoc]
    exact h.closed.append hus
  have htight : Tight (ts ++ us ++ [last]) longer.span := by
    rw [hspan]
    exact h.frame.cover (Token.spans_singleton last).tight.frame hsorted h.closed.balanced
      hclosed.balanced
  have hkinds : (ts ++ us ++ [last]).map Token.kind = ts.map Token.kind ++
      (us ++ [last]).map Token.kind := by
    simp
  have hreaches : ∀ n, (ts ++ us ++ [last]).length ≤ n →
      ReachesAt (expressionUpTo n) 11 ((ts ++ us ++ [last]).map Token.kind) longer := by
    intro n hn
    simp only [List.length_append, List.length_singleton] at hn
    rw [hkinds]
    exact (h.reaches (.inr rfl) n (by omega)).trailer (by simp) (htrailer n (by omega))
  have hstart : next ((ts ++ us ++ [last]).map Token.kind) = next (ts.map Token.kind) := by
    rw [hkinds, next_append h.kinds_ne_nil]
  refine ⟨⟨hclosed, htight.frame, ?_, fun hl => ?_, fun hl => ?_,
    fun n hn => (hreaches n hn).readsAt (.inr rfl), fun _ => hreaches⟩, htight⟩
  · rw [hkinds]
    exact h.starts.append hnext
  · rw [hstart]
    exact h.sign hl
  · rw [hstart, hlead]
    exact h.lead hl

theorem signed (h : Block 11 ts e) : Block 10 ts e :=
  { h with
    sign := by simp
    lead := fun _ => h.lead (by decide)
    reads := fun n hn => (h.reads n hn).signed h.kinds_ne_nil (h.sign (Nat.le_refl 11))
    reaches := fun hloop => absurd hloop (by decide) }

/-- The first operand of a loop. -/
theorem loop (hl : 3 ≤ l ∧ l ≤ 9) (h : Block (l + 1) ts e) : Block l ts e :=
  { h with
    sign := by omega
    lead := fun hle => h.lead (by omega)
    reads := fun n hn => ((h.reads n hn).reachesAt hl).readsAt (.inl hl)
    reaches := fun _ n hn => (h.reads n hn).reachesAt hl }

theorem negation (h : Block 3 ts e) (hnot : next (ts.map Token.kind) ≠ .name "not") :
    Block 2 ts e :=
  { h with
    sign := by simp
    lead := by simp
    reads := fun n hn => (h.reads n hn).negation h.kinds_ne_nil hnot
    reaches := fun hloop => absurd hloop (by decide) }

/-- The only operand of a boolean operator that is not there. -/
theorem logical (op : BoolOp) (h : Block (op.level + 1) ts e) : Block op.level ts e :=
  { h with
    sign := by cases op <;> simp [BoolOp.level]
    lead := by cases op <;> simp [BoolOp.level]
    reads := fun n hn m rest _ hrest => by
      rw [levelUpTo_logical, levelParser_logical]
      exact reads_logical_of_operand ((h.reads n hn).reads (hrest.mono (Nat.le_succ _))) hrest
    reaches := fun hloop => absurd hloop (by cases op <;> decide) }

theorem loosen (hl : l ≤ 10) (h : Block (l + 1) ts e)
    (hnot : l = 2 → next (ts.map Token.kind) ≠ .name "not") : Block l ts e := by
  have hlevels : l = 0 ∨ l = 1 ∨ l = 2 ∨ (3 ≤ l ∧ l ≤ 9) ∨ l = 10 := by omega
  obtain rfl | rfl | rfl | hloop | rfl := hlevels
  · exact h.logical .or
  · exact h.logical .and
  · exact h.negation (hnot rfl)
  · exact h.loop hloop
  · exact h.signed

/-- From a level to a looser one. -/
theorem descend {m : Nat} (h : Block m ts e) (hlm : l ≤ m) (hm : m ≤ 11)
    (hnot : 3 ≤ m → next (ts.map Token.kind) ≠ .name "not") : Block l ts e := by
  induction hlm with
  | refl => exact h
  | @step m _ ih =>
    exact ih (h.loosen (by omega) fun hl => hnot (by omega)) (by omega) fun hl => hnot (by omega)

/-- Two operands with an operator between them. -/
theorem tight_join {m m' : Nat} {ops : List Token} (hleft : Block m ts left) (hops : Closed ops)
    (hright : Block m' us right) (hsorted : Sorted (ts ++ ops ++ us)) :
    Closed (ts ++ ops ++ us) ∧ Tight (ts ++ ops ++ us) (left.span.cover right.span) := by
  have hclosed := (hleft.closed.append hops).append hright.closed
  exact ⟨hclosed, hleft.frame.cover hright.frame hsorted hleft.closed.balanced hclosed.balanced⟩

theorem join {m m' : Nat} {ops : List Token} (hleft : Block m ts left) (hops : Closed ops)
    (hright : Block m' us right) (hsorted : Sorted (ts ++ ops ++ us))
    (hspan : e.span = left.span.cover right.span)
    (hassign : next ((ops ++ us).map Token.kind) ≠ .punct .assign) (hl : l < 11)
    (hlead : 3 ≤ l → 3 ≤ m ∧ e.lead? = left.lead?)
    (hreads : ∀ n, ts.length ≤ n → us.length ≤ n →
      ReadsAt (expressionUpTo n) l (ts.map Token.kind ++ (ops ++ us).map Token.kind) e)
    (hreaches : Loops l → ∀ n, ts.length ≤ n → us.length ≤ n →
      ReachesAt (expressionUpTo n) l (ts.map Token.kind ++ (ops ++ us).map Token.kind) e) :
    Block l (ts ++ ops ++ us) e := by
  obtain ⟨hclosed, htight⟩ := hleft.tight_join hops hright hsorted
  have hkinds : (ts ++ ops ++ us).map Token.kind =
      ts.map Token.kind ++ (ops ++ us).map Token.kind := by simp
  have hlen : ∀ {n}, (ts ++ ops ++ us).length ≤ n → ts.length ≤ n ∧ us.length ≤ n := by
    intro n hn
    simp only [List.length_append] at hn
    omega
  constructor
  case closed => exact hclosed
  case frame =>
    rw [hspan]
    exact htight.frame
  all_goals rw [hkinds]
  case starts => exact hleft.starts.append hassign
  case sign => omega
  case lead =>
    rw [next_append hleft.kinds_ne_nil]
    intro hle
    rw [(hlead hle).2]
    exact hleft.lead (hlead hle).1
  case reads => exact fun n hn => hreads n (hlen hn).1 (hlen hn).2
  case reaches => exact fun hloop n hn => hreaches hloop n (hlen hn).1 (hlen hn).2

theorem level_of_ne_pow {op : BinaryOp} (hop : op ≠ .pow) : 4 ≤ op.level ∧ op.level ≤ 9 := by
  cases op <;> first | exact absurd rfl hop | decide

theorem binary {op : BinaryOp} {mark : Token} (hop : op ≠ .pow) (hleft : Block op.level ts left)
    (hmark : mark.kind = .punct (.binary op)) (hright : Block (op.level + 1) us right)
    (hsorted : Sorted (ts ++ [mark] ++ us)) :
    Block op.level (ts ++ [mark] ++ us) (joinBinary left op right) := by
  have hlevel := level_of_ne_pow hop
  have hloop : Loops op.level := .inl (by omega)
  have hkinds : ([mark] ++ us).map Token.kind = .punct (.binary op) :: us.map Token.kind := by
    simp [hmark]
  have hreaches : ∀ n, ts.length ≤ n → us.length ≤ n → ReachesAt (expressionUpTo n) op.level
      (ts.map Token.kind ++ ([mark] ++ us).map Token.kind) (joinBinary left op right) := by
    intro n hts hus
    rw [hkinds]
    exact (hleft.reaches hloop n hts).binary hop (hright.reads n hus)
  refine hleft.join (Token.closed_singleton hmark rfl) hright hsorted rfl ?_ (by omega)
    (fun hle => ⟨hle, rfl⟩) (fun n hts hus => (hreaches n hts hus).readsAt hloop) fun _ => hreaches
  rw [hkinds]
  nofun

theorem pow {mark : Token} (hleft : Block 11 ts left) (hmark : mark.kind = .punct (.binary .pow))
    (hright : Block 10 us right) (hsorted : Sorted (ts ++ [mark] ++ us)) :
    Block 10 (ts ++ [mark] ++ us) (joinBinary left .pow right) := by
  have hkinds : ([mark] ++ us).map Token.kind = .punct (.binary .pow) :: us.map Token.kind := by
    simp [hmark]
  refine hleft.join (Token.closed_singleton hmark rfl) hright hsorted rfl ?_ (by decide)
    (fun _ => ⟨by decide, rfl⟩) (fun n hts hus => ?_) fun hloop => absurd hloop (by decide)
  · rw [hkinds]
    nofun
  · rw [hkinds]
    exact (hleft.reads n hts).pow hleft.kinds_ne_nil (hleft.sign (Nat.le_refl 11))
      (hright.reads n hus)

theorem binaryOp {op : BinaryOp} {mark : Token} (hleft : Block op.leftLevel ts left)
    (hmark : mark.kind = .punct (.binary op)) (hright : Block op.rightLevel us right)
    (hsorted : Sorted (ts ++ [mark] ++ us)) :
    Block op.level (ts ++ [mark] ++ us) (joinBinary left op right) := by
  cases op
  case pow => exact hleft.pow hmark hright hsorted
  all_goals exact binary nofun hleft hmark hright hsorted

theorem closed_compareOp {op : CompareOp} {ops : List Token}
    (h : ops.map Token.kind = Piece.kindsOf op.pieces) : Closed ops := by
  have hplain : (ops.map Token.kind).all (fun k => !k.isMark) = true := by
    rw [h]
    cases op <;> rfl
  refine ⟨by simpa using hplain, ?_⟩
  rw [h]
  cases op <;> rfl

theorem compare {op : CompareOp} {ops : List Token} (hleft : Block 3 ts left)
    (hops : ops.map Token.kind = Piece.kindsOf op.pieces) (hright : Block 4 us right)
    (hsorted : Sorted (ts ++ ops ++ us)) :
    Block 3 (ts ++ ops ++ us) (joinCompare left op right) := by
  have hloop : Loops 3 := by decide
  have hreaches : ∀ n, ts.length ≤ n → us.length ≤ n → ReachesAt (expressionUpTo n) 3
      (ts.map Token.kind ++ (ops ++ us).map Token.kind) (joinCompare left op right) := by
    intro n hts hus
    rw [List.map_append, hops]
    exact (hleft.reaches hloop n hts).compare op (hright.reads n hus)
  refine hleft.join (closed_compareOp hops) hright hsorted rfl ?_ (by decide)
    (fun hle => ⟨hle, rfl⟩) (fun n hts hus => (hreaches n hts hus).readsAt hloop) fun _ => hreaches
  rw [List.map_append, hops]
  cases op <;> exact nofun

/-- An operator before its operand. -/
theorem unary {op : UnaryOp} {k : TokenKind} {mark : Token} (h : Block l ts e)
    (hmark : mark.kind = k) (hk : (k.isMark || k.closes || Layout.depthAfter 0 k != 0) = false)
    (hopens : opensExpression k = true)
    (hsorted : Sorted (mark :: ts)) (hl : l = 10 ∧ k ≠ .name "not" ∨ l = 2)
    (hreads : ∀ n, ts.length ≤ n → ReadsAt (expressionUpTo n) l (k :: ts.map Token.kind)
      (.unary (mark.span.cover e.span) op e)) :
    Block l (mark :: ts) (.unary (mark.span.cover e.span) op e) ∧
      Tight (mark :: ts) (mark.span.cover e.span) := by
  have hclosed : Closed (mark :: ts) := h.closed.cons hmark hk
  have hsorted' : Sorted ([mark] ++ [] ++ ts) := hsorted
  have htight : Tight (mark :: ts) (mark.span.cover e.span) :=
    (Token.spans_singleton mark).tight.frame.cover h.frame hsorted'
      (Token.closed_singleton hmark hk).balanced hclosed.balanced
  have hkinds : (mark :: ts).map Token.kind = k :: ts.map Token.kind := by rw [List.map_cons, hmark]
  refine ⟨⟨hclosed, htight.frame, ?_, ?_, ?_, ?_, ?_⟩, htight⟩
  · rw [hkinds]
    exact ⟨hopens, h.starts.next_ne_assign, nofun, nofun⟩
  · omega
  · rw [hkinds]
    rintro hle rfl
    rcases hl with ⟨-, hne⟩ | rfl
    · exact absurd rfl hne
    · omega
  · intro n hn
    rw [hkinds]
    exact hreads n (by rw [List.length_cons] at hn; omega)
  · intro hloop
    rcases hl with ⟨rfl, -⟩ | rfl
    · exact absurd hloop (by decide)
    · exact absurd hloop (by decide)

theorem unaryOp {op : UnaryOp} {mark : Token} (hmark : Piece.kindsOf op.pieces = [mark.kind])
    (h : Block op.level ts e) (hsorted : Sorted (mark :: ts)) :
    Block op.level (mark :: ts) (.unary (mark.span.cover e.span) op e) ∧
      Tight (mark :: ts) (mark.span.cover e.span) := by
  obtain ⟨kind, a⟩ := mark
  cases op <;> cases hmark
  case not => exact h.unary rfl rfl rfl hsorted (.inr rfl) fun n hn => (h.reads n hn).not
  all_goals exact h.unary rfl rfl rfl hsorted (.inl ⟨rfl, nofun⟩) fun n hn =>
    (h.reads n hn).sign rfl

end Block

/-! ### Rows of operands -/

section Rows

variable {α : Type} {sep : TokenKind} {P : List Token → α → Prop} {trailing : Bool} {as : List α}

/-- A separator behind the last item can be left out. -/
theorem Separated.core (h : Separated sep P trailing ts as) (hne : as ≠ []) :
    ∃ us more, ts = us ++ more ∧ Separated sep P false us as := by
  induction h with
  | nil => exact absurd rfl hne
  | last ha => exact ⟨_, [], by simp, .last ha⟩
  | @cons ts us mark trailing a as ha hmark hmore ih =>
    by_cases has : as = []
    · subst has
      exact ⟨ts, mark :: us, rfl, .last ha⟩
    · obtain ⟨vs, more, rfl, hcore⟩ := ih has
      exact ⟨ts ++ mark :: vs, more, by simp, .cons ha hmark hcore⟩

theorem Separated.exists_last (h : Separated sep P trailing ts as) (htrailing : trailing = false) :
    ∃ front us a, ts = front ++ us ∧ as.getLast? = some a ∧ P us a := by
  induction h with
  | nil => cases htrailing
  | @last ts a ha => exact ⟨[], ts, a, rfl, rfl, ha⟩
  | @cons ts us mark trailing a as ha hmark hmore ih =>
    obtain ⟨front, vs, b, rfl, hlast, hb⟩ := ih htrailing
    refine ⟨ts ++ mark :: front, vs, b, by simp, ?_, hb⟩
    rw [List.getLast?_cons, hlast]
    rfl

theorem Separated.reads_logicalRest {op : BoolOp} {values : List Expr}
    (h : Separated (.name op.text) (Block (op.level + 1)) trailing ts values)
    (htrailing : trailing = false) {rest : List TokenKind} (hrest : EndsAt op.level rest)
    {fuel : Nat} (hfuel : ts.length < fuel) (hn : ts.length ≤ n) :
    Reads (logicalRest op (levelParser (expressionUpTo n) (op.level + 1)) fuel)
      (.name op.text :: ts.map Token.kind) rest fun as =>
        as.map Expr.unplaced = values.map Expr.unplaced := by
  induction h generalizing fuel with
  | nil => cases htrailing
  | @last ts a ha =>
    obtain ⟨m, rfl⟩ : ∃ m, fuel = m + 1 := ⟨fuel - 1, by omega⟩
    refine (reads_accept (.name op.text) _).cons ?_
    rintro _ ⟨place, rfl⟩
    refine ((ha.reads n hn).reads (hrest.mono (Nat.le_succ _))).finish ?_
    intro b hb
    refine (reads_logicalRest_nil hrest _ m).finish ?_
    rintro _ rfl
    exact reads_pure (by simp [show b.unplaced = a.unplaced from hb]) rest
  | @cons ts us mark trailing a as ha hmark hmore ih =>
    simp only [List.length_append, List.length_cons] at hn hfuel
    obtain ⟨m, rfl⟩ : ∃ m, fuel = m + 1 := ⟨fuel - 1, by omega⟩
    rw [List.map_append, List.map_cons, hmark]
    refine (reads_accept (.name op.text) _).cons ?_
    rintro _ ⟨place, rfl⟩
    refine ((ha.reads n (by omega)).reads (endsAt_boolOp op _)).bind ?_
    intro b hb
    have hpos := List.length_pos_iff.2 ha.ne_nil
    refine (ih htrailing (by omega) (by omega)).finish ?_
    intro bs hbs
    exact reads_pure (by simp [show b.unplaced = a.unplaced from hb, hbs]) rest

theorem closed_of_separated {m : Nat} {values : List Expr}
    (h : Separated sep (Block m) trailing ts values)
    (hsep : (sep.isMark || sep.closes || Layout.depthAfter 0 sep != 0) = false) : Closed ts :=
  h.closed (fun _ _ ha => ha.closed) hsep

/-- Operands in a row, from the first to the last. -/
theorem Separated.tight {m : Nat} {first : Expr} {mark : Token} {values : List Expr}
    (hfirst : Block m ts first) (hmark : mark.kind = sep)
    (h : Separated sep (Block m) false us values)
    (hsep : (sep.isMark || sep.closes || Layout.depthAfter 0 sep != 0) = false)
    (hsorted : Sorted (ts ++ mark :: us)) :
    Tight (ts ++ mark :: us) (first.span.cover (values.getLastD first).span) := by
  have hclosed : Closed (ts ++ mark :: us) :=
    hfirst.closed.append ((closed_of_separated h hsep).cons hmark hsep)
  obtain ⟨front, vs, last, rfl, hlast, hb⟩ := h.exists_last rfl
  have hsplit : ts ++ mark :: (front ++ vs) = ts ++ (mark :: front) ++ vs := by simp
  rw [hsplit] at hsorted hclosed
  rw [List.getLastD_eq_getLast?, hlast, hsplit]
  exact hfirst.frame.cover hb.frame hsorted hfirst.closed.balanced hclosed.balanced

theorem Block.operands {op : BoolOp} {first : Expr} {mark : Token} {values : List Expr}
    (hfirst : Block (op.level + 1) ts first) (hmark : mark.kind = .name op.text)
    (h : Separated (.name op.text) (Block (op.level + 1)) false us values)
    (hsorted : Sorted (ts ++ mark :: us)) :
    Block op.level (ts ++ mark :: us)
      (.logical (first.span.cover (values.getLastD first).span) op (first :: values)) := by
  have htight := Separated.tight hfirst hmark h rfl hsorted
  have hkinds : (ts ++ mark :: us).map Token.kind =
      ts.map Token.kind ++ (.name op.text :: us.map Token.kind) := by simp [hmark]
  obtain ⟨second, values, rfl⟩ : ∃ second more, values = second :: more := by
    cases h with
    | last ha => exact ⟨_, _, rfl⟩
    | cons ha hmark hmore => exact ⟨_, _, rfl⟩
  refine ⟨hfirst.closed.append ((closed_of_separated h rfl).cons hmark rfl),
    htight.frame, ?_, ?_, ?_, ?_, ?_⟩
  · rw [hkinds]
    exact hfirst.starts.append nofun
  · cases op <;> simp [BoolOp.level]
  · cases op <;> simp [BoolOp.level]
  · intro n hn
    simp only [List.length_append, List.length_cons] at hn
    rw [hkinds]
    refine (hfirst.reads n (by omega)).logical fun m rest hm hrest => ?_
    rw [List.length_map] at hm
    exact h.reads_logicalRest rfl hrest hm (by omega)
  · exact fun hloop => absurd hloop (by cases op <;> decide)

end Rows

/-! ### Brackets -/

namespace Block

variable {trailing : Bool} {opening closing mark : Token} {p q : Punct} {key value first : Expr}

/-- An element of a list. -/
theorem item (h : Block 0 ts e) :
    Item (fun n => expressionUpTo (n + 1)) Expr.unplaced (EndsAt 0) ts e :=
  ⟨h.closed, h.starts.opens, fun _ hn rest hrest => h.readsInside hn rest hrest⟩

theorem entry (hkey : Block 0 ts key) (hmark : mark.kind = .punct .colon)
    (hvalue : Block 0 us value) :
    Item (fun n => Parser.entry (expressionUpTo (n + 1))) Entry.unplaced (EndsAt 0)
      (ts ++ mark :: us) (.mk key value) := by
  have hkinds : (ts ++ mark :: us).map Token.kind =
      ts.map Token.kind ++ (.punct .colon :: us.map Token.kind) := by simp [hmark]
  refine ⟨hkey.closed.append (hvalue.closed.cons hmark rfl), ?_, fun n hn rest hrest => ?_⟩
  · rw [hkinds, next_append hkey.kinds_ne_nil]
    exact hkey.starts.opens
  · simp only [List.length_append, List.length_cons] at hn
    rw [hkinds]
    exact reads_entry (hkey.readsInside (by omega)) (hvalue.readsInside (by omega)) hrest

theorem positional (h : Block 0 ts e) :
    Item (fun n => argument (expressionUpTo (n + 1))) argumentView EndsArgument ts (.inl e) :=
  ⟨h.closed, h.starts.opens, fun _ hn _ hrest =>
    reads_argument_positional h.starts (h.readsInside hn) hrest⟩

theorem keyword {word : Token} {name : String} {span : Span} (hword : word.kind = .name name)
    (hmark : mark.kind = .punct .assign) (h : Block 0 ts value) :
    Item (fun n => argument (expressionUpTo (n + 1))) argumentView EndsArgument (word :: mark :: ts)
      (.inr (.mk span name value)) := by
  have hkinds : (word :: mark :: ts).map Token.kind =
      .name name :: .punct .assign :: ts.map Token.kind := by simp [hword, hmark]
  refine ⟨(h.closed.cons hmark rfl).cons hword rfl, by rw [hkinds]; rfl, fun n hn rest hrest => ?_⟩
  simp only [List.length_cons] at hn
  rw [hkinds]
  exact reads_argument_keyword name (h.readsInside (by omega)) hrest

/-- A node that goes from a bracket to the bracket that closes it. -/
theorem enclosed (hbrackets : Piece.Brackets p q) (hopening : opening.kind = .punct p)
    (hclosing : closing.kind = .punct q) (hts : Closed ts)
    (hsorted : Sorted (opening :: (ts ++ [closing])))
    (hspan : e.span = opening.span.cover closing.span)
    (hsecond : next (ts.map Token.kind ++ [.punct q]) ≠ .punct .assign)
    (hreads : ∀ n, ts.length ≤ n → ∀ rest, Reads (atom (expressionUpTo (n + 1)))
      (.punct p :: (ts.map Token.kind ++ [.punct q])) rest e.Like) :
    Block 11 (opening :: (ts ++ [closing])) e := by
  have hkinds : (ts ++ [closing]).map Token.kind = ts.map Token.kind ++
      [.punct q] := by simp [hclosing]
  refine of_brackets (by cases hbrackets <;> decide) hopening ?_
    (hts.enclose hbrackets hopening hclosing) ?_ fun n hn rest => ?_
  · rw [hkinds]
    exact hsecond
  · rw [hspan]
    exact (Token.tight_brackets hsorted).frame
  · rw [List.length_append] at hn
    rw [hkinds]
    exact hreads n (by omega) rest

theorem unit (hopening : opening.kind = .punct .openParen)
    (hclosing : closing.kind = .punct .closeParen) (hsorted : Sorted [opening, closing]) :
    Block 11 [opening, closing] (.tuple (opening.span.cover closing.span) []) := by
  change Block 11 (opening :: ([] ++ [closing])) _
  exact enclosed .round hopening hclosing Token.closed_nil hsorted rfl nofun
    fun _ _ rest => reads_atom_unit rest

theorem list {es : List Expr} (hopening : opening.kind = .punct .openBracket)
    (h : Separated (.punct .comma) (Block 0) trailing ts es)
    (hclosing : closing.kind = .punct .closeBracket)
    (hsorted : Sorted (opening :: (ts ++ [closing]))) :
    Block 11 (opening :: (ts ++ [closing])) (.list (opening.span.cover closing.span) es) := by
  have hitems := h.mono fun _ _ => item
  refine enclosed .square hopening hclosing (hitems.closed (fun _ _ ha => ha.closed) rfl)
    hsorted rfl (hitems.next_ne rfl nofun) fun n hn rest => ?_
  have hfollow : Follow (EndsAt 0) (.punct .closeBracket :: rest) :=
    follow_of_operatorLevel rfl (next_cons_ne (by decide) _)
  exact reads_atom_list_of_bracketed (hitems.reads_bracketed hfollow rfl hn)

theorem dict {entries : List Entry} (hopening : opening.kind = .punct .openBrace)
    (h : Separated (.punct .comma)
      (Item (fun n => Parser.entry (expressionUpTo (n + 1))) Entry.unplaced (EndsAt 0)) trailing
      ts entries)
    (hclosing : closing.kind = .punct .closeBrace)
    (hsorted : Sorted (opening :: (ts ++ [closing]))) :
    Block 11 (opening :: (ts ++ [closing])) (.dict (opening.span.cover closing.span) entries) := by
  refine enclosed .curly hopening hclosing (h.closed (fun _ _ ha => ha.closed) rfl) hsorted rfl
    (h.next_ne rfl nofun) fun n hn rest => ?_
  have hfollow : Follow (EndsAt 0) (.punct .closeBrace :: rest) :=
    follow_of_operatorLevel rfl (next_cons_ne (by decide) _)
  exact reads_atom_dict_of_bracketed (h.reads_bracketed hfollow rfl hn)

/-- The elements of a tuple are read in parentheses, with or without a comma behind the last. -/
theorem reads_tuple {more : List Expr} {span : Span} (hfirst : Block 0 ts first)
    (hmark : mark.kind = .punct .comma) (h : Separated (.punct .comma) (Block 0) trailing us more)
    (hn : (ts ++ mark :: us).length ≤ n) (rest : List TokenKind) :
    Reads (atom (expressionUpTo (n + 1)))
      (.punct .openParen :: ((ts ++ mark :: us).map Token.kind ++ [.punct .closeParen])) rest
      (Expr.tuple span (first :: more)).Like := by
  have hkinds : (ts ++ mark :: us).map Token.kind ++ [.punct .closeParen] =
      ts.map Token.kind ++ (.punct .comma :: (us.map Token.kind ++ [.punct .closeParen])) := by
    simp [hmark]
  simp only [List.length_append, List.length_cons] at hn
  rw [hkinds]
  refine reads_atom_tuple_of_commaList hfirst.starts (hfirst.readsInside (by omega)) ?_
  exact (h.mono fun _ _ => item).reads_commaList
    (follow_of_operatorLevel rfl (next_cons_ne (by decide) _))
    (fun _ => by simp [next]) (beq_of_opens rfl) (by omega)

theorem tuple {more : List Expr} (hopening : opening.kind = .punct .openParen)
    (hfirst : Block 0 ts first) (hmark : mark.kind = .punct .comma)
    (h : Separated (.punct .comma) (Block 0) trailing us more)
    (hclosing : closing.kind = .punct .closeParen)
    (hsorted : Sorted (opening :: (ts ++ mark :: us ++ [closing]))) :
    Block 11 (opening :: (ts ++ mark :: us ++ [closing]))
      (.tuple (opening.span.cover closing.span) (first :: more)) := by
  refine enclosed .round hopening hclosing
    (hfirst.closed.append ((closed_of_separated h rfl).cons hmark rfl)) hsorted rfl ?_
    fun n hn rest => hfirst.reads_tuple hmark h hn rest
  rw [List.map_append, List.append_assoc, next_append hfirst.kinds_ne_nil]
  exact hfirst.starts.next_ne_assign

/-- A tuple without brackets around it goes from its first element to its last. A comma behind the
last is not part of it, so a tuple of one element has no text that says it is one. -/
theorem restored_bare {more : List Expr} (hfirst : Block 0 ts first)
    (hmark : mark.kind = .punct .comma) (h : Separated (.punct .comma) (Block 0) trailing us more)
    (hsorted : Sorted (ts ++ mark :: us)) (hwithin : ts ++ mark :: us <:+: tokens) :
    Restored tokens (.expr (.tuple (first.span.cover (more.getLastD first).span)
      (first :: more))) := by
  by_cases hmore : more = []
  · subst hmore
    have hts : ts <:+: ts ++ mark :: us := (List.prefix_append ts _).isInfix
    have hspan := Span.cover_self first.span
    have hplain := hfirst.closed.plain
    obtain ⟨left, own, right, rfl, hframed⟩ := hfirst.frame
    have hown : own <:+: left ++ own ++ right := List.infix_append left own right
    refine ⟨own, hown.trans (hts.trans hwithin), ?_, fun t ht => hplain t (hown.subset ht),
      fun _ he => ?_⟩
    · exact hspan.symm ▸ hframed.spans
    · exact absurd hspan ((he.tuple _ _ rfl).2 first rfl)
  · obtain ⟨vs, rest, rfl, hcore⟩ := h.core hmore
    have hsub : ts ++ mark :: vs <:+: ts ++ mark :: (vs ++ rest) :=
      (by simp : ts ++ mark :: vs <+: ts ++ mark :: (vs ++ rest)).isInfix
    have hclosed : Closed (ts ++ mark :: vs) :=
      hfirst.closed.append ((closed_of_separated hcore rfl).cons hmark rfl)
    have htight := Separated.tight hfirst hmark hcore rfl (hsorted.of_infix hsub)
    obtain ⟨left, own, right, hframe, hframed, hbare⟩ := htight
    have hown : own <:+: ts ++ mark :: vs := hframe ▸ List.infix_append left own right
    refine ⟨own, hown.trans (hsub.trans hwithin), hframed.spans,
      fun t ht => hclosed.plain t (hown.subset ht), fun _ he => ?_⟩
    obtain ⟨heq, hle⟩ := hbare 0 (he.tuple _ _ rfl).1
    obtain rfl : left = [] := List.eq_nil_of_length_eq_zero (by omega)
    obtain rfl : right = [] := List.eq_nil_of_length_eq_zero heq.symm
    obtain rfl : ts ++ mark :: vs = own := by simpa using hframe
    refine fun n hn => readsAt_enclosedRow ?_
      (fun n hn rest => hfirst.reads_tuple hmark hcore hn rest) hn
    rw [List.map_append, List.append_assoc, next_append hfirst.kinds_ne_nil]
    exact hfirst.starts.next_ne_assign

/-! ### Trailers -/

theorem member {dot name : Token} {attr : String} (h : Block 11 ts value)
    (hdot : dot.kind = .punct .dot) (hname : name.kind = .name attr)
    (hsorted : Sorted (ts ++ [dot] ++ [name])) :
    Block 11 (ts ++ [dot] ++ [name]) (.member (value.span.cover name.span) value attr) ∧
      Tight (ts ++ [dot] ++ [name]) (value.span.cover name.span) := by
  have hkinds : ([dot] ++ [name]).map Token.kind =
      [.punct .dot, .name attr] := by simp [hdot, hname]
  refine h.trailer ((Token.closed_singleton hname rfl).cons hdot rfl) ?_ hsorted rfl rfl
    fun n _ a rest ha => ?_
  · rw [hkinds]
    nofun
  · rw [hkinds]
    exact reads_trailer_member ha attr rest

theorem call {arguments : List (Expr ⊕ Keyword)} (h : Block 11 ts value)
    (hopening : opening.kind = .punct .openParen)
    (harguments : Separated (.punct .comma)
      (Item (fun n => argument (expressionUpTo (n + 1))) argumentView EndsArgument) trailing us
      arguments)
    (hclosing : closing.kind = .punct .closeParen)
    (hsorted : Sorted (ts ++ opening :: us ++ [closing])) :
    Block 11 (ts ++ opening :: us ++ [closing]) (.call (value.span.cover closing.span) value
        (arguments.filterMap Sum.getLeft?) (arguments.filterMap Sum.getRight?)) ∧
      Tight (ts ++ opening :: us ++ [closing]) (value.span.cover closing.span) := by
  have hkinds : (opening :: us ++ [closing]).map Token.kind =
      .punct .openParen :: (us.map Token.kind ++
        [.punct .closeParen]) := by simp [hopening, hclosing]
  have hclosed := harguments.closed (fun _ _ ha => ha.closed) rfl
  refine h.trailer (hclosed.enclose .round hopening hclosing) ?_ hsorted rfl rfl
    fun n hn a rest ha => ?_
  · rw [hkinds]
    nofun
  · rw [List.length_cons] at hn
    obtain ⟨m, rfl⟩ : ∃ m, n = m + 1 := ⟨n - 1, by omega⟩
    have hfollow : Follow EndsArgument (.punct .closeParen :: rest) :=
      ⟨fun _ => endsArgument_punct rfl nofun, endsArgument_punct rfl nofun, nofun⟩
    rw [hkinds]
    exact reads_trailer_call_of_bracketed ha (harguments.reads_bracketed hfollow rfl (by omega))

/-- Tokens that were read between the brackets of a subscript. -/
structure Slice (ts : List Token) (e : Expr) : Prop where
  closed : Closed ts
  reads : ∀ n, ts.length ≤ n → ∀ rest,
    Reads (expressionList (expressionUpTo (n + 1))) (ts.map Token.kind)
    (.punct .closeBracket :: rest) e.Like

theorem slice (h : Block 0 ts e) : Slice ts e :=
  ⟨h.closed, fun _ hn _ => reads_expressionList_one (h.readsInside hn) rfl nofun⟩

theorem slice_tuple {more : List Expr} {span : Span} (hfirst : Block 0 ts first)
    (hmark : mark.kind = .punct .comma) (h : Separated (.punct .comma) (Block 0) false us more) :
    Slice (ts ++ mark :: us) (.tuple span (first :: more)) := by
  refine ⟨hfirst.closed.append ((closed_of_separated h rfl).cons hmark rfl), fun n hn rest => ?_⟩
  simp only [List.length_append, List.length_cons] at hn
  rw [List.map_append, List.map_cons, hmark]
  refine reads_expressionList_of_commaList (hfirst.readsInside (by omega)) ?_
  exact (h.mono fun _ _ => item).reads_commaList (follow_of_operatorLevel rfl nofun) nofun
    (fun _ hk => endsLine_of_opens hk) (by omega)

theorem subscript {inside : Expr} (h : Block 11 ts value)
    (hopening : opening.kind = .punct .openBracket) (hslice : Slice us inside)
    (hclosing : closing.kind = .punct .closeBracket)
    (hsorted : Sorted (ts ++ opening :: us ++ [closing])) :
    Block 11 (ts ++ opening :: us ++ [closing])
        (.subscript (value.span.cover closing.span) value inside) ∧
      Tight (ts ++ opening :: us ++ [closing]) (value.span.cover closing.span) := by
  have hkinds : (opening :: us ++ [closing]).map Token.kind =
      .punct .openBracket ::
        (us.map Token.kind ++ [.punct .closeBracket]) := by simp [hopening, hclosing]
  refine h.trailer (hslice.closed.enclose .square hopening hclosing) ?_ hsorted rfl rfl
    fun n hn a rest ha => ?_
  · rw [hkinds]
    nofun
  · rw [List.length_cons] at hn
    obtain ⟨m, rfl⟩ : ∃ m, n = m + 1 := ⟨n - 1, by omega⟩
    rw [hkinds]
    exact reads_trailer_subscript ha (hslice.reads m (by omega)) rest

end Block

end Parser

end Vyper
