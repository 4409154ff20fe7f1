import Vyper.Proofs.Placement.Source

/-!
# Brackets and the text of a node

Parentheses that only group belong to no node, so the tokens between the ends of a node need not be
all that was read for it: of `(1 + 2) * 3` the node begins behind the first parenthesis. What was
read is the node's own tokens with parentheses around them (`Token.Frame`). If the brackets of the
own tokens are balanced, nothing is around them, and if a pair of parentheses makes them balanced,
at most such a pair is (`Token.Tight`).
-/

namespace Vyper

namespace TokenKind

/-- Whether the token closes a bracket. -/
def closes : TokenKind → Bool
  | .punct .closeParen | .punct .closeBracket | .punct .closeBrace => true
  | _ => false

/-- How many brackets are open behind a row of tokens, if it closes none that was not open. -/
def openAfter (depth : Nat) : List TokenKind → Option Nat
  | [] => some depth
  | k :: ks => if k.closes && depth == 0 then none else openAfter (Layout.depthAfter depth k) ks

/-- Every bracket is closed behind its opening, and no other is closed. -/
def Balanced (ks : List TokenKind) : Prop := openAfter 0 ks = some 0

instance (ks : List TokenKind) : Decidable (Balanced ks) := inferInstanceAs (Decidable (_ = _))

variable {k : TokenKind} {ks ls : List TokenKind} {d e : Nat}

theorem openAfter_append (d : Nat) (ks ls : List TokenKind) :
    openAfter d (ks ++ ls) = (openAfter d ks).bind fun e => openAfter e ls := by
  induction ks generalizing d with
  | nil => rfl
  | cons k ks ih =>
    rw [List.cons_append, openAfter, openAfter]
    split
    · rfl
    · exact ih _

theorem depthAfter_add (h : ¬ (k.closes && d == 0) = true) (c : Nat) :
    Layout.depthAfter (d + c) k = Layout.depthAfter d k + c := by
  unfold Layout.depthAfter
  unfold closes at h
  split <;> simp at h ⊢ <;> omega

/-- Brackets that are open all along change nothing. -/
theorem openAfter_add (h : openAfter d ks = some e) (c : Nat) :
    openAfter (d + c) ks = some (e + c) := by
  induction ks generalizing d with
  | nil =>
    cases h
    rfl
  | cons k ks ih =>
    rw [openAfter] at h ⊢
    split at h
    · cases h
    · next hk =>
      rw [depthAfter_add hk, if_neg, ih h]
      intro hzero
      simp only [Bool.and_eq_true, beq_iff_eq] at hk hzero
      exact hk ⟨hzero.1, by omega⟩

theorem Balanced.openAfter_eq (h : Balanced ks) (d : Nat) : openAfter d ks = some d := by
  have hadd := openAfter_add h d
  rwa [Nat.zero_add] at hadd

theorem balanced_nil : Balanced [] := rfl

theorem Balanced.append (hks : Balanced ks) (hls : Balanced ls) : Balanced (ks ++ ls) := by
  rw [Balanced, openAfter_append, hks]
  exact hls

/-- A token that is no bracket. -/
theorem balanced_singleton (h : Layout.depthAfter 0 k = 0) (hk : k.closes = false) :
    Balanced [k] := by
  rw [Balanced, openAfter, hk, h]
  rfl

theorem Balanced.enclose {opening closing : Punct} (h : Piece.Brackets opening closing)
    (hks : Balanced ks) : Balanced (.punct opening :: (ks ++ [.punct closing])) := by
  have hopen : openAfter 0 (.punct opening :: (ks ++ [.punct closing])) =
      openAfter 1 (ks ++ [.punct closing]) := by
    cases h <;> rfl
  rw [Balanced, hopen, openAfter_append, hks.openAfter_eq]
  cases h <;> rfl

/-- Parentheses that are opened are open. -/
theorem openAfter_opens (h : ∀ k ∈ ks, k = .punct .openParen) (d : Nat) :
    openAfter d ks = some (d + ks.length) := by
  induction ks generalizing d with
  | nil => rfl
  | cons k ks ih =>
    obtain ⟨rfl, hks⟩ := List.forall_mem_cons.mp h
    rw [openAfter, if_neg (by simp [closes]), ih hks, List.length_cons]
    simp only [Layout.depthAfter]
    congr 1
    omega

/-- As many parentheses are closed as there are to close. -/
theorem eq_of_openAfter_closes (h : ∀ k ∈ ks, k = .punct .closeParen)
    (hd : openAfter d ks = some e) : d = e + ks.length := by
  induction ks generalizing d with
  | nil => exact Option.some.inj hd
  | cons k ks ih =>
    obtain ⟨rfl, hks⟩ := List.forall_mem_cons.mp h
    rw [openAfter] at hd
    split at hd
    · cases hd
    · next hpos =>
      have hrest : openAfter (d - 1) ks = some e := hd
      have heq := ih hks hrest
      have hne : d ≠ 0 := by
        rintro rfl
        exact hpos rfl
      rw [List.length_cons]
      omega

/-- Parentheses before a closed beginning of a row: there are no more than were open before the row.
-/
theorem length_le_of_openAfter {left : List TokenKind} (hleft : ∀ k ∈ left, k = .punct .openParen)
    (hks : Balanced (left ++ ks)) (hall : openAfter d (ks ++ ls) = some e) : left.length ≤ d := by
  rw [Balanced, openAfter_append, openAfter_opens hleft, Nat.zero_add] at hks
  change openAfter left.length ks = some 0 at hks
  rw [openAfter_append] at hall
  obtain ⟨f, hf, -⟩ := Option.bind_eq_some_iff.mp hall
  by_contra hlt
  have hadd := openAfter_add hf (left.length - d)
  rw [show d + (left.length - d) = left.length by omega, hks] at hadd
  have hzero : 0 = f + (left.length - d) := Option.some.inj hadd
  omega

end TokenKind

namespace Token

open TokenKind (Balanced)

/-- Tokens that stand one behind the other. -/
structure Sorted (ts : List Token) : Prop where
  apart : ts.Pairwise fun a b => a.span.stop ≤ b.span.start
  start_le : ∀ t ∈ ts, t.span.start ≤ t.span.stop

/-- The ends of a row of tokens are the ends of a span. -/
structure Spans (ts : List Token) (span : Span) : Prop where
  start : ts.head?.map (·.span.start) = some span.start
  stop : ts.getLast?.map (·.span.stop) = some span.stop

/-- Tokens of a node, with the parentheses that group around them. -/
structure Framed (left own right : List Token) (span : Span) : Prop where
  left : ∀ t ∈ left, t.kind = .punct .openParen
  right : ∀ t ∈ right, t.kind = .punct .closeParen
  spans : Spans own span

/-- Tokens that were read for a node. -/
def Frame (ts : List Token) (span : Span) : Prop :=
  ∃ left own right, ts = left ++ own ++ right ∧ Framed left own right span

/-- Tokens that were read for a node that is no group. With some parentheses open before its own
tokens, and as many behind them, there are no more around them. -/
def Tight (ts : List Token) (span : Span) : Prop :=
  ∃ left own right, ts = left ++ own ++ right ∧ Framed left own right span ∧
    ∀ d, TokenKind.openAfter d (own.map Token.kind) = some d →
      left.length = right.length ∧ left.length ≤ d

variable {ts us mid : List Token} {span span' : Span}

theorem Sorted.of_infix (h : Sorted ts) (hus : us <:+: ts) : Sorted us :=
  ⟨h.apart.sublist hus.sublist, fun t ht => h.start_le t (hus.subset ht)⟩

theorem Row.sorted {P : Token → Prop} {eof lo : Pos} (h : Row P eof lo ts) : Sorted ts := by
  refine ⟨h.apart.1, ?_⟩
  induction ts generalizing lo with
  | nil => nofun
  | cons t ts ih =>
    obtain ⟨-, hle, -, hrest⟩ := h
    exact List.forall_mem_cons.mpr ⟨hle, ih hrest⟩

theorem Spans.ne_nil (h : Spans ts span) : ts ≠ [] := by
  rintro rfl
  cases h.start

theorem spans_singleton (t : Token) : Spans [t] t.span := ⟨rfl, rfl⟩

theorem Spans.append (h : Spans ts span) (mid : List Token) (h' : Spans us span') :
    Spans (ts ++ mid ++ us) ⟨span.start, span'.stop⟩ := by
  obtain ⟨hstart, -⟩ := h
  obtain ⟨-, hstop⟩ := h'
  constructor
  · obtain ⟨t, ht, heq⟩ := Option.map_eq_some_iff.mp hstart
    rw [List.append_assoc, List.head?_append, ht]
    exact congrArg some heq
  · obtain ⟨t, ht, heq⟩ := Option.map_eq_some_iff.mp hstop
    rw [List.getLast?_append, ht]
    exact congrArg some heq

theorem Tight.frame (h : Tight ts span) : Frame ts span := by
  obtain ⟨left, own, right, hts, hframed, -⟩ := h
  exact ⟨left, own, right, hts, hframed⟩

/-- Tokens with nothing around them. -/
theorem Spans.tight (h : Spans ts span) : Tight ts span :=
  ⟨[], ts, [], by simp, ⟨nofun, nofun, h⟩, fun d _ => ⟨rfl, Nat.zero_le d⟩⟩

theorem Frame.group {opening closing : Token} (h : Frame ts span)
    (hopening : opening.kind = .punct .openParen) (hclosing : closing.kind = .punct .closeParen) :
    Frame (opening :: (ts ++ [closing])) span := by
  obtain ⟨left, own, right, rfl, hleft, hright, hspans⟩ := h
  refine ⟨opening :: left, own, right ++ [closing], by simp, ?_, ?_, hspans⟩
  · exact List.forall_mem_cons.mpr ⟨hopening, hleft⟩
  · exact List.forall_mem_append.mpr ⟨hright, List.forall_mem_singleton.mpr hclosing⟩

/-- From the first of two nodes to the second: what is around the first is open until behind it. -/
theorem Frame.join (h : Frame ts span) (h' : Frame us span') (hts : Balanced (ts.map Token.kind))
    (hall : Balanced ((ts ++ mid ++ us).map Token.kind)) :
    Tight (ts ++ mid ++ us) ⟨span.start, span'.stop⟩ := by
  obtain ⟨left, own, right, rfl, hleft, hright, hspans⟩ := h
  obtain ⟨left', own', right', rfl, hleft', hright', hspans'⟩ := h'
  have hown := hspans.append (right ++ mid ++ left') hspans'
  refine ⟨left, own ++ (right ++ mid ++ left') ++ own', right', by simp, ⟨hleft, hright', hown⟩,
    fun d hd => ?_⟩
  have hopens : ∀ k ∈ left.map Token.kind, k = .punct .openParen := by simpa using hleft
  have hcloses : ∀ k ∈ right'.map Token.kind, k = .punct .closeParen := by simpa using hright'
  have hle : left.length ≤ d := by
    have hclosed :
        Balanced (left.map Token.kind ++ (own ++ right).map Token.kind) := by simpa using hts
    have hrow : TokenKind.openAfter d
        ((own ++ right).map Token.kind ++ (mid ++ left' ++ own').map Token.kind) = some d := by
      simpa using hd
    simpa using TokenKind.length_le_of_openAfter hopens hclosed hrow
  refine ⟨?_, hle⟩
  -- What is open before the own tokens is open behind them, and is closed there.
  have hsplit :
      Balanced (left.map Token.kind ++ ((own ++ (right ++ mid ++ left') ++ own').map Token.kind ++
      right'.map Token.kind)) := by simpa using hall
  rw [TokenKind.Balanced, TokenKind.openAfter_append, TokenKind.openAfter_opens hopens,
    Nat.zero_add, List.length_map] at hsplit
  change TokenKind.openAfter left.length _ = some 0 at hsplit
  rw [TokenKind.openAfter_append] at hsplit
  obtain ⟨f, hf, hrest⟩ := Option.bind_eq_some_iff.mp hsplit
  have hclose := TokenKind.eq_of_openAfter_closes hcloses hrest
  have hadd := TokenKind.openAfter_add hf (d - left.length)
  rw [show left.length + (d - left.length) = d by omega, hd] at hadd
  have heq : d = f + (d - left.length) := Option.some.inj hadd
  rw [List.length_map] at hclose
  omega

theorem Spans.start_le_stop (h : Spans ts span) (hsorted : Sorted ts) : span.start ≤ span.stop := by
  obtain ⟨first, hfirst, hstart⟩ := Option.map_eq_some_iff.mp h.start
  obtain ⟨last, hlast, hstop⟩ := Option.map_eq_some_iff.mp h.stop
  rw [← hstart, ← hstop]
  cases ts with
  | nil => cases hfirst
  | cons t ts =>
    cases hfirst
    obtain ⟨hbehind, -⟩ := List.pairwise_cons.mp hsorted.apart
    have hfirst := hsorted.start_le first List.mem_cons_self
    rcases List.mem_cons.mp (List.mem_of_getLast? hlast) with rfl | hmem
    · exact hfirst
    · have hle := hbehind last hmem
      have hlast := hsorted.start_le last (List.mem_cons_of_mem _ hmem)
      order

/-- The ends of a node are ends of tokens that were read for it. -/
theorem Frame.ends (h : Frame ts span) (hsorted : Sorted ts) :
    span.start ≤ span.stop ∧
      ∃ first ∈ ts, ∃ last ∈ ts, first.span.start = span.start ∧ last.span.stop = span.stop := by
  obtain ⟨left, own, right, rfl, -, -, hspans⟩ := h
  obtain ⟨first, hfirst, hstart⟩ := Option.map_eq_some_iff.mp hspans.start
  obtain ⟨last, hlast, hstop⟩ := Option.map_eq_some_iff.mp hspans.stop
  refine ⟨hspans.start_le_stop (hsorted.of_infix (List.infix_append ..)), first, ?_, last, ?_,
    hstart, hstop⟩
  · simp [List.mem_of_mem_head? hfirst]
  · simp [List.mem_of_getLast? hlast]

/-- The span around two nodes goes from the first to the second. -/
theorem Frame.cover_eq (h : Frame ts span) (h' : Frame us span')
    (hsorted : Sorted (ts ++ mid ++ us)) : span.cover span' = ⟨span.start, span'.stop⟩ := by
  rw [List.append_assoc] at hsorted
  obtain ⟨hle, -, -, last, hlast, -, hstop⟩ :=
    h.ends (hsorted.of_infix (List.prefix_append ..).isInfix)
  obtain ⟨hle', first, hfirst, -, -, hstart, -⟩ :=
    h'.ends (hsorted.of_infix ((List.suffix_append mid us).trans (List.suffix_append ..)).isInfix)
  have hbetween := (List.pairwise_append.mp hsorted.apart).2.2 last hlast first
    (List.mem_append_right _ hfirst)
  rw [hstop, hstart] at hbetween
  exact Span.cover_eq (by order) (by order)

/-- A node from one to another, with the tokens that were read for both. -/
theorem Frame.cover (h : Frame ts span) (h' : Frame us span') (hsorted : Sorted (ts ++ mid ++ us))
    (hts : Balanced (ts.map Token.kind)) (hall : Balanced ((ts ++ mid ++ us).map Token.kind)) :
    Tight (ts ++ mid ++ us) (span.cover span') := by
  rw [h.cover_eq h' hsorted]
  exact h.join h' hts hall

end Token

end Vyper
