import Vyper.Proofs.Placement.Parser
import Vyper.Syntax.Parser.Expression

/-!
# Reading on

A parser moves forward only, and an expression reads at least one token. `Parser.Alike` says this of
two parsers that do the same from a state; so a production given two parsers for what stands inside
it does the same with both, if they do the same from every state behind the next token
(`Parser.alike_expressionOver`). Each loop is a round that is given what does the rounds behind it.
-/

namespace Vyper

namespace TokenKind

/-- A kind that is no mark of the end. -/
class Inner (kind : TokenKind) : Prop where
  ne_eof : kind ≠ .eof

instance (id : String) : Inner (.name id) := ⟨by simp⟩

instance (form : Numeral) (text : String) : Inner (.numeral form text) := ⟨by simp⟩

instance (value : String) : Inner (.str value) := ⟨by simp⟩

instance (value : String) : Inner (.bytes value) := ⟨by simp⟩

instance (p : Punct) : Inner (.punct p) := ⟨by simp⟩

instance : Inner .newline := ⟨by simp⟩

instance : Inner .indent := ⟨by simp⟩

instance : Inner .dedent := ⟨by simp⟩

end TokenKind

namespace ParseState

/-- The second state is reached from the first by reading on. -/
structure Onward (s t : ParseState) : Prop where
  tokens : t.tokens <:+ s.tokens
  eof : t.eof = s.eof
  limit : t.limit = s.limit

/-- A loop over the tokens that are left does not run out before them. -/
def Ample (s : ParseState) : Prop := s.tokens.length ≤ s.limit

/-- The second state is reached from the first by reading at least `k` tokens. -/
def Past (k : Nat) (s t : ParseState) : Prop := s.Onward t ∧ t.tokens.length + k ≤ s.tokens.length

variable {s t u : ParseState} {j k : Nat}

theorem Onward.refl (s : ParseState) : s.Onward s := ⟨List.suffix_refl _, rfl, rfl⟩

theorem Onward.trans (h : s.Onward t) (h' : t.Onward u) : s.Onward u :=
  ⟨h'.tokens.trans h.tokens, h'.eof.trans h.eof, h'.limit.trans h.limit⟩

theorem onward_advance (s : ParseState) : s.Onward s.advance := ⟨List.tail_suffix _, rfl, rfl⟩

theorem Onward.length_le (h : s.Onward t) : t.tokens.length ≤ s.tokens.length := h.tokens.length_le

theorem Onward.ample (h : s.Onward t) (hs : s.Ample) : t.Ample := by
  unfold Ample at *
  rw [h.limit]
  exact h.length_le.trans hs

/-- Reading a token leaves one less, unless there is none. -/
theorem length_advance_lt (h : s.kind ≠ .eof) : s.advance.tokens.length < s.tokens.length := by
  unfold kind peek advance at *
  cases hts : s.tokens with
  | nil =>
    rw [hts] at h
    exact absurd rfl h
  | cons t ts => exact Nat.lt_succ_self _

theorem Onward.past (h : s.Onward t) : s.Past 0 t := ⟨h, h.length_le⟩

theorem past_advance (h : s.kind ≠ .eof) : s.Past 1 s.advance :=
  ⟨s.onward_advance, length_advance_lt h⟩

theorem Past.trans (h : s.Past j t) (h' : t.Past (k - j) u) : s.Past k u := by
  have hread := h.2
  have hread' := h'.2
  exact ⟨h.1.trans h'.1, by omega⟩

theorem Past.onward (h : s.Past k t) (h' : t.Onward u) : s.Past k u :=
  ⟨h.1.trans h', (Nat.add_le_add_right h'.length_le k).trans h.2⟩

theorem Onward.past_trans (h : s.Onward t) (h' : t.Past k u) : s.Past k u :=
  ⟨h.trans h'.1, h'.2.trans h.length_le⟩

end ParseState

namespace Parser

open ParseState (Onward Ample Past)

variable {α β ι : Type} {s t : ParseState} {j k m : Nat}

/-! ### Two parsers from one state -/

/-- From a state, two parsers do the same, and what they read is at least `k` tokens. -/
def Alike (k : Nat) (s : ParseState) (p q : Parser α) : Prop :=
  s.Ample → p s = q s ∧ Returns p s fun _ t => s.Past k t

/-- Two parsers do so from every state that is reached by reading on. -/
def AlikeOn (k : Nat) (s : ParseState) (p q : Parser α) : Prop := ∀ ⦃t⦄, s.Onward t → Alike k t p q

/-- Two parsers do so from every state behind the next token. -/
def AlikeIn (k : Nat) (s : ParseState) (p q : Parser α) : Prop := ∀ ⦃t⦄, s.Past 1 t → Alike k t p q

section Sequence

variable {p q : Parser α} {f g : α → Parser β} {kind : TokenKind}

/-- Two sequences do the same if their first parts do, and their second parts behind them. -/
theorem bind_agree {post : α → ParseState → Prop} {last : β → ParseState → Prop} (heq : p s = q s)
    (hp : Returns p s post) (hf : ∀ a t, post a t → f a t = g a t ∧ Returns (f a) t last) :
    (p >>= f) s = (q >>= g) s ∧ Returns (p >>= f) s last := by
  refine ⟨?_, hp.bind fun a t h => (hf a t h).2⟩
  change (p s >>= fun (a, t) => f a t) = (q s >>= fun (a, t) => g a t)
  rw [← heq]
  cases hps : p s with
  | error e => rfl
  | ok r => exact (hf r.1 r.2 (hp.1 r.1 r.2 hps)).1

/-- The tokens that were read before count. -/
theorem Alike.behind (h : Alike (m - k) t p q) (hs : s.Ample) (ht : s.Past k t) :
    p t = q t ∧ Returns p t fun _ u => s.Past m u :=
  have h := h (ht.1.ample hs)
  ⟨h.1, h.2.mono fun _ _ hu => ht.trans hu⟩

theorem Alike.bind (h : Alike k s p q) (hf : ∀ a t, s.Past k t → Alike (m - k) t (f a) (g a)) :
    Alike m s (p >>= f) (q >>= g) :=
  fun hs => bind_agree (h hs).1 (h hs).2 fun a t ht => (hf a t ht).behind hs ht

theorem Alike.weaken (h : Alike k s p q) : Alike 0 s p q := fun hs =>
  ⟨(h hs).1, (h hs).2.mono fun _ _ ht => ht.1.past⟩

theorem AlikeOn.here (h : AlikeOn k s p q) : Alike k s p q := h (.refl s)

theorem AlikeOn.onward (h : AlikeOn k s p q) (ht : s.Onward t) : AlikeOn k t p q :=
  fun _ hu => h (ht.trans hu)

theorem AlikeIn.past (h : AlikeIn k s p q) (ht : s.Past 1 t) : AlikeOn k t p q :=
  fun _ hu => h (ht.onward hu)

theorem AlikeIn.onward (h : AlikeIn k s p q) (ht : s.Onward t) : AlikeIn k t p q :=
  fun _ hu => h (ht.past_trans hu)

theorem alike_pure (a : α) : Alike 0 s (pure a) (pure a) :=
  fun _ => ⟨rfl, yields_pure (Onward.refl s).past⟩

/-- What is returned behind two parsers. -/
theorem Alike.done {g : α → β} (h : Alike k s p q) :
    Alike k s (p >>= fun a => pure (g a)) (q >>= fun a => pure (g a)) :=
  h.bind fun a _ _ => (Nat.sub_self k).symm ▸ alike_pure (g a)

theorem Alike.map {g : α → β} (h : Alike k s p q) : Alike k s (g <$> p) (g <$> q) := by
  rw [map_eq_pure_bind, map_eq_pure_bind]
  exact fun hs => bind_agree (h hs).1 (h hs).2 fun a t ht => ⟨rfl, yields_pure ht⟩

theorem alike_unexpected (what : Expectation) :
    Alike k s (unexpected what : Parser α) (unexpected what) :=
  fun _ => ⟨rfl, yields_unexpected (fun _ => trivial) what⟩

theorem alike_fail (fault : Fault) (span : Span) :
    Alike k s (fail fault span : Parser α) (fail fault span) :=
  fun _ => ⟨rfl, yields_fail trivial⟩

theorem alike_note (d : Deprecation) : Alike 0 s (note d) (note d) :=
  fun _ => ⟨rfl, yields_ok rfl ⟨⟨List.suffix_refl _, rfl, rfl⟩, le_rfl⟩⟩

theorem alike_peek {f g : Token → Parser β} (h : Alike k s (f s.peek) (g s.peek)) :
    Alike k s (peek >>= f) (peek >>= g) := h

theorem alike_peekKind {f g : TokenKind → Parser β} (h : Alike k s (f s.kind) (g s.kind)) :
    Alike k s (peekKind >>= f) (peekKind >>= g) := h

theorem alike_peekSecond {f g : TokenKind → Parser β}
    (h : Alike k s (f (s.peek 1).kind) (g (s.peek 1).kind)) :
    Alike k s (peekSecond >>= f) (peekSecond >>= g) := h

theorem alike_limit {f g : Nat → Parser β} (h : Alike k s (f s.limit) (g s.limit)) :
    Alike k s (limit >>= f) (limit >>= g) := h

/-- At the end of the text nothing is read. -/
theorem alike_advance {f g : Token → Parser β}
    (h : s.Onward s.advance → Alike k s.advance (f s.peek) (g s.peek)) :
    Alike k s (advance >>= f) (advance >>= g) := by
  intro hs
  obtain ⟨heq, hf⟩ := h s.onward_advance (s.onward_advance.ample hs)
  exact ⟨heq, yields_advance (hf.mono fun _ _ ht => s.onward_advance.past_trans ht)⟩

/-- A token that is no mark of the end is read. -/
theorem alike_take {f g : Token → Parser β} (hkind : s.kind = kind)
    (h : s.Past 1 s.advance → Alike (k - 1) s.advance (f s.peek) (g s.peek))
    [hkept : kind.Inner] : Alike k s (advance >>= f) (advance >>= g) := fun hs =>
  have hpast := ParseState.past_advance (hkind ▸ hkept.ne_eof)
  (h hpast).behind hs hpast

/-- A family of parsers with bounds, each made of the one before it. -/
theorem alike_upTo {f : Nat → Parser α} (hzero : ∀ s, Alike k s (f 0) (f 0))
    (hsucc : ∀ n s, AlikeIn k s (f n) (f n) → Alike k s (f (n + 1)) (f (n + 1))) (n : Nat) :
    Alike k s (f n) (f n) := by
  induction n generalizing s with
  | zero => exact hzero s
  | succ n ih => exact hsucc n s fun _ _ => ih

/-! ### Parsers that try -/

/-- From a state, two parsers do the same: they return something and read a token at least, or they
return nothing and leave the state as it is. -/
def TryAlike (s : ParseState) (p q : Parser (Option α)) : Prop :=
  s.Ample → p s = q s ∧ Returns p s fun r t => (r.isSome = true ∧ s.Past 1 t) ∨ (r = none ∧ t = s)

theorem TryAlike.bind {p q : Parser (Option α)} {f g : Option α → Parser β} (h : TryAlike s p q)
    (hsome : ∀ a t, s.Past 1 t → Alike (k - 1) t (f (some a)) (g (some a)))
    (hnone : Alike k s (f none) (g none)) : Alike k s (p >>= f) (q >>= g) := by
  refine fun hs => bind_agree (h hs).1 (h hs).2 ?_
  rintro r t (⟨hr, ht⟩ | ⟨rfl, rfl⟩)
  · obtain ⟨a, rfl⟩ := Option.isSome_iff_exists.mp hr
    exact (hsome a t ht).behind hs ht
  · exact hnone hs

/-- What returns something whenever it succeeds. -/
theorem Alike.tries {p q : Parser (Option α)} (h : Alike 1 s p q)
    (hsome : Returns p s fun r _ => r.isSome = true) : TryAlike s p q :=
  fun hs => ⟨(h hs).1, (hsome.and (h hs).2).mono fun _ _ => .inl⟩

theorem tryAlike_none : TryAlike s (pure none : Parser (Option α)) (pure none) :=
  fun _ => ⟨rfl, yields_pure (.inr ⟨rfl, rfl⟩)⟩

theorem tryAlike_peekKind {f g : TokenKind → Parser (Option α)}
    (h : TryAlike s (f s.kind) (g s.kind)) : TryAlike s (peekKind >>= f) (peekKind >>= g) := h

theorem alike_accept {f g : Option Span → Parser β}
    (hsome : ∀ a t, s.Past 1 t → Alike (k - 1) t (f (some a)) (g (some a)))
    (hnone : Alike k s (f none) (g none)) [hkept : kind.Inner] :
    Alike k s (accept kind >>= f) (accept kind >>= g) := by
  have htry : TryAlike s (accept kind) (accept kind) := by
    refine fun _ => ⟨rfl, (yields_accept_peek kind).mono ?_⟩
    rintro r t (⟨rfl, hkind, rfl⟩ | ⟨rfl, -, rfl⟩)
    · exact .inl ⟨rfl, ParseState.past_advance (hkind ▸ hkept.ne_eof)⟩
    · exact .inr ⟨rfl, rfl⟩
  exact htry.bind hsome hnone

theorem alike_expect (what : Expectation) [kind.Inner] :
    Alike 1 s (expect kind what) (expect kind what) :=
  alike_accept (fun a _ _ => alike_pure a) (alike_unexpected what)

theorem alike_expectPunct (p : Punct) : Alike 1 s (expectPunct p) (expectPunct p) := alike_expect _

theorem alike_expectWord (w : String) : Alike 1 s (expectWord w) (expectWord w) := alike_expect _

theorem alike_identifier : Alike 1 s identifier identifier := by
  refine alike_peek ?_
  split
  · next hpeek => exact alike_take (congrArg Token.kind hpeek) fun _ => alike_pure _
  · exact alike_unexpected .identifier

end Sequence

/-! ### Lists -/

section Lists

variable {item item' : Parser α} {rest rest' : Parser (List α)}

/-- One item and, behind a comma, the others. -/
def commaRound (stop : TokenKind → Bool) (item : Parser α) (rest : Parser (List α)) :
    Parser (List α) := do
  if stop (← peekKind) then return []
  let first ← item
  match ← acceptPunct .comma with
  | some _ => return first :: (← rest)
  | none => return [first]

theorem alike_commaRound (stop : TokenKind → Bool) (hitem : Alike 1 s item item')
    (hrest : AlikeIn 0 s rest rest') :
    Alike 0 s (commaRound stop item rest) (commaRound stop item' rest') := by
  refine alike_peekKind ?_
  split
  · exact alike_pure []
  · refine hitem.bind fun first s₁ hs₁ => alike_accept (fun _ s₂ hs₂ => ?_) (alike_pure _)
    exact (hrest (hs₁.onward hs₂.1)).done

theorem alike_commaItems (stop : TokenKind → Bool) (hitem : AlikeOn 1 s item item') (n : Nat) :
    Alike 0 s (commaItems stop item n) (commaItems stop item' n) := by
  induction n generalizing s with
  | zero => exact alike_pure []
  | succ n ih => exact alike_commaRound stop hitem.here fun _ ht => ih (hitem.onward ht.1)

theorem alike_commaList (stop : TokenKind → Bool) (hitem : AlikeOn 1 s item item') :
    Alike 0 s (commaList stop item) (commaList stop item') :=
  alike_limit (alike_commaItems stop hitem _)

theorem alike_bracketed (close : Punct) (hitem : AlikeOn 1 s item item') :
    Alike 1 s (bracketed close item) (bracketed close item') :=
  (alike_commaList _ hitem).bind fun _ _ _ => (alike_expectPunct _).done

end Lists

/-! ### Atoms and trailers -/

theorem alike_nameAtom (id : String) (span : Span) :
    Alike 0 s (nameAtom id span) (nameAtom id span) := by
  unfold nameAtom
  dsimp only
  split <;> split
  · exact (alike_note _).bind fun _ _ _ => (alike_note _).done
  · exact (alike_note _).done
  · exact (alike_note _).done
  · exact alike_pure _

section Inside

variable {inner inner' rest rest' : Parser Expr}

theorem alike_parenthesized (start : Span) (hinner : AlikeOn 1 s inner inner') :
    Alike 0 s (parenthesized inner start) (parenthesized inner' start) := by
  refine alike_accept (fun _ _ _ => alike_pure _) (hinner.here.weaken.bind fun first s₁ hs₁ => ?_)
  refine alike_accept (fun _ _ _ => alike_pure first) (alike_accept (fun _ s₂ hs₂ => ?_) ?_)
  · refine (alike_commaList _ (hinner.onward (hs₁.1.trans hs₂.1))).bind fun _ _ _ => ?_
    exact (alike_expectPunct _).weaken.done
  · exact (alike_pure []).bind fun _ _ _ => (alike_expectPunct _).weaken.done

theorem alike_entry (hinner : AlikeOn 1 s inner inner') :
    Alike 1 s (entry inner) (entry inner') := by
  refine hinner.here.bind fun key s₁ hs₁ => (alike_expectPunct _).bind fun _ s₂ hs₂ => ?_
  exact (hinner (hs₁.1.trans hs₂.1)).weaken.done

theorem alike_argument (hinner : AlikeOn 1 s inner inner') :
    Alike 1 s (argument inner) (argument inner') := by
  refine alike_peekKind (alike_peekSecond ?_)
  split
  · refine alike_identifier.bind fun name s₁ hs₁ => alike_advance fun hs₂ => ?_
    exact (hinner (hs₁.1.trans hs₂)).weaken.done
  · exact hinner.here.done

theorem alike_expressionList (hinner : AlikeOn 1 s inner inner') :
    Alike 1 s (expressionList inner) (expressionList inner') := by
  refine hinner.here.bind fun first s₁ hs₁ => alike_accept (fun _ s₂ hs₂ => ?_) (alike_pure _)
  exact (alike_commaList _ (hinner.onward (hs₁.1.trans hs₂.1))).done

theorem alike_atom (hinner : AlikeIn 1 s inner inner') : Alike 1 s (atom inner) (atom inner') := by
  refine alike_peek ?_
  split
  · next hpeek =>
    refine alike_take (congrArg Token.kind hpeek) fun _ => ?_
    split
    · exact alike_pure _
    split
    · exact alike_pure _
    · exact alike_nameAtom _ _
  · next hpeek => exact alike_take (congrArg Token.kind hpeek) fun _ => alike_pure _
  · next hpeek => exact alike_take (congrArg Token.kind hpeek) fun _ => alike_pure _
  · next hpeek => exact alike_take (congrArg Token.kind hpeek) fun _ => alike_pure _
  · next hpeek =>
    exact alike_take (congrArg Token.kind hpeek) fun hs₁ => alike_parenthesized _ (hinner.past hs₁)
  · next hpeek =>
    refine alike_take (congrArg Token.kind hpeek) fun hs₁ => ?_
    exact (alike_bracketed _ (hinner.past hs₁)).weaken.done
  · next hpeek =>
    refine alike_take (congrArg Token.kind hpeek) fun hs₁ => ?_
    refine (alike_bracketed _ fun t ht => ?_).weaken.done
    exact alike_entry ((hinner.past hs₁).onward ht)
  · exact alike_unexpected .expression

theorem tryAlike_trailer (value : Expr) (hinner : AlikeIn 1 s inner inner') :
    TryAlike s (trailer inner value) (trailer inner' value) := by
  refine tryAlike_peekKind ?_
  split
  · next hkind =>
    refine Alike.tries (alike_take hkind fun _ => alike_identifier.weaken.done) ?_
    exact yields_advance ((yields_true _ _).bind fun _ _ _ => yields_pure rfl)
  · next hkind =>
    refine Alike.tries (alike_take hkind fun hs₁ => ?_) ?_
    · refine (alike_bracketed _ fun t ht => ?_).weaken.done
      exact alike_argument ((hinner.past hs₁).onward ht)
    · exact yields_advance ((yields_true _ _).bind fun _ _ _ => yields_pure rfl)
  · next hkind =>
    refine Alike.tries (alike_take hkind fun hs₁ => ?_) ?_
    · refine (alike_expressionList (hinner.past hs₁)).weaken.bind fun _ _ _ => ?_
      exact (alike_expectPunct _).weaken.done
    · refine yields_advance ((yields_true _ _).bind fun _ _ _ => ?_)
      exact (yields_true _ _).bind fun _ _ _ => yields_pure rfl
  · exact tryAlike_none

/-- One trailer and those behind it. -/
def trailerRound (inner : Parser Expr) (rest : Expr → Parser Expr) (value : Expr) :
    Parser Expr := do
  match ← trailer inner value with
  | some longer => rest longer
  | none => pure value

theorem alike_trailerRound {rest rest' : Expr → Parser Expr} (hinner : AlikeIn 1 s inner inner')
    (hrest : ∀ e, AlikeIn 0 s (rest e) (rest' e)) (value : Expr) :
    Alike 0 s (trailerRound inner rest value) (trailerRound inner' rest' value) :=
  (tryAlike_trailer value hinner).bind (fun longer _ ht => hrest longer ht) (alike_pure value)

theorem alike_trailersFrom (hinner : AlikeIn 1 s inner inner') (n : Nat) (value : Expr) :
    Alike 0 s (trailersFrom inner n value) (trailersFrom inner' n value) := by
  induction n generalizing s value with
  | zero => exact alike_pure value
  | succ n ih => exact alike_trailerRound hinner (fun e _ ht => ih (hinner.onward ht.1) e) value

theorem alike_primary (hinner : AlikeIn 1 s inner inner') :
    Alike 1 s (primary inner) (primary inner') :=
  (alike_atom hinner).bind fun value _ ht =>
    alike_limit (alike_trailersFrom (hinner.onward ht.1) _ value)

/-! ### Operators -/

/-- A sign and what is behind it, or a value and perhaps a power. -/
def signRound (inner rest : Parser Expr) : Parser Expr := do
  match signOf (← peekKind) with
  | some op =>
    let sign ← advance
    let operand ← rest
    return .unary (sign.span.cover operand.span) op operand
  | none =>
    let base ← primary inner
    match ← acceptPunct (.binary .pow) with
    | some _ => return joinBinary base .pow (← rest)
    | none => return base

theorem alike_signRound (hinner : AlikeIn 1 s inner inner') (hrest : AlikeIn 1 s rest rest') :
    Alike 1 s (signRound inner rest) (signRound inner' rest') := by
  refine alike_peekKind ?_
  cases hsign : signOf s.kind with
  | some op =>
    have hkept : s.kind.Inner := by
      refine ⟨fun heof => ?_⟩
      rw [heof] at hsign
      cases hsign
    exact alike_take rfl fun hs₁ => (hrest hs₁).weaken.done
  | none =>
    refine (alike_primary hinner).bind fun base s₁ hs₁ => ?_
    refine alike_accept (fun _ s₂ hs₂ => ?_) (alike_pure base)
    exact (hrest (hs₁.onward hs₂.1)).weaken.done

theorem alike_signedUpTo (hinner : AlikeIn 1 s inner inner') (n : Nat) :
    Alike 1 s (signedUpTo inner n) (signedUpTo inner' n) := by
  induction n generalizing s with
  | zero => exact alike_unexpected .expression
  | succ n ih => exact alike_signRound hinner fun _ ht => ih (hinner.onward ht.1)

section Chain

variable {operator : Parser (Option β)} {operand operand' : Parser Expr}
  {join : Expr → β → Expr → Expr}

/-- An operator with its operand, joined to what is on the left, and the others. -/
def chainRound (operator : Parser (Option β)) (operand : Parser Expr)
    (join : Expr → β → Expr → Expr) (rest : Expr → Parser Expr) (left : Expr) : Parser Expr := do
  match ← operator with
  | none => pure left
  | some op => rest (join left op (← operand))

theorem alike_chainRound {rest rest' : Expr → Parser Expr}
    (hoperator : ∀ s, TryAlike s operator operator) (hoperand : AlikeOn 1 s operand operand')
    (hrest : ∀ e, AlikeIn 0 s (rest e) (rest' e)) (left : Expr) :
    Alike 0 s (chainRound operator operand join rest left)
      (chainRound operator operand' join rest' left) := by
  refine (hoperator s).bind (fun op s₁ hs₁ => ?_) (alike_pure left)
  exact (hoperand hs₁.1).weaken.bind fun right _ ht => hrest _ (hs₁.onward ht.1)

theorem alike_chain (hoperator : ∀ s, TryAlike s operator operator)
    (hoperand : AlikeOn 1 s operand operand') :
    Alike 1 s (chain operator operand join) (chain operator operand' join) := by
  refine hoperand.here.bind fun left s₁ hs₁ => alike_limit ?_
  have hoperand := hoperand.onward hs₁.1
  generalize s₁.limit = n
  induction n generalizing s₁ left with
  | zero => exact alike_pure left
  | succ n ih =>
    refine alike_chainRound hoperator hoperand (fun e t ht => ?_) left
    exact ih e t (hs₁.onward ht.1) (hoperand.onward ht.1)

end Chain

theorem tryAlike_binaryOperator (ops : List BinaryOp) (s : ParseState) :
    TryAlike s (binaryOperator ops) (binaryOperator ops) := by
  refine tryAlike_peekKind ?_
  split
  · next hkind =>
    split
    · exact Alike.tries (alike_take hkind fun _ => alike_pure _) (yields_advance (yields_pure rfl))
    · exact tryAlike_none
  · exact tryAlike_none

theorem tryAlike_compareOperator (s : ParseState) : TryAlike s compareOperator compareOperator := by
  refine tryAlike_peekKind ?_
  split
  · next hkind =>
    exact Alike.tries (alike_take hkind fun _ => alike_pure _) (yields_advance (yields_pure rfl))
  · next hkind =>
    exact Alike.tries (alike_take hkind fun _ => alike_pure _) (yields_advance (yields_pure rfl))
  · next hkind =>
    change TryAlike s (ite _ _ _) (ite _ _ _)
    split
    · refine Alike.tries (alike_take hkind fun _ => alike_advance fun _ => alike_pure _) ?_
      exact yields_advance (yields_advance (yields_pure rfl))
    · exact tryAlike_none
  · exact tryAlike_none

theorem alike_binaryOver (hinner : AlikeIn 1 s inner inner') (levels : List (List BinaryOp)) :
    Alike 1 s (binaryOver inner levels) (binaryOver inner' levels) := by
  induction levels generalizing s with
  | nil => exact alike_limit (alike_signedUpTo hinner _)
  | cons ops tighter ih =>
    exact alike_chain (tryAlike_binaryOperator ops) fun _ ht => ih (hinner.onward ht)

theorem alike_comparison (hinner : AlikeIn 1 s inner inner') :
    Alike 1 s (comparison inner) (comparison inner') :=
  alike_chain tryAlike_compareOperator fun _ ht => alike_binaryOver (hinner.onward ht) _

/-- A negation and what is behind it, or a comparison. -/
def negationRound (inner rest : Parser Expr) : Parser Expr := do
  match ← acceptWord "not" with
  | some start =>
    let operand ← rest
    return .unary (start.cover operand.span) .not operand
  | none => comparison inner

theorem alike_negationRound (hinner : AlikeIn 1 s inner inner') (hrest : AlikeIn 1 s rest rest') :
    Alike 1 s (negationRound inner rest) (negationRound inner' rest') :=
  alike_accept (fun _ _ ht => (hrest ht).weaken.done) (alike_comparison hinner)

theorem alike_negation (hinner : AlikeIn 1 s inner inner') :
    Alike 1 s (negation inner) (negation inner') := by
  refine alike_limit ?_
  generalize s.limit + 1 = n
  induction n generalizing s with
  | zero => exact alike_unexpected .expression
  | succ n ih => exact alike_negationRound hinner fun _ ht => ih (hinner.onward ht.1)

section Logical

variable {operand operand' : Parser Expr} {rest rest' : Parser (List Expr)}

/-- An operand behind the word of the operator, and the others. -/
def logicalRound (op : BoolOp) (operand : Parser Expr) (rest : Parser (List Expr)) :
    Parser (List Expr) := do
  match ← acceptWord op.text with
  | some _ =>
    let value ← operand
    return value :: (← rest)
  | none => pure []

theorem alike_logicalRound (op : BoolOp) (hoperand : AlikeOn 1 s operand operand')
    (hrest : AlikeIn 0 s rest rest') :
    Alike 0 s (logicalRound op operand rest) (logicalRound op operand' rest') := by
  refine alike_accept (fun _ s₁ hs₁ => ?_) (alike_pure [])
  refine (hoperand hs₁.1).weaken.bind fun value s₂ hs₂ => ?_
  exact (hrest (hs₁.onward hs₂.1)).done

theorem alike_logicalRest (op : BoolOp) (hoperand : AlikeOn 1 s operand operand') (n : Nat) :
    Alike 0 s (logicalRest op operand n) (logicalRest op operand' n) := by
  induction n generalizing s with
  | zero => exact alike_pure []
  | succ n ih => exact alike_logicalRound op hoperand fun _ ht => ih (hoperand.onward ht.1)

theorem alike_logical (op : BoolOp) (hoperand : AlikeOn 1 s operand operand') :
    Alike 1 s (logical op operand) (logical op operand') := by
  refine hoperand.here.bind fun first s₁ hs₁ => alike_limit ?_
  refine (alike_logicalRest op (hoperand.onward hs₁.1) _).bind fun more _ _ => ?_
  split
  · exact alike_pure _
  · exact alike_pure _

end Logical

theorem alike_expressionOver (hinner : AlikeIn 1 s inner inner') :
    Alike 1 s (expressionOver inner) (expressionOver inner') :=
  alike_logical .or fun _ ht => alike_logical .and fun _ hu =>
    alike_negation (hinner.onward (ht.trans hu))

end Inside

theorem alike_expressionUpTo (n : Nat) : Alike 1 s (expressionUpTo n) (expressionUpTo n) :=
  alike_upTo (fun _ => alike_unexpected .expression) (fun _ _ => alike_expressionOver) n

/-- An expression reads at least one token. -/
theorem alike_expression : Alike 1 s expression expression := alike_limit (alike_expressionUpTo _)

end Parser

end Vyper
