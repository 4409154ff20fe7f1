import Vyper.Proofs.Placement
import Vyper.Syntax.Parser.Basic

/-!
# What a parser yields

`Parser.Yields` says what holds of every value a parser returns and of the state it leaves, and of
its errors. `Token.Row` says that tokens come in the order of the text, and `Span.Within` that a
span lies between two places.
-/

namespace Vyper

/-- A span that does not run backwards and lies between two places. -/
structure Span.Within (lo hi : Pos) (s : Span) : Prop where
  le_start : lo ≤ s.start
  start_le_stop : s.start ≤ s.stop
  stop_le : s.stop ≤ hi

/-- Every place an error is about lies between two places. -/
def CompileError.Within (lo hi : Pos) (e : CompileError) : Prop :=
  ∀ s ∈ e.span.toList ++ e.related, s.Within lo hi

theorem Span.within_point {lo hi p : Pos} (hlo : lo ≤ p) (hhi : p ≤ hi) : (point p).Within lo hi :=
  ⟨hlo, le_rfl, hhi⟩

theorem CompileError.within_located {lo hi : Pos} {span : Span} (fault : Fault)
    (h : span.Within lo hi) : (located fault span).Within lo hi := by
  intro s hs
  rwa [List.mem_singleton.mp hs]

/-- Tokens in the order of the text, behind a place and before the end of the text. Those that are
no marks are not empty and have a property. -/
def Token.Row (P : Token → Prop) (eof : Pos) : Pos → List Token → Prop
  | lo, [] => lo ≤ eof
  | lo, t :: ts =>
    lo ≤ t.span.start ∧ t.span.start ≤ t.span.stop ∧
      (t.kind.isMark = false → t.span.start < t.span.stop ∧ P t) ∧ Row P eof t.span.stop ts

namespace Token

variable {P : Token → Prop} {eof lo lo' : Pos} {ts front : List Token}

theorem Row.mono (h : Row P eof lo ts) (hlo : lo' ≤ lo) : Row P eof lo' ts := by
  cases ts with
  | nil => exact le_trans hlo h
  | cons t ts => exact ⟨le_trans hlo h.1, h.2⟩

theorem Row.apart (h : Row P eof lo ts) :
    ts.Pairwise (fun a b => a.span.stop ≤ b.span.start) ∧ ∀ t ∈ ts, lo ≤ t.span.start := by
  induction ts generalizing lo with
  | nil => exact ⟨.nil, nofun⟩
  | cons t ts ih =>
    obtain ⟨hlo, hle, -, hrest⟩ := h
    obtain ⟨hpair, hbehind⟩ := ih hrest
    refine ⟨.cons hbehind hpair, List.forall_mem_cons.mpr ⟨hlo, fun u hu => ?_⟩⟩
    have hu := hbehind u hu
    order

theorem Row.le (h : Row P eof lo ts) : lo ≤ eof := by
  induction ts generalizing lo with
  | nil => exact h
  | cons t ts ih =>
    obtain ⟨hlo, hle, -, hrest⟩ := h
    exact le_trans hlo (le_trans hle (ih hrest))

end Token

namespace ParseState

theorem kind_advance (s : ParseState) : s.advance.kind = (s.peek 1).kind := by
  rw [kind, peek, peek, advance, List.getElem?_tail]

end ParseState

namespace Parser

variable {α β : Type} {P : Token → Prop} {s : ParseState} {lo : Pos}

/-- Whatever the parser returns from a state, it leaves with a property, and its errors have one. -/
def Yields (blame : CompileError → Prop) (p : Parser α) (s : ParseState)
    (post : α → ParseState → Prop) : Prop :=
  (∀ a t, p s = .ok (a, t) → post a t) ∧ ∀ e, p s = .error e → blame e

/-- What a parser returns, whatever its errors are. -/
abbrev Returns (p : Parser α) (s : ParseState) (post : α → ParseState → Prop) : Prop :=
  Yields (fun _ => True) p s post

section Sequence

variable {blame : CompileError → Prop} {p : Parser α} {f : α → Parser β}
  {post post' : α → ParseState → Prop} {last : β → ParseState → Prop}

theorem Yields.bind (hp : Yields blame p s post)
    (hf : ∀ a t, post a t → Yields blame (f a) t last) : Yields blame (p >>= f) s last := by
  have hrun : (p >>= f) s = (p s >>= fun (a, t) => f a t) := rfl
  cases hps : p s with
  | error e =>
    rw [hps] at hrun
    refine ⟨fun b u h => ?_, fun e' h => ?_⟩ <;> cases hrun.symm.trans h
    exact hp.2 e hps
  | ok r =>
    rw [hps] at hrun
    have hlast := hf r.1 r.2 (hp.1 r.1 r.2 hps)
    exact ⟨fun b u h => hlast.1 b u (hrun.symm.trans h), fun e h => hlast.2 e (hrun.symm.trans h)⟩

theorem Yields.mono (hp : Yields blame p s post) (h : ∀ a t, post a t → post' a t) :
    Yields blame p s post' :=
  ⟨fun a t hpa => h a t (hp.1 a t hpa), hp.2⟩

theorem returns_of_ok (h : ∀ a t, p s = .ok (a, t) → post a t) : Returns p s post :=
  ⟨h, fun _ _ => trivial⟩

/-- A parser about which nothing is asked. -/
theorem yields_true (p : Parser α) (s : ParseState) : Returns p s fun _ _ => True :=
  returns_of_ok fun _ _ _ => trivial

theorem Yields.returns (hp : Yields blame p s post) : Returns p s post := returns_of_ok hp.1

theorem Yields.and (h : Yields blame p s post) (h' : Returns p s post') :
    Yields blame p s fun a t => post a t ∧ post' a t :=
  ⟨fun a t hpa => ⟨h.1 a t hpa, h'.1 a t hpa⟩, h.2⟩

theorem yields_ok {a : α} {t : ParseState} (hp : p s = .ok (a, t)) (h : post a t) :
    Yields blame p s post := by
  constructor
  · intro b u hb
    cases hp.symm.trans hb
    exact h
  · intro e he
    cases hp.symm.trans he

theorem yields_pure {a : α} (h : post a s) : Yields blame (pure a) s post := yields_ok rfl h

theorem yields_pure_bind {a : α} (h : Yields blame (f a) s last) :
    Yields blame (pure a >>= f) s last := h

theorem Yields.map {g : α → β} (hp : Yields blame p s fun a t => last (g a) t) :
    Yields blame (g <$> p) s last := by
  rw [map_eq_pure_bind]
  exact hp.bind fun a t ha => yields_pure ha

theorem yields_peek {f : Token → Parser β} (h : Yields blame (f s.peek) s last) :
    Yields blame (peek >>= f) s last := h

theorem yields_peekKind {f : TokenKind → Parser β} (h : Yields blame (f s.kind) s last) :
    Yields blame (peekKind >>= f) s last := h

theorem yields_peekSecond {f : TokenKind → Parser β} (h : Yields blame (f (s.peek 1).kind) s last) :
    Yields blame (peekSecond >>= f) s last := h

theorem yields_limit {f : Nat → Parser β} (h : Yields blame (f s.limit) s last) :
    Yields blame (limit >>= f) s last := h

theorem yields_advance {f : Token → Parser β} (h : Yields blame (f s.peek) s.advance last) :
    Yields blame (advance >>= f) s last := h

theorem yields_unexpected (hblame : ∀ fault, blame (.located fault s.peek.span))
    (what : Expectation) : Yields blame (unexpected what) s post :=
  ⟨by simp [unexpected], fun _ h => Except.error.inj h ▸ hblame _⟩

theorem yields_fail {fault : Fault} {span : Span} (hblame : blame (.located fault span)) :
    Yields blame (fail fault span) s post :=
  ⟨by simp [fail], fun _ h => Except.error.inj h ▸ hblame⟩

end Sequence

/-! ### Tokens -/

variable {blame : CompileError → Prop}

/-- Whether a token is next decides whether it is read. -/
theorem yields_accept_peek (kind : TokenKind) :
    Yields blame (accept kind) s fun r t =>
      (r = some s.peek.span ∧ s.kind = kind ∧ t = s.advance) ∨
        (r = none ∧ s.kind ≠ kind ∧ t = s) := by
  by_cases hk : s.kind = kind
  · exact yields_ok (if_pos hk) (.inl ⟨rfl, hk, rfl⟩)
  · exact yields_ok (if_neg hk) (.inr ⟨rfl, hk, rfl⟩)

theorem yields_expect_peek {kind : TokenKind} {what : Expectation}
    (hblame : ∀ fault, blame (.located fault s.peek.span)) :
    Yields blame (expect kind what) s fun r t => r = s.peek.span ∧ s.kind = kind ∧
      t = s.advance := by
  refine (yields_accept_peek kind).bind ?_
  rintro r t (⟨rfl, hkind, rfl⟩ | ⟨rfl, -, rfl⟩)
  · exact yields_pure ⟨rfl, hkind, rfl⟩
  · exact yields_unexpected hblame what

theorem yields_identifier_peek (hblame : ∀ fault, blame (.located fault s.peek.span)) :
    Yields blame identifier s fun r t => s.peek = ⟨.name r.1, r.2⟩ ∧ t = s.advance := by
  refine yields_peek ?_
  split
  · next hpeek => exact yields_advance (yields_pure ⟨hpeek, rfl⟩)
  · exact yields_unexpected hblame .identifier

end Parser

end Vyper
