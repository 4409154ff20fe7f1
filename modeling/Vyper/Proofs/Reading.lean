import Vyper.Syntax.Parser.Declaration

/-!
# Parsers on known tokens

`Parser.Reads` says what a parser does where it is known which tokens come next: it takes exactly
the given ones and leaves the rest, and its result has a given property. The primitives and
combinators of the grammar each have one such statement, and `Reads.bind` puts them in sequence.
Nothing is said about spans, and nothing about notes.

`Parser.Reaches` is the same for a loop that is left in the middle: the parser has come to stand at
a later round of the loop, with the tokens read so far gone into the value the round starts from.
-/

namespace Vyper

/-- The tokens still to be read, without their places. -/
def ParseState.kinds (s : ParseState) : List TokenKind := s.tokens.map Token.kind

namespace Parser

variable {α β : Type}

/-- Where `ks` comes next and `rest` after it, the parser reads `ks` and returns a value with
`post`. -/
def Reads (p : Parser α) (ks rest : List TokenKind) (post : α → Prop) : Prop :=
  ∀ s : ParseState, s.kinds = ks ++ rest → s.kinds.length ≤ s.limit →
    ∃ a t, p s = .ok (a, t) ∧ t.kinds = rest ∧ t.limit = s.limit ∧ post a

theorem bind_eq_of_ok {p : Parser α} {f : α → Parser β} {s t : ParseState} {a : α}
    (h : p s = .ok (a, t)) : (p >>= f) s = f a t := by
  change (p s >>= fun (a, t) => f a t) = f a t
  rw [h]
  rfl

theorem Reads.bind {p : Parser α} {f : α → Parser β} {ks ls rest : List TokenKind}
    {post : α → Prop} {post' : β → Prop} (hp : Reads p ks (ls ++ rest) post)
    (hf : ∀ a, post a → Reads (f a) ls rest post') : Reads (p >>= f) (ks ++ ls) rest post' := by
  intro s hs hlen
  rw [List.append_assoc] at hs
  obtain ⟨a, t, hpa, ht, hlimit, ha⟩ := hp s hs hlen
  have hlen' : t.kinds.length ≤ t.limit := by
    rw [hs, List.length_append, ← ht] at hlen
    omega
  obtain ⟨b, u, hfb, hu, hlimit', hb⟩ := hf a ha t ht hlen'
  exact ⟨b, u, (bind_eq_of_ok hpa).trans hfb, hu, hlimit'.trans hlimit, hb⟩

/-- A first step that reads nothing. -/
theorem Reads.look {p : Parser α} {f : α → Parser β} {ks rest : List TokenKind} {post : α → Prop}
    {post' : β → Prop} (hp : Reads p [] (ks ++ rest) post)
    (hf : ∀ a, post a → Reads (f a) ks rest post') : Reads (p >>= f) ks rest post' := by
  have h : Reads (p >>= f) ([] ++ ks) rest post' := hp.bind hf
  exact h

/-- A first step that reads one token. -/
theorem Reads.cons {p : Parser α} {f : α → Parser β} {k : TokenKind} {ks rest : List TokenKind}
    {post : α → Prop} {post' : β → Prop} (hp : Reads p [k] (ks ++ rest) post)
    (hf : ∀ a, post a → Reads (f a) ks rest post') : Reads (p >>= f) (k :: ks) rest post' :=
  hp.bind hf

/-- A last step that reads nothing. -/
theorem Reads.finish {p : Parser α} {f : α → Parser β} {ks rest : List TokenKind} {post : α → Prop}
    {post' : β → Prop} (hp : Reads p ks rest post) (hf : ∀ a, post a → Reads (f a) [] rest post') :
    Reads (p >>= f) ks rest post' := by
  have h : Reads (p >>= f) (ks ++ []) rest post' := Reads.bind hp hf
  rwa [List.append_nil] at h

theorem reads_pure {a : α} {post : α → Prop} (h : post a) (rest : List TokenKind) :
    Reads (pure a) [] rest post :=
  fun s hs _ => ⟨a, s, rfl, hs, rfl, h⟩

theorem Reads.mono {p : Parser α} {ks rest : List TokenKind} {post post' : α → Prop}
    (hp : Reads p ks rest post) (h : ∀ a, post a → post' a) : Reads p ks rest post' := by
  intro s hs hlen
  obtain ⟨a, t, hpa, ht, hlimit, ha⟩ := hp s hs hlen
  exact ⟨a, t, hpa, ht, hlimit, h a ha⟩

theorem Reads.map {p : Parser α} {ks rest : List TokenKind} {post : α → Prop} (f : α → β)
    (hp : Reads p ks rest post) : Reads (f <$> p) ks rest fun b => ∃ a, post a ∧ b = f a := by
  intro s hs hlen
  obtain ⟨a, t, hpa, ht, hlimit, ha⟩ := hp s hs hlen
  refine ⟨f a, t, ?_, ht, hlimit, a, ha, rfl⟩
  change (p s >>= fun r => pure (f r.1, r.2)) = _
  rw [hpa]
  rfl

/-- The next token, or the end of the text. -/
def next (ks : List TokenKind) : TokenKind := ks.headD .eof

theorem kind_peek (s : ParseState) : s.peek.kind = next s.kinds := by
  unfold ParseState.peek ParseState.kinds next
  cases s.tokens <;> rfl

theorem kind_peek_one (s : ParseState) : (s.peek 1).kind = next s.kinds.tail := by
  unfold ParseState.peek ParseState.kinds next
  rcases s.tokens with _ | ⟨_, _ | ⟨_, _⟩⟩ <;> rfl

theorem kinds_advance (s : ParseState) : s.advance.kinds = s.kinds.tail := by
  unfold ParseState.advance ParseState.kinds
  cases s.tokens <;> rfl

theorem reads_peek (rest : List TokenKind) : Reads peek [] rest fun t => t.kind = next rest :=
  fun s hs _ => ⟨s.peek, s, rfl, hs, rfl, (kind_peek s).trans (by rw [hs]; rfl)⟩

theorem reads_peekKind (rest : List TokenKind) : Reads peekKind [] rest fun k => k = next rest :=
  fun s hs _ => ⟨s.kind, s, rfl, hs, rfl, by rw [ParseState.kind, kind_peek, hs]; rfl⟩

theorem reads_peekSecond (rest : List TokenKind) :
    Reads peekSecond [] rest fun k => k = next rest.tail :=
  fun s hs _ => ⟨(s.peek 1).kind, s, rfl, hs, rfl, by rw [kind_peek_one, hs]; rfl⟩

/-- A parser that looks at the next token goes on as that token says. -/
theorem reads_peek_cons {f : Token → Parser β} {k : TokenKind} {ks rest : List TokenKind}
    {post : β → Prop} (h : ∀ span, Reads (f ⟨k, span⟩) (k :: ks) rest post) :
    Reads (peek >>= f) (k :: ks) rest post := by
  refine (reads_peek _).look ?_
  rintro ⟨kind, span⟩ hkind
  obtain rfl : kind = k := hkind
  exact h span

theorem reads_peekKind_cons {f : TokenKind → Parser β} {k : TokenKind} {ks rest : List TokenKind}
    {post : β → Prop} (h : Reads (f k) (k :: ks) rest post) :
    Reads (peekKind >>= f) (k :: ks) rest post := by
  refine (reads_peekKind _).look ?_
  intro kind hkind
  obtain rfl : kind = k := hkind
  exact h

theorem reads_advance (k : TokenKind) (rest : List TokenKind) :
    Reads advance [k] rest fun t => t.kind = k :=
  fun s hs _ => ⟨s.peek, s.advance, rfl, by rw [kinds_advance, hs]; rfl, rfl,
    (kind_peek s).trans (by rw [hs]; rfl)⟩

theorem reads_limit (rest : List TokenKind) : Reads limit [] rest fun n => rest.length ≤ n :=
  fun s hs hlen => ⟨s.limit, s, rfl, hs, rfl, by rwa [hs] at hlen⟩

theorem reads_note (d : Deprecation) (rest : List TokenKind) :
    Reads (note d) [] rest fun _ => True :=
  fun s hs _ => ⟨(), { s with notes := d :: s.notes }, rfl, hs, rfl, trivial⟩

theorem reads_accept (k : TokenKind) (rest : List TokenKind) :
    Reads (accept k) [k] rest fun o => ∃ span, o = some span := by
  intro s hs _
  have hk : s.kind = k := by rw [ParseState.kind, kind_peek, hs]; rfl
  refine ⟨some s.peek.span, s.advance, by rw [accept, if_pos hk], ?_, rfl, s.peek.span, rfl⟩
  rw [kinds_advance, hs]
  rfl

theorem reads_accept_none {k : TokenKind} {rest : List TokenKind} (h : next rest ≠ k) :
    Reads (accept k) [] rest fun o => o = none := by
  intro s hs _
  have hk : s.kind ≠ k := by rwa [ParseState.kind, kind_peek, hs]
  exact ⟨none, s, by rw [accept, if_neg hk], hs, rfl, rfl⟩

theorem reads_expect (k : TokenKind) (what : Expectation) (rest : List TokenKind) :
    Reads (expect k what) [k] rest fun _ => True := by
  refine (reads_accept k rest).finish ?_
  rintro _ ⟨span, rfl⟩
  exact reads_pure trivial rest

theorem reads_identifier (id : String) (rest : List TokenKind) :
    Reads identifier [.name id] rest fun r => r.1 = id := by
  refine reads_peek_cons fun span => ?_
  refine (reads_advance (.name id) rest).finish ?_
  intro t _
  exact reads_pure (by rfl) rest

/-! ### Lists -/

/-- What may follow an item of a list: a comma, or what follows the list. -/
structure Follow (fits : List TokenKind → Prop) (rest : List TokenKind) : Prop where
  comma (ks : List TokenKind) : fits (.punct .comma :: ks)
  fits : fits rest
  next : next rest ≠ .punct .comma

theorem next_append {ks : List TokenKind} (h : ks ≠ []) (rest : List TokenKind) :
    next (ks ++ rest) = next ks := by
  cases ks with
  | nil => exact absurd rfl h
  | cons k ks => rfl

theorem next_cons_ne {k k' : TokenKind} (h : k ≠ k') (ks : List TokenKind) :
    next (k :: ks) ≠ k' := h

/-! ### Loops -/

/-- Having read `ks`, the parser stands at a round of the loop, with a value that has `post`. -/
def Reaches (p : Parser α) (loop : Nat → α → Parser α) (ks rest : List TokenKind)
    (post : α → Prop) : Prop :=
  ∀ s : ParseState, s.kinds = ks ++ rest → s.kinds.length ≤ s.limit →
    ∃ a t n, p s = loop n a t ∧ t.kinds = rest ∧ t.limit = s.limit ∧ rest.length ≤ n ∧ post a

section Loops

variable {p : Parser α} {loop : Nat → α → Parser α} {ks ls rest : List TokenKind}
  {post post' : α → Prop}

theorem length_kinds_le {s t : ParseState} (hs : s.kinds = ks ++ rest)
    (hlen : s.kinds.length ≤ s.limit) (ht : t.kinds = rest) (hlimit : t.limit = s.limit) :
    t.kinds.length ≤ t.limit := by
  rw [hs, List.length_append, ← ht] at hlen
  omega

/-- The first round of a loop, after its first value. -/
theorem Reads.reaches (hp : Reads p ks rest post) :
    Reaches (p >>= fun first => limit >>= fun n => loop n first) loop ks rest post := by
  intro s hs hlen
  obtain ⟨a, t, hpa, ht, hlimit, ha⟩ := hp s hs hlen
  have hlen' := length_kinds_le hs hlen ht hlimit
  refine ⟨a, t, t.limit, bind_eq_of_ok hpa, ht, hlimit, by rwa [ht] at hlen', ha⟩

theorem Reaches.step (hp : Reaches p loop ks (ls ++ rest) post)
    (hloop : ∀ n a, (ls ++ rest).length ≤ n → post a → Reaches (loop n a) loop ls rest post') :
    Reaches p loop (ks ++ ls) rest post' := by
  intro s hs hlen
  rw [List.append_assoc] at hs
  obtain ⟨a, t, n, hpa, ht, hlimit, hn, ha⟩ := hp s hs hlen
  obtain ⟨b, u, m, hb, hu, hlimit', hm, hpost⟩ :=
    hloop n a hn ha t ht (length_kinds_le hs hlen ht hlimit)
  exact ⟨b, u, m, hpa.trans hb, hu, hlimit'.trans hlimit, hm, hpost⟩

theorem Reaches.mono (hp : Reaches p loop ks rest post) (h : ∀ a, post a → post' a) :
    Reaches p loop ks rest post' := by
  intro s hs hlen
  obtain ⟨a, t, n, hpa, ht, hlimit, hn, ha⟩ := hp s hs hlen
  exact ⟨a, t, n, hpa, ht, hlimit, hn, h a ha⟩

theorem Reaches.reads (hp : Reaches p loop ks rest post)
    (hloop : ∀ n a, post a → Reads (loop n a) [] rest post') : Reads p ks rest post' := by
  intro s hs hlen
  obtain ⟨a, t, n, hpa, ht, hlimit, _, ha⟩ := hp s hs hlen
  obtain ⟨b, u, hb, hu, hlimit', hpost⟩ :=
    hloop n a ha t ht (length_kinds_le hs hlen ht hlimit)
  exact ⟨b, u, hpa.trans hb, hu, hlimit'.trans hlimit, hpost⟩

variable {operator : Parser (Option β)} {operand : Parser α} {join : α → β → α → α} {op : β}

theorem reaches_chainFrom (hne : ks ≠ [])
    (hop : Reads operator ks (ls ++ rest) fun o => o = some op)
    (hoperand : Reads operand ls rest post) (left : α) {n : Nat}
    (hn : (ks ++ ls ++ rest).length ≤ n) :
    Reaches (chainFrom operator operand join n left) (chainFrom operator operand join) (ks ++ ls)
      rest fun a => ∃ right, post right ∧ a = join left op right := by
  intro s hs hlen
  have hpos := List.length_pos_iff.2 hne
  obtain ⟨m, rfl⟩ : ∃ m, n = m + 1 := ⟨n - 1, by simp at hn; omega⟩
  rw [List.append_assoc] at hs
  obtain ⟨_, t, hopt, ht, hlimit, rfl⟩ := hop s hs hlen
  have hlen' := length_kinds_le hs hlen ht hlimit
  obtain ⟨right, u, hright, hu, hlimit', hpost⟩ := hoperand t ht hlen'
  refine ⟨join left op right, u, m, ?_, hu, hlimit'.trans hlimit, by simp at hn; omega,
    right, hpost, rfl⟩
  rw [chainFrom, bind_eq_of_ok hopt]
  exact bind_eq_of_ok hright

theorem reads_chainFrom_nil (hop : Reads operator [] rest fun o => o = none) (n : Nat) (left : α) :
    Reads (chainFrom operator operand join n left) [] rest fun a => a = left := by
  cases n with
  | zero => exact reads_pure (by rfl) rest
  | succ n =>
    refine hop.finish ?_
    rintro _ rfl
    exact reads_pure (by rfl) rest

end Loops

end Parser

end Vyper
