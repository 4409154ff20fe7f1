import Vyper.Proofs.Grammar.Run

/-!
# Reading expressions

Each level of the grammar puts an operand of that level onto the stack (`Grammar.ReadsOperand`).
-/

namespace Vyper.Grammar

open Vyper.Parser
open Vyper.Grammar.Symbol (sign word)

variable {α β : Type} {first : ParseState} {edge : Edge} {row : List Symbol}
  {s : ParseState} {l : Nat} {inner operand : Parser Expr}

/-- A parser that puts an operand of a level onto the stack. -/
def ReadsOperand (first : ParseState) (l : Nat) (p : Parser Expr) : Prop :=
  ∀ ⦃row s⦄, Reached first .clear row s →
    Reads first p s fun e t => Reached first .any (row ++ [.operand l s.kind e]) t

theorem ReadsOperand.loosen {p : Parser Expr} (h : ReadsOperand first (l + 1) p) (hl : l ≤ 10)
    (hne : l ≠ 2) : ReadsOperand first l p :=
  fun _ _ hs => (h hs).mono fun _ _ ht => ht.take (.loosen hl fun h => absurd h hne)

/-! ### Lists -/

section Lists

variable {Item : List Symbol → α → Prop} {item : Parser α} {stop : TokenKind → Bool}

/-- A parser that puts the symbols of an item onto the stack. -/
def ReadsItem (first : ParseState) (Item : List Symbol → α → Prop) (p : Parser α) : Prop :=
  ∀ ⦃row s⦄, Reached first .clear row s →
    Reads first p s fun a t => ∃ r, Item r a ∧ Reached first .any (row ++ r) t

theorem ReadsOperand.readsItem {p : Parser Expr} (h : ReadsOperand first l p) :
    ReadsItem first (Operand l) p :=
  fun _ _ hs => (h hs).mono fun _ _ ht => ⟨_, .mk, ht⟩

theorem yields_commaItems (hitem : ReadsItem first Item item) (hs : Reached first .clear row s)
    {n : Nat} (hn : first.tokens.length < n + row.length) :
    Reads first (commaItems stop item n) s fun as t =>
      ∃ trailing r, Listed (.punct .comma) Item trailing r as ∧
      (trailing = true → stop t.kind = true) ∧ Reached first .any (row ++ r) t := by
  induction n generalizing s row with
  | zero =>
    have hle := hs.length_le
    omega
  | succ n ih =>
    refine yields_peekKind ?_
    split
    · next hstop => exact yields_pure ⟨true, [], .nil, fun _ => hstop, by simpa using hs.any⟩
    · refine (hitem hs).bind ?_
      rintro a s₁ ⟨r, ha, hs₁⟩
      refine hs₁.accept nofun (fun _ c s₂ hs₂ => ?_) fun _ => ?_
      · refine (ih hs₂ (by simp; omega)).bind ?_
        rintro as t ⟨trailing, rest, has, hstop, ht⟩
        exact yields_pure ⟨trailing, _, .cons c ha has, hstop, by simpa using ht⟩
      · exact yields_pure ⟨false, r, .last ha, nofun, hs₁⟩

theorem yields_commaList (hitem : ReadsItem first Item item) (hs : Reached first .clear row s) :
    Reads first (commaList stop item) s fun as t =>
      ∃ trailing r, Listed (.punct .comma) Item trailing r as ∧
        (trailing = true → stop t.kind = true) ∧ Reached first .any (row ++ r) t := by
  have hle := hs.limit
  exact yields_limit (yields_commaItems hitem hs (by omega))

theorem yields_bracketed_listed {close : Punct} (hitem : ReadsItem first Item item)
    (hs : Reached first .clear row s) :
    Reads first (bracketed close item) s fun r t =>
      ∃ trailing r', Listed (.punct .comma) Item trailing r' r.1 ∧
      Reached first .any (row ++ (r' ++ [sign close r.2])) t := by
  refine (yields_commaList hitem hs).bind ?_
  rintro as s₁ ⟨trailing, r, has, -, hs₁⟩
  refine hs₁.expect nofun fun _ b t ht => yields_pure ⟨trailing, r, has, ?_⟩
  simpa [sign] using ht.any

end Lists

/-! ### Atoms -/

theorem yields_nameAtom {id : String} {a : Span} (htrue : id ≠ "True") (hfalse : id ≠ "False")
    (hs : Reached first edge (row ++ [.head id a]) s) :
    Reads first (nameAtom id a) s fun e t =>
      Reached first .any (row ++ [.operand 11 (.name id) e]) t := by
  have hreduce : ∀ {t : ParseState}, Reached first edge (row ++ [.head id a]) t →
      (∀ d ∈ Deprecation.functions, d.old = id → d ∈ t.notes) →
      Reads first (pure (Expr.name a id)) t fun e t =>
        Reached first .any (row ++ [.operand 11 (.name id) e]) t :=
    fun ht hd => yields_pure (ht.reduce fun notes hnotes =>
      .name htrue hfalse fun d hd' hid => hnotes (hd d hd' hid)).any
  have hencode : ⟨"_abi_encode", "abi_encode"⟩ ∈ Deprecation.known := by decide
  have hdecode : ⟨"_abi_decode", "abi_decode"⟩ ∈ Deprecation.known := by decide
  unfold nameAtom
  dsimp only
  split <;> split
  · exact hreduce ((hs.note hencode).note hdecode) (by simp [Deprecation.functions])
  · exact hreduce (hs.note hencode) (by simp_all [Deprecation.functions])
  · exact hreduce (hs.note hdecode) (by simp_all [Deprecation.functions])
  · exact hreduce hs (by simp_all [Deprecation.functions, eq_comm])

section Inside

variable (hinner : ReadsOperand first 0 inner)
include hinner

/-- What is read behind an opening parenthesis, together with the parenthesis. -/
theorem yields_parenthesized {a : Span} (hs : Reached first .clear (row ++ [sign .openParen a]) s) :
    Reads first (parenthesized inner a) s fun e t =>
      Reached first .any (row ++ [.operand 11 (.punct .openParen) e]) t := by
  refine hs.accept nofun (fun _ b t ht => yields_pure ?_) fun _ => ?_
  · exact (ht.reduce fun _ _ => .tuple .nil (.inl rfl)).any
  refine (hinner hs).bind fun e s₁ hs₁ => ?_
  refine hs₁.accept nofun (fun _ b t ht => yields_pure (ht.take .group).any) fun hopen => ?_
  refine hs₁.accept nofun (fun _ c s₂ hs₂ => ?_) fun _ => ?_
  · refine (yields_commaList hinner.readsItem hs₂).bind ?_
    rintro es s₃ ⟨trailing, r, hes, -, hs₃⟩
    refine hs₃.expect nofun fun _ b t ht => yields_pure ?_
    exact (ht.reduce fun _ _ => .tuple (.cons c .mk hes) (by cases hes <;> simp)).any
  · refine yields_pure_bind (hs₁.expect nofun fun hclose => absurd hclose hopen)

theorem readsItem_entry : ReadsItem first Pair (entry inner) := by
  intro row s hs
  refine (hinner hs).bind fun key s₁ hs₁ => ?_
  refine hs₁.expect nofun fun _ a s₂ hs₂ => ?_
  exact (hinner hs₂).bind fun value t ht => yields_pure ⟨_, .mk, ht.as⟩

theorem readsOperand_atom : ReadsOperand first 11 (atom inner) := by
  intro row s hs
  refine yields_peek ?_
  split
  · next id a hpeek =>
    rw [ParseState.kind_of_peek hpeek]
    have hword := (hs.shift hpeek nofun).any
    refine yields_advance ?_
    split
    · next hid =>
      subst hid
      exact yields_pure (hword.reduce fun _ _ => .truth true)
    split
    · next hid =>
      subst hid
      exact yields_pure (hword.reduce fun _ _ => .truth false)
    · next htrue hfalse => exact yields_nameAtom htrue hfalse (hs.shiftName hpeek)
  · next form text a hpeek =>
    rw [ParseState.kind_of_peek hpeek]
    exact yields_advance (yields_pure ((hs.shift hpeek nofun).any.reduce fun _ _ => .numeral))
  · next value a hpeek =>
    rw [ParseState.kind_of_peek hpeek]
    exact yields_advance (yields_pure ((hs.shift hpeek nofun).any.reduce fun _ _ => .str))
  · next value a hpeek =>
    rw [ParseState.kind_of_peek hpeek]
    exact yields_advance (yields_pure ((hs.shift hpeek nofun).any.reduce fun _ _ => .bytes))
  · next a hpeek =>
    rw [ParseState.kind_of_peek hpeek]
    exact yields_advance (yields_parenthesized hinner (hs.shift hpeek nofun))
  · next a hpeek =>
    rw [ParseState.kind_of_peek hpeek]
    refine yields_advance ((yields_bracketed_listed hinner.readsItem
      (hs.shift hpeek nofun)).bind ?_)
    rintro ⟨es, b⟩ t ⟨trailing, r, hes, ht⟩
    exact yields_pure (ht.reduce fun _ _ => .list hes)
  · next a hpeek =>
    rw [ParseState.kind_of_peek hpeek]
    refine yields_advance ((yields_bracketed_listed (readsItem_entry hinner)
      (hs.shift hpeek nofun)).bind ?_)
    rintro ⟨entries, b⟩ t ⟨trailing, r, hentries, ht⟩
    exact yields_pure (ht.reduce fun _ _ => .dict hentries)
  · exact hs.unexpected

theorem readsItem_argument : ReadsItem first Argument (argument inner) := by
  intro row s hs
  refine yields_peekKind (yields_peekSecond ?_)
  split
  · next hassign =>
    refine hs.identifier fun name a _ hs₁ => ?_
    have hkind : s.advance.kind = .punct .assign := by rw [s.kind_advance, hassign]
    have hsign := hs₁.shift (ParseState.peek_of_kind hkind) nofun
    refine yields_advance ((hinner hsign).bind fun value t ht => yields_pure ⟨_, .named, ?_⟩)
    exact ht.reduce fun _ _ => .keyword
  · exact (hinner hs).bind fun e t ht => yields_pure ⟨_, .positional, ht⟩

/-- Elements without brackets. A comma may stand behind the last where a line or a target ends. -/
theorem yields_expressionList (hs : Reached first .clear row s) :
    Reads first (expressionList inner) s fun e t => ∃ trailing,
      (trailing = true → (t.kind.endsLine || t.kind == .punct .assign) = true) ∧
      Reached first .any (row ++ [.listed trailing e]) t := by
  refine (hinner hs).bind fun e s₁ hs₁ => ?_
  refine hs₁.accept nofun (fun _ a s₂ hs₂ => ?_) fun _ => ?_
  · refine (yields_commaList hinner.readsItem hs₂).bind ?_
    rintro es t ⟨trailing, r, hes, hstop, ht⟩
    exact yields_pure ⟨trailing, hstop, ht.reduce fun _ _ => .bare hes⟩
  · exact yields_pure ⟨false, nofun, hs₁.take .single⟩

theorem yields_trailer {value : Expr} {k : TokenKind}
    (hs : Reached first .any (row ++ [.operand 11 k value]) s) :
    Reads first (trailer inner value) s fun r t => (r = none ∧ t = s) ∨
      ∃ longer, r = some longer ∧ Reached first .any (row ++ [.operand 11 k longer]) t := by
  refine yields_peekKind ?_
  split
  · next hkind =>
    have hdot := hs.shift (ParseState.peek_of_kind hkind) nofun
    refine yields_advance (hdot.identifier fun attr b _ ht => yields_pure (.inr ⟨_, rfl, ?_⟩))
    exact ht.any.reduce fun _ _ => .member
  · next hkind =>
    have hopen := hs.shift (ParseState.peek_of_kind hkind) nofun
    refine yields_advance ((yields_bracketed_listed (readsItem_argument hinner) hopen).bind ?_)
    rintro ⟨arguments, b⟩ t ⟨trailing, r, harguments, ht⟩
    exact yields_pure (.inr ⟨_, rfl, ht.reduce fun _ _ => .call harguments⟩)
  · next hkind =>
    have hopen := hs.shift (ParseState.peek_of_kind hkind) nofun
    refine yields_advance ((yields_expressionList hinner hopen).bind ?_)
    rintro slice s₁ ⟨trailing, hstop, hs₁⟩
    refine hs₁.expect nofun fun hclose b t ht => yields_pure (.inr ⟨_, rfl, ?_⟩)
    obtain rfl : trailing = false := by
      rw [hclose] at hstop
      simpa [TokenKind.endsLine] using hstop
    exact ht.any.reduce fun _ _ => .subscript
  · exact yields_pure (.inl ⟨rfl, rfl⟩)

theorem yields_trailersFrom {value : Expr} {k : TokenKind} (n : Nat)
    (hs : Reached first .any (row ++ [.operand 11 k value]) s) :
    Reads first (trailersFrom inner n value) s fun e t =>
      Reached first .any (row ++ [.operand 11 k e]) t := by
  induction n generalizing s value with
  | zero => exact yields_pure hs
  | succ n ih =>
    refine (yields_trailer hinner hs).bind ?_
    rintro _ t (⟨rfl, rfl⟩ | ⟨longer, rfl, ht⟩)
    · exact yields_pure hs
    · exact ih ht

theorem readsOperand_primary : ReadsOperand first 11 (primary inner) := fun _ _ hs =>
  (readsOperand_atom hinner hs).bind fun _ s₁ hs₁ =>
    yields_limit (yields_trailersFrom hinner s₁.limit hs₁)

end Inside

/-! ### Operators -/

section Operators

variable {operator : Parser (Option β)} {join : Expr → β → Expr → Expr}
  {Sign : β → List Token → Prop}

/-- A parser that puts the tokens of an operator onto the stack, if one comes next. -/
def ReadsOperator (first : ParseState) (Sign : β → List Token → Prop) (p : Parser (Option β)) :
    Prop :=
  ∀ ⦃row s⦄, Reached first .any row s → Reads first p s fun r t => (r = none ∧ t = s) ∨
    ∃ op ts, r = some op ∧ Sign op ts ∧ Reached first .clear (row ++ ts.map .token) t

theorem readsOperand_chain (hl : l ≤ 10) (hne : l ≠ 2)
    (hoperator : ReadsOperator first Sign operator) (hoperand : ReadsOperand first (l + 1) operand)
    (hjoin : ∀ {notes k left op ts k' right}, Sign op ts →
      Rule notes (.operand l k left :: ts.map .token ++ [.operand (l + 1) k' right])
        (.operand l k (join left op right))) :
    ReadsOperand first l (chain operator operand join) := by
  intro row s hs
  refine (hoperand.loosen hl hne hs).bind fun left s₁ hs₁ => yields_limit ?_
  generalize s₁.limit = n
  induction n generalizing s₁ left with
  | zero => exact yields_pure hs₁
  | succ n ih =>
    refine (hoperator hs₁).bind ?_
    rintro _ s₂ (⟨rfl, rfl⟩ | ⟨op, ts, rfl, hop, hs₂⟩)
    · exact yields_pure hs₁
    · exact (hoperand hs₂).bind fun right s₃ hs₃ => ih _ _ (hs₃.reduce fun _ _ => hjoin hop)

theorem readsOperator_binary (ops : List BinaryOp) :
    ReadsOperator first (fun op ts => op ∈ ops ∧ ∃ a, ts = [⟨.punct (.binary op), a⟩])
      (binaryOperator ops) := by
  intro row s hs
  refine yields_peekKind ?_
  split
  · next op hkind =>
    split
    · next hop =>
      have ht := hs.shift (ParseState.peek_of_kind hkind) nofun
      exact yields_advance (yields_pure (.inr ⟨op, [_], rfl, ⟨hop, _, rfl⟩, ht⟩))
    · exact yields_pure (.inl ⟨rfl, rfl⟩)
  · exact yields_pure (.inl ⟨rfl, rfl⟩)

/-- The tokens of a sign. -/
theorem kindsOf_of_signOf {k : TokenKind} {op : UnaryOp} (h : signOf k = some op) :
    Piece.kindsOf op.pieces = [k] ∧ op.level = 10 ∧ Edge.after k = .clear ∧ k ≠ .eof := by
  unfold signOf at h
  split at h <;> cases h <;> exact ⟨rfl, rfl, rfl, nofun⟩

theorem readsOperator_compare :
    ReadsOperator first (fun op ts => ts.map Token.kind = Piece.kindsOf op.pieces)
    compareOperator := by
  intro row s hs
  refine yields_peekKind ?_
  split
  · next r hkind =>
    have ht := hs.shift (ParseState.peek_of_kind hkind) nofun
    exact yields_advance (yields_pure (.inr ⟨_, [_], rfl, rfl, ht⟩))
  · next hkind =>
    have ht := hs.shift (ParseState.peek_of_kind hkind) nofun
    exact yields_advance (yields_pure (.inr ⟨_, [_], rfl, rfl, ht⟩))
  · next hkind =>
    refine yields_peekSecond ?_
    split
    · next hsecond =>
      have hnot := hs.shift (ParseState.peek_of_kind hkind) nofun
      have hin := hnot.shift (k := .name "in")
        (ParseState.peek_of_kind (by rw [s.kind_advance, hsecond])) nofun
      exact yields_advance (yields_advance (yields_pure (.inr ⟨_, [_, _], rfl, rfl, hin.as⟩)))
    · exact yields_pure (.inl ⟨rfl, rfl⟩)
  · exact yields_pure (.inl ⟨rfl, rfl⟩)

end Operators

section Levels

variable (hinner : ReadsOperand first 0 inner)
include hinner

theorem readsOperand_signedUpTo (n : Nat) : ReadsOperand first 10 (signedUpTo inner n) := by
  induction n with
  | zero => exact fun _ _ hs => hs.unexpected
  | succ n ih =>
    intro row s hs
    refine yields_peekKind ?_
    cases hsign : signOf s.kind with
    | some op =>
      obtain ⟨hpieces, hlevel, hedge, hne⟩ := kindsOf_of_signOf hsign
      have hs₁ := hs.shift (ParseState.peek_of_kind rfl) hne
      rw [hedge] at hs₁
      refine yields_advance ((ih hs₁).bind fun e t ht => yields_pure ?_)
      rw [← hlevel] at ht ⊢
      exact ht.reduce fun _ _ => .unary hpieces
    | none =>
      refine (readsOperand_primary hinner hs).bind fun base s₁ hs₁ => ?_
      refine hs₁.accept nofun (fun _ a s₂ hs₂ => ?_) fun _ => ?_
      · refine (ih hs₂).bind fun right t ht => yields_pure ?_
        exact ht.reduce fun _ _ => @Rule.binary _ .pow ..
      · exact yields_pure (hs₁.take (.loosen (by decide) nofun))

theorem readsOperand_levelParser (hl : 4 ≤ l ∧ l ≤ 10) :
    ReadsOperand first l (levelParser inner l) := by
  obtain ⟨d, hd⟩ : ∃ d, l + d = 10 := ⟨10 - l, by omega⟩
  induction d generalizing l with
  | zero =>
    obtain rfl : l = 10 := hd
    exact fun _ s hs => yields_limit (readsOperand_signedUpTo hinner (s.limit + 1) hs)
  | succ d ih =>
    have hbinary : 4 ≤ l ∧ l ≤ 9 := by omega
    rw [levelParser_binary hbinary]
    refine readsOperand_chain (by omega) (by omega) (readsOperator_binary _)
      (ih (by omega) (by omega)) ?_
    rintro notes k left op ts k' right ⟨hop, a, rfl⟩
    have hlevel := level_of_mem_operatorsAt hbinary hop
    have hrule : Rule notes [.operand op.leftLevel k left, sign (.binary op) a,
        .operand op.rightLevel k' right] (.operand op.level k (joinBinary left op right)) := .binary
    obtain ⟨hleft, hright⟩ : op.leftLevel = op.level ∧ op.rightLevel = op.level + 1 := by
      cases op with
      | pow => exact absurd (hlevel ▸ hbinary.2) (by decide)
      | _ => exact ⟨rfl, rfl⟩
    rwa [hleft, hright, hlevel] at hrule

theorem readsOperand_negationUpTo (n : Nat) : ReadsOperand first 2 (negationUpTo inner n) := by
  induction n with
  | zero => exact fun _ _ hs => hs.unexpected
  | succ n ih =>
    intro row s hs
    refine hs.accept nofun (fun hnot a s₁ hs₁ => ?_) fun hnot => ?_
    · rw [hnot]
      refine (ih hs₁).bind fun e t ht => yields_pure ?_
      exact ht.reduce fun _ _ => @Rule.unary _ .not _ _ _ _ rfl
    · have hcompare := readsOperand_chain (by decide) (by decide) readsOperator_compare
        (readsOperand_levelParser hinner (l := 4) (by decide)) fun h => .compare h
      exact (hcompare hs).mono fun e t ht => ht.take (.loosen (by decide) fun _ => hnot)

end Levels

theorem readsOperand_logical (op : BoolOp) (hoperand : ReadsOperand first (op.level + 1) operand) :
    ReadsOperand first op.level (logical op operand) := by
  have hrest : ∀ (n : Nat) {row s}, Reached first .any row s →
      Reads first (logicalRest op operand n) s fun es t =>
      (es = [] ∧ t = s) ∨ ∃ a r, Listed (.name op.text) (Operand (op.level + 1)) false r es ∧
        Reached first .any (row ++ word op.text a :: r) t := by
    intro n
    induction n with
    | zero => exact fun _ => yields_pure (.inl ⟨rfl, rfl⟩)
    | succ n ih =>
      intro row s hs
      refine hs.accept nofun (fun _ a s₁ hs₁ => ?_) fun _ => yields_pure (.inl ⟨rfl, rfl⟩)
      refine (hoperand hs₁).bind fun e s₂ hs₂ => (ih hs₂).bind ?_
      rintro es t (⟨rfl, rfl⟩ | ⟨b, r, hes, ht⟩)
      · exact yields_pure (.inr ⟨a, _, .last .mk, hs₂.as⟩)
      · exact yields_pure (.inr ⟨a, _, .cons b .mk hes, ht.as⟩)
  intro row s hs
  refine (hoperand hs).bind fun e s₁ hs₁ => yields_limit ((hrest s₁.limit hs₁).bind ?_)
  rintro es t (⟨rfl, rfl⟩ | ⟨a, r, hes, ht⟩)
  · exact yields_pure (hs₁.take (.loosen (by cases op <;> decide) fun h => by cases op <;> cases h))
  · cases hes with
    | last h => exact yields_pure (ht.reduce fun _ _ => .logical (.last h))
    | cons b h hes => exact yields_pure (ht.reduce fun _ _ => .logical (.cons b h hes))

theorem readsOperand_expressionUpTo (n : Nat) : ReadsOperand first 0 (expressionUpTo n) := by
  induction n with
  | zero => exact fun _ _ hs => hs.unexpected
  | succ n ih =>
    have hnegation : ReadsOperand first 2 (negation (expressionUpTo n)) := fun _ s hs =>
      yields_limit (readsOperand_negationUpTo ih (s.limit + 1) hs)
    exact readsOperand_logical .or (readsOperand_logical .and hnegation)

theorem readsOperand_expression : ReadsOperand first 0 expression := fun _ s hs =>
  yields_limit (readsOperand_expressionUpTo (s.limit + 1) hs)

theorem yields_expressions (hs : Reached first .clear row s) :
    Reads first expressions s fun e t =>
      ∃ trailing, Reached first .any (row ++ [.listed trailing e]) t :=
  (yields_expressionList readsOperand_expression hs).mono fun _ _ ⟨trailing, _, ht⟩ =>
    ⟨trailing, ht⟩

end Vyper.Grammar
