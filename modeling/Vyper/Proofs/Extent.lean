import Vyper.Proofs.Operands
import Vyper.Proofs.Progress

/-!
# How far an expression is read

An operand is read as far as it goes: what is next behind it is no operator of its level and none of
a tighter one (`Parser.GoesTo`). Behind a whole expression there is no operator at all
(`Parser.goesTo_expression`). The loops of the grammar run at most as often as the text has tokens;
that is often enough, for each round reads one.
-/

namespace Vyper

theorem ParseState.kind_eq_next (s : ParseState) : s.kind = Parser.next s.kinds :=
  Parser.kind_peek s

namespace Parser

open ParseState (Onward Ample)

variable {α β : Type} {s : ParseState} {inner : Parser Expr}

theorem yields_accept_onward (kind : TokenKind) :
    Returns (accept kind) s fun r t =>
      (r.isSome = true ∧ s.kind = kind ∧ t = s.advance) ∨ (r = none ∧ s.kind ≠ kind ∧ t = s) := by
  refine (yields_accept_peek kind).mono ?_
  rintro r t (⟨rfl, hk⟩ | h)
  · exact .inl ⟨rfl, hk⟩
  · exact .inr h

/-- Only the tokens of trailers bind as tightly as trailers. -/
theorem endsAt_of_no_trailer {rest : List TokenKind} (hdot : next rest ≠ .punct .dot)
    (hcall : next rest ≠ .punct .openParen) (hslice : next rest ≠ .punct .openBracket) :
    EndsAt 11 rest := by
  intro m hm
  unfold operatorLevel at hm
  split at hm
  case h_4 => split at hm <;> cases hm; decide
  case h_6 => next op _ => cases hm; cases op <;> decide
  case h_7 h => exact absurd h hdot
  case h_8 h => exact absurd h hcall
  case h_9 h => exact absurd h hslice
  all_goals
    cases hm
    try decide

/-- A trailer is read where its first token is next, and only there. -/
theorem yields_trailer_onward (hinner : ∀ s, Alike 1 s inner inner) (hs : s.Ample) (value : Expr) :
    Returns (trailer inner value) s fun r t =>
      (r.isSome = true ∧ s.Past 1 t) ∨ (r = none ∧ t = s ∧ EndsAt 11 s.kinds) := by
  have hends : Returns (trailer inner value) s fun r _ => r = none → EndsAt 11 s.kinds := by
    refine yields_peekKind ?_
    split
    · exact yields_advance ((yields_true _ _).bind fun _ _ _ => yields_pure (by simp))
    · exact yields_advance ((yields_true _ _).bind fun _ _ _ => yields_pure (by simp))
    · refine yields_advance ((yields_true _ _).bind fun _ _ _ => ?_)
      exact (yields_true _ _).bind fun _ _ _ => yields_pure (by simp)
    · next hdot hcall hslice =>
      rw [s.kind_eq_next] at hdot hcall hslice
      exact yields_pure fun _ => endsAt_of_no_trailer hdot hcall hslice
  refine ((tryAlike_trailer value (fun t _ => hinner t) hs).2.and hends).mono ?_
  rintro r t ⟨hsome | ⟨hnone, ht⟩, hends⟩
  · exact .inl hsome
  · exact .inr ⟨hnone, ht, hends hnone⟩

/-! ### Reading as far as it goes -/

/-- A parser of operands that leaves none of the operators from its level on. -/
def GoesTo (l : Nat) (p : Parser Expr) : Prop :=
  ∀ ⦃s : ParseState⦄, s.Ample → Returns p s fun _ t => s.Onward t ∧ EndsAt l t.kinds

theorem endsAt_of_tokens_nil {l : Nat} (h : s.tokens.length ≤ 0) : EndsAt l s.kinds := by
  have hnil : s.kinds = [] := by
    rw [ParseState.kinds, List.length_eq_zero_iff.mp (Nat.le_zero.mp h), List.map_nil]
  rw [hnil]
  exact endsAt_of_operatorLevel rfl

/-- An operand ends a level looser where no operator of that level is next. -/
theorem EndsAt.loosen {l : Nat} {rest : List TokenKind} (h : EndsAt (l + 1) rest)
    (hl : operatorLevel rest ≠ some l) : EndsAt l rest := by
  intro m hm
  have hlt := h m hm
  have hne : m ≠ l := by
    rintro rfl
    exact hl hm
  omega

/-- An operator of a level: it reads at least one token, or it is not next. -/
def Operates (l : Nat) (operator : Parser (Option β)) : Prop :=
  ∀ s : ParseState, Returns operator s fun r t =>
    (r.isSome = true ∧ s.Onward t ∧ t.tokens.length < s.tokens.length) ∨
      (r = none ∧ t = s ∧ operatorLevel s.kinds ≠ some l)

theorem goesTo_chainFrom {l : Nat} {operator : Parser (Option β)} {operand : Parser Expr}
    {join : Expr → β → Expr → Expr} (hoperator : Operates l operator)
    (hoperand : GoesTo (l + 1) operand) {n : Nat} (left : Expr) (hs : s.Ample)
    (hends : EndsAt (l + 1) s.kinds) (hn : s.tokens.length ≤ n) :
    Returns (chainFrom operator operand join n left) s fun _ t =>
      s.Onward t ∧ EndsAt l t.kinds := by
  induction n generalizing s left with
  | zero => exact yields_pure ⟨.refl s, endsAt_of_tokens_nil hn⟩
  | succ n ih =>
    refine (hoperator s).bind ?_
    rintro r s₁ (⟨hr, hs₁, hlt⟩ | ⟨rfl, rfl, hnext⟩)
    · obtain ⟨op, rfl⟩ := Option.isSome_iff_exists.mp hr
      refine (hoperand (hs₁.ample hs)).bind ?_
      rintro right s₂ ⟨hs₂, hends₂⟩
      have hon := hs₁.trans hs₂
      have hle := hs₂.length_le
      refine (ih _ (hon.ample hs) hends₂ (by omega)).mono ?_
      rintro e t ⟨ht, hendt⟩
      exact ⟨hon.trans ht, hendt⟩
    · exact yields_pure ⟨.refl _, hends.loosen hnext⟩

theorem goesTo_chain {l : Nat} {operator : Parser (Option β)} {operand : Parser Expr}
    {join : Expr → β → Expr → Expr} (hoperator : Operates l operator)
    (hoperand : GoesTo (l + 1) operand) : GoesTo l (chain operator operand join) := by
  intro s hs
  refine (hoperand hs).bind ?_
  rintro first s₁ ⟨hs₁, hends⟩
  have hample := hs₁.ample hs
  refine yields_limit ((goesTo_chainFrom hoperator hoperand first hample hends hample).mono ?_)
  rintro e t ⟨ht, hendt⟩
  exact ⟨hs₁.trans ht, hendt⟩

theorem goesTo_trailersFrom (hinner : ∀ s, Alike 1 s inner inner) {n : Nat} (value : Expr)
    (hs : s.Ample) (hn : s.tokens.length ≤ n) :
    Returns (trailersFrom inner n value) s fun _ t => s.Onward t ∧ EndsAt 11 t.kinds := by
  induction n generalizing s value with
  | zero => exact yields_pure ⟨.refl s, endsAt_of_tokens_nil hn⟩
  | succ n ih =>
    refine (yields_trailer_onward hinner hs value).bind ?_
    rintro r s₁ (⟨hr, hs₁, hread⟩ | ⟨rfl, rfl, hends⟩)
    · obtain ⟨longer, rfl⟩ := Option.isSome_iff_exists.mp hr
      refine (ih longer (hs₁.ample hs) (by omega)).mono ?_
      rintro e t ⟨ht, hendt⟩
      exact ⟨hs₁.trans ht, hendt⟩
    · exact yields_pure ⟨.refl _, hends⟩

theorem goesTo_primary (hinner : ∀ s, Alike 1 s inner inner) : GoesTo 11 (primary inner) := by
  intro s hs
  refine (alike_atom (fun t _ => hinner t) hs).2.bind fun value s₁ hs₁ => yields_limit ?_
  have hample := hs₁.1.ample hs
  refine (goesTo_trailersFrom hinner value hample hample).mono ?_
  rintro e t ⟨ht, hends⟩
  exact ⟨hs₁.1.trans ht, hends⟩

theorem operatorLevel_eq_ten {rest : List TokenKind} (h : operatorLevel rest = some 10) :
    next rest = .punct (.binary .pow) := by
  unfold operatorLevel at h
  split at h
  case h_4 => split at h <;> cases h
  case h_6 hop => rename_i op; cases op <;> first | exact hop | cases h
  all_goals cases h

theorem goesTo_signedUpTo (hinner : ∀ s, Alike 1 s inner inner) (n : Nat) :
    GoesTo 10 (signedUpTo inner n) := by
  induction n with
  | zero => exact fun _ _ => yields_unexpected (fun _ => trivial) _
  | succ n ih =>
    intro s hs
    refine yields_peekKind ?_
    cases signOf s.kind with
    | some op =>
      refine yields_advance ((ih (s.onward_advance.ample hs)).bind ?_)
      rintro operand s₁ ⟨hs₁, hends⟩
      exact yields_pure ⟨s.onward_advance.trans hs₁, hends⟩
    | none =>
      refine (goesTo_primary hinner hs).bind ?_
      rintro base s₁ ⟨hs₁, hends⟩
      refine (yields_accept_onward _).bind ?_
      rintro r s₂ (⟨hr, -, rfl⟩ | ⟨rfl, hkind, rfl⟩)
      · obtain ⟨place, rfl⟩ := Option.isSome_iff_exists.mp hr
        have hs₂ := hs₁.trans s₁.onward_advance
        refine (ih (hs₂.ample hs)).bind ?_
        rintro exponent s₃ ⟨hs₃, hends₃⟩
        exact yields_pure ⟨hs₂.trans hs₃, hends₃⟩
      · refine yields_pure ⟨hs₁, hends.loosen fun hten => hkind ?_⟩
        rw [s₂.kind_eq_next]
        exact operatorLevel_eq_ten hten

theorem goesTo_signed (hinner : ∀ s, Alike 1 s inner inner) : GoesTo 10 (signed inner) :=
  fun s hs => yields_limit (goesTo_signedUpTo hinner (s.limit + 1) hs)

/-- Between the levels 4 and 9 stand the operators of the table of binary levels. -/
theorem operates_binaryOperator {l : Nat} (hl : 4 ≤ l ∧ l ≤ 9) :
    Operates l (binaryOperator (operatorsAt l)) := by
  intro s
  refine yields_peekKind ?_
  have hlevel : ∀ {op : BinaryOp}, operatorLevel s.kinds = some l → s.kind = .punct (.binary op) →
      op.level = l := by
    intro op h hkind
    rw [s.kind_eq_next] at hkind
    simpa [operatorLevel, hkind] using h
  split
  · next op hkind =>
    split
    · have hne : s.kind ≠ .eof := by simp [hkind]
      exact yields_advance (yields_pure (.inl ⟨rfl, s.onward_advance,
        ParseState.length_advance_lt hne⟩))
    · next hmem =>
      refine yields_pure (.inr ⟨rfl, rfl, fun h => hmem ?_⟩)
      have hop := hlevel h hkind
      have hpow : op ≠ .pow := by
        rintro rfl
        have hten : (10 : Nat) = l := hop
        omega
      rw [← hop]
      exact mem_operatorsAt hpow
  · next hkind =>
    refine yields_pure (.inr ⟨rfl, rfl, fun h => ?_⟩)
    rw [s.kind_eq_next] at hkind
    unfold operatorLevel at h
    split at h
    case h_4 => split at h <;> cases h; omega
    case h_6 op hop => exact hkind op hop
    all_goals
      cases h
      try omega

theorem goesTo_levelParser {l : Nat} (hl : 4 ≤ l ∧ l ≤ 10) (hinner : ∀ s, Alike 1 s inner inner) :
    GoesTo l (levelParser inner l) := by
  obtain ⟨d, hd⟩ : ∃ d, l + d = 10 := ⟨10 - l, by omega⟩
  induction d generalizing l with
  | zero =>
    obtain rfl : l = 10 := hd
    exact goesTo_signed hinner
  | succ d ih =>
    have hbinary : 4 ≤ l ∧ l ≤ 9 := by omega
    rw [levelParser_binary hbinary]
    exact goesTo_chain (operates_binaryOperator hbinary) (ih (by omega) (by omega))

theorem operates_compareOperator : Operates 3 compareOperator := by
  intro s
  have hread : ∀ {kind : TokenKind}, s.kind = kind → kind ≠ .eof →
      s.advance.tokens.length < s.tokens.length := by
    rintro _ rfl hne
    exact ParseState.length_advance_lt hne
  refine yields_peekKind ?_
  split
  · next hkind =>
    exact yields_advance (yields_pure (.inl ⟨rfl, s.onward_advance, hread hkind nofun⟩))
  · next hkind =>
    exact yields_advance (yields_pure (.inl ⟨rfl, s.onward_advance, hread hkind nofun⟩))
  · next hkind =>
    refine yields_peekSecond ?_
    split
    · have hon := s.onward_advance.trans s.advance.onward_advance
      have hlt := hread hkind nofun
      have hle := s.advance.onward_advance.length_le
      exact yields_advance (yields_advance (yields_pure (.inl ⟨rfl, hon, by omega⟩)))
    · next hsecond =>
      refine yields_pure (.inr ⟨rfl, rfl, ?_⟩)
      rw [s.kind_eq_next] at hkind
      rw [kind_peek_one] at hsecond
      simp [operatorLevel, hkind, hsecond]
  · next hrelation hin hnot =>
    refine yields_pure (.inr ⟨rfl, rfl, fun h => ?_⟩)
    rw [s.kind_eq_next] at hrelation hin hnot
    unfold operatorLevel at h
    split at h
    case h_3 hk => exact hin hk
    case h_4 hk => exact hnot hk
    case h_5 r hk => exact hrelation r hk
    case h_6 op hk => cases op <;> cases h
    all_goals cases h

theorem goesTo_comparison (hinner : ∀ s, Alike 1 s inner inner) : GoesTo 3 (comparison inner) :=
  goesTo_chain operates_compareOperator (goesTo_levelParser (by decide) hinner)

/-- No operator has the level of a negation: it stands before its operand. -/
theorem operatorLevel_ne_two (rest : List TokenKind) : operatorLevel rest ≠ some 2 := by
  intro h
  unfold operatorLevel at h
  split at h
  case h_4 => split at h <;> cases h
  case h_6 op hk => cases op <;> cases h
  all_goals cases h

theorem goesTo_negationUpTo (hinner : ∀ s, Alike 1 s inner inner) (n : Nat) :
    GoesTo 2 (negationUpTo inner n) := by
  induction n with
  | zero => exact fun _ _ => yields_unexpected (fun _ => trivial) _
  | succ n ih =>
    intro s hs
    refine (yields_accept_onward _).bind ?_
    rintro r s₁ (⟨hr, -, rfl⟩ | ⟨rfl, -, rfl⟩)
    · obtain ⟨start, rfl⟩ := Option.isSome_iff_exists.mp hr
      refine (ih (s.onward_advance.ample hs)).bind ?_
      rintro operand s₂ ⟨hs₂, hends⟩
      exact yields_pure ⟨s.onward_advance.trans hs₂, hends⟩
    · refine (goesTo_comparison hinner hs).mono ?_
      rintro e t ⟨ht, hends⟩
      exact ⟨ht, hends.loosen (operatorLevel_ne_two _)⟩

theorem goesTo_negation (hinner : ∀ s, Alike 1 s inner inner) : GoesTo 2 (negation inner) :=
  fun s hs => yields_limit (goesTo_negationUpTo hinner (s.limit + 1) hs)

theorem next_of_operatorLevel {op : BoolOp} {rest : List TokenKind}
    (h : operatorLevel rest = some op.level) : next rest = .name op.text := by
  unfold operatorLevel at h
  split at h
  case h_1 hk => cases op <;> first | exact hk | cases h
  case h_2 hk => cases op <;> first | exact hk | cases h
  case h_4 => split at h <;> cases op <;> cases h
  case h_6 p hk => cases p <;> cases op <;> cases h
  all_goals cases op <;> cases h

theorem goesTo_logicalRest {op : BoolOp} {operand : Parser Expr}
    (hoperand : GoesTo (op.level + 1) operand) {n : Nat} (hs : s.Ample)
    (hends : EndsAt (op.level + 1) s.kinds) (hn : s.tokens.length ≤ n) :
    Returns (logicalRest op operand n) s fun _ t => s.Onward t ∧ EndsAt op.level t.kinds := by
  induction n generalizing s with
  | zero => exact yields_pure ⟨.refl s, endsAt_of_tokens_nil hn⟩
  | succ n ih =>
    refine (yields_accept_onward _).bind ?_
    rintro r s₁ (⟨hr, hkind, rfl⟩ | ⟨rfl, hkind, rfl⟩)
    · obtain ⟨word, rfl⟩ := Option.isSome_iff_exists.mp hr
      refine (hoperand (s.onward_advance.ample hs)).bind ?_
      rintro value s₂ ⟨hs₂, hends₂⟩
      have hon := s.onward_advance.trans hs₂
      have hle := hs₂.length_le
      have hlt := ParseState.length_advance_lt (s := s) (by rw [hkind]; nofun)
      refine (ih (hon.ample hs) hends₂ (by omega)).bind ?_
      rintro more s₃ ⟨hs₃, hends₃⟩
      exact yields_pure ⟨hon.trans hs₃, hends₃⟩
    · refine yields_pure ⟨.refl _, hends.loosen fun h => hkind ?_⟩
      rw [s₁.kind_eq_next]
      exact next_of_operatorLevel h

theorem goesTo_logical (op : BoolOp) {operand : Parser Expr}
    (hoperand : GoesTo (op.level + 1) operand) : GoesTo op.level (logical op operand) := by
  intro s hs
  refine (hoperand hs).bind ?_
  rintro first s₁ ⟨hs₁, hends⟩
  have hample := hs₁.ample hs
  refine yields_limit ((goesTo_logicalRest hoperand hample hends hample).bind ?_)
  rintro more s₂ ⟨hs₂, hends₂⟩
  split
  · exact yields_pure ⟨hs₁.trans hs₂, hends₂⟩
  · exact yields_pure ⟨hs₁.trans hs₂, hends₂⟩

theorem goesTo_expressionUpTo (n : Nat) : GoesTo 0 (expressionUpTo n) := by
  induction n with
  | zero => exact fun _ _ => yields_unexpected (fun _ => trivial) _
  | succ n ih =>
    have hand : GoesTo 1 (logical .and (negation (expressionUpTo n))) :=
      goesTo_logical .and (goesTo_negation fun _ => alike_expressionUpTo n)
    exact goesTo_logical .or hand

/-- Behind an expression there is no operator. -/
theorem goesTo_expression : GoesTo 0 expression :=
  fun s hs => yields_limit (goesTo_expressionUpTo (s.limit + 1) hs)

theorem EndsAt.operatorLevel_eq_none {rest : List TokenKind} (h : EndsAt 0 rest) :
    operatorLevel rest = none := by
  cases hlevel : operatorLevel rest with
  | none => rfl
  | some l => exact absurd (h l hlevel) (Nat.not_lt_zero l)

end Parser

end Vyper
