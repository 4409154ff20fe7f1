import Vyper.Proofs.Printing
import Vyper.Proofs.Reading

/-!
# Levels of the expression grammar

Which parser reads an operand at each level of precedence, and what each of them does with tokens
that the next tighter level reads: it passes them on. What stops a level is the operator that comes
next. A level takes the operators of its own and of all tighter levels, so it reads exactly `ks`
when the tokens after `ks` go on with a looser operator or with none (`EndsAt`).

`ReadsAt.descend` goes from a level to all looser ones. The levels that loop over their operators
also say how they stand in the middle of the loop (`ReachesAt`).
-/

namespace Vyper

/-- The same tree at another place. -/
def Expr.Like (e a : Expr) : Prop := a.unplaced = e.unplaced

namespace Parser

/-- The level of the operator that the tokens go on with. -/
def operatorLevel (rest : List TokenKind) : Option Nat :=
  match next rest with
  | .name "or" => some 0
  | .name "and" => some 1
  | .name "in" => some 3
  | .name "not" => if next rest.tail = .name "in" then some 3 else none
  | .punct (.relation _) => some 3
  | .punct (.binary op) => some op.level
  | .punct .dot | .punct .openParen | .punct .openBracket => some 11
  | _ => none

/-- An operand of a level ends before these tokens. -/
def EndsAt (l : Nat) (rest : List TokenKind) : Prop := ∀ m ∈ operatorLevel rest, m < l

theorem EndsAt.mono {l m : Nat} {rest : List TokenKind} (h : EndsAt l rest) (hlm : l ≤ m) :
    EndsAt m rest :=
  fun k hk => Nat.lt_of_lt_of_le (h k hk) hlm

/-- The parser of each level. -/
def levelParser (inner : Parser Expr) : Nat → Parser Expr
  | 0 => expressionOver inner
  | 1 => logical .and (negation inner)
  | 2 => negation inner
  | 3 => comparison inner
  | 11 => primary inner
  | l => binaryOver inner (binaryLevels.drop (l - 4))

/-- The parser of each level, with at most `n` operators before one operand. -/
def levelUpTo (inner : Parser Expr) (n : Nat) : Nat → Parser Expr
  | 2 => negationUpTo inner n
  | 10 => signedUpTo inner n
  | l => levelParser inner l

/-- The operators of a binary level. -/
def operatorsAt (l : Nat) : List BinaryOp := binaryLevels.getD (l - 4) []

def joinCompare (left : Expr) (op : CompareOp) (right : Expr) : Expr :=
  .compare (left.span.cover right.span) left op right

/-- The loop of a level that has one. -/
def levelLoop (inner : Parser Expr) : Nat → Nat → Expr → Parser Expr
  | 3 => chainFrom compareOperator (binary inner) joinCompare
  | 11 => trailersFrom inner
  | l => chainFrom (binaryOperator (operatorsAt l)) (levelParser inner (l + 1)) joinBinary

/-- The levels that loop over their operators. -/
def Loops (l : Nat) : Prop := (3 ≤ l ∧ l ≤ 9) ∨ l = 11

instance (l : Nat) : Decidable (Loops l) := inferInstanceAs (Decidable (_ ∨ _))

/-- At a level the tokens are read as the expression. -/
def ReadsAt (inner : Parser Expr) (l : Nat) (ks : List TokenKind) (e : Expr) : Prop :=
  ∀ n rest, ks.length ≤ n → EndsAt l rest → Reads (levelUpTo inner n l) ks rest e.Like

/-- At a level the tokens are read as the expression that a further round of the loop starts from.
-/
def ReachesAt (inner : Parser Expr) (l : Nat) (ks : List TokenKind) (e : Expr) : Prop :=
  ∀ rest, EndsAt (l + 1) rest → Reaches (levelParser inner l) (levelLoop inner l) ks rest e.Like

variable {inner : Parser Expr} {ks ls rest : List TokenKind} {e : Expr}

/-! ### Operators -/

theorem reads_compareOperator_nil (h : EndsAt 3 rest) :
    Reads compareOperator [] rest fun o => o = none := by
  refine (reads_peekKind _).look ?_
  rintro _ rfl
  rw [List.nil_append]
  split
  · next r hk => exact absurd (h 3 (by simp [operatorLevel, hk])) (by decide)
  · next hk => exact absurd (h 3 (by simp [operatorLevel, hk])) (by decide)
  · next hk =>
    refine (reads_peekSecond _).look ?_
    rintro _ rfl
    rw [List.nil_append]
    split
    · next hin => exact absurd (h 3 (by simp [operatorLevel, hk, hin])) (by decide)
    · exact reads_pure (by rfl) rest
  · exact reads_pure (by rfl) rest

theorem reads_binaryOperator_nil {l : Nat} {ops : List BinaryOp} (hops : ∀ op ∈ ops, op.level = l)
    (h : EndsAt l rest) : Reads (binaryOperator ops) [] rest fun o => o = none := by
  refine (reads_peekKind _).look ?_
  rintro _ rfl
  rw [List.nil_append]
  split
  · next op hk =>
    have hlt : op.level < l := h op.level (by simp [operatorLevel, hk])
    have hmem : op ∉ ops := fun hmem => by
      rw [hops op hmem] at hlt
      omega
    rw [if_neg hmem]
    exact reads_pure (by rfl) rest
  · exact reads_pure (by rfl) rest

theorem reads_trailer_nil (h : EndsAt 11 rest) (value : Expr) :
    Reads (trailer inner value) [] rest fun o => o = none := by
  refine (reads_peekKind _).look ?_
  rintro _ rfl
  rw [List.nil_append]
  split
  · next hk => exact absurd (h 11 (by simp [operatorLevel, hk])) (by decide)
  · next hk => exact absurd (h 11 (by simp [operatorLevel, hk])) (by decide)
  · next hk => exact absurd (h 11 (by simp [operatorLevel, hk])) (by decide)
  · exact reads_pure (by rfl) rest

theorem reads_binaryOperator {op : BinaryOp} {ops : List BinaryOp} (h : op ∈ ops)
    (rest : List TokenKind) :
    Reads (binaryOperator ops) [.punct (.binary op)] rest fun o => o = some op := by
  refine reads_peekKind_cons ?_
  change Reads (if op ∈ ops then _ else _) _ _ _
  rw [if_pos h]
  refine (reads_advance _ rest).finish ?_
  intro t _
  exact reads_pure (by rfl) rest

theorem reads_compareOperator (op : CompareOp) (rest : List TokenKind) :
    Reads compareOperator (Piece.kindsOf op.pieces) rest fun o => o = some op := by
  cases op with
  | relation r =>
    refine reads_peekKind_cons ?_
    refine (reads_advance (.punct (.relation r)) rest).finish ?_
    intro t _
    exact reads_pure (by rfl) rest
  | isIn =>
    refine reads_peekKind_cons ?_
    refine (reads_advance (.name "in") rest).finish ?_
    intro t _
    exact reads_pure (by rfl) rest
  | notIn =>
    refine reads_peekKind_cons ?_
    refine (reads_peekSecond _).look ?_
    rintro _ rfl
    refine (reads_advance (.name "not") _).cons ?_
    intro t _
    refine (reads_advance (.name "in") rest).finish ?_
    intro u _
    exact reads_pure (by rfl) rest

theorem EndsAt.next_ne {op : BoolOp} (h : EndsAt op.level rest) : next rest ≠ .name op.text := by
  intro hk
  cases op with
  | or => exact absurd (h 0 (by simp [operatorLevel, hk, BoolOp.text])) (by decide)
  | and => exact absurd (h 1 (by simp [operatorLevel, hk, BoolOp.text])) (by decide)

theorem endsAt_boolOp (op : BoolOp) (ks : List TokenKind) :
    EndsAt (op.level + 1) (.name op.text :: ks) := by
  intro m hm
  cases op <;> cases hm <;> decide

/-! ### The parser of a level -/

theorem levelUpTo_eq {l : Nat} (hnot : l ≠ 2) (hsign : l ≠ 10) (n : Nat) :
    levelUpTo inner n l = levelParser inner l := by
  unfold levelUpTo
  split
  · exact absurd rfl hnot
  · exact absurd rfl hsign
  · rfl

theorem ReadsAt.reads {l : Nat} (h : ReadsAt inner l ks e) (hrest : EndsAt l rest) :
    Reads (levelParser inner l) ks rest e.Like := by
  by_cases hnot : l = 2
  · subst hnot
    refine (reads_limit _).look ?_
    intro n hn
    rw [List.length_append] at hn
    exact h (n + 1) rest (by omega) hrest
  · by_cases hsign : l = 10
    · subst hsign
      refine (reads_limit _).look ?_
      intro n hn
      rw [List.length_append] at hn
      exact h (n + 1) rest (by omega) hrest
    · have hks := h ks.length rest (Nat.le_refl _) hrest
      rwa [levelUpTo_eq hnot hsign] at hks

theorem levelParser_binary {l : Nat} (hl : 4 ≤ l ∧ l ≤ 9) :
    levelParser inner l =
      chain (binaryOperator (operatorsAt l)) (levelParser inner (l + 1)) joinBinary := by
  obtain rfl | rfl | rfl | rfl | rfl | rfl :
    l = 4 ∨ l = 5 ∨ l = 6 ∨ l = 7 ∨ l = 8 ∨ l = 9 := by omega
  all_goals rfl

theorem levelLoop_binary {l : Nat} (hl : 4 ≤ l ∧ l ≤ 9) :
    levelLoop inner l =
      chainFrom (binaryOperator (operatorsAt l)) (levelParser inner (l + 1)) joinBinary := by
  unfold levelLoop
  split
  · omega
  · omega
  · rfl

theorem level_of_mem_operatorsAt {l : Nat} {op : BinaryOp} (hl : 4 ≤ l ∧ l ≤ 9)
    (h : op ∈ operatorsAt l) : op.level = l := by
  obtain rfl | rfl | rfl | rfl | rfl | rfl :
    l = 4 ∨ l = 5 ∨ l = 6 ∨ l = 7 ∨ l = 8 ∨ l = 9 := by omega
  all_goals
    revert h
    cases op <;> decide

theorem mem_operatorsAt {op : BinaryOp} (h : op ≠ .pow) : op ∈ operatorsAt op.level := by
  cases op <;> first | exact absurd rfl h | decide

theorem ReadsAt.reachesAt {l : Nat} (hl : 3 ≤ l ∧ l ≤ 9) (h : ReadsAt inner (l + 1) ks e) :
    ReachesAt inner l ks e := by
  intro rest hrest
  have hfirst := h.reads hrest
  by_cases hcompare : l = 3
  · subst hcompare
    exact hfirst.reaches
  · have hbinary : 4 ≤ l ∧ l ≤ 9 := by omega
    rw [levelParser_binary hbinary, levelLoop_binary hbinary]
    exact hfirst.reaches

theorem reads_trailersFrom_nil (h : EndsAt 11 rest) (n : Nat) (value : Expr) :
    Reads (trailersFrom inner n value) [] rest fun a => a = value := by
  cases n with
  | zero => exact reads_pure (by rfl) rest
  | succ n =>
    refine (reads_trailer_nil h value).finish ?_
    rintro _ rfl
    exact reads_pure (by rfl) rest

/-- Where the loop of a level has no further operator, it ends with the value it has. -/
theorem reads_levelLoop_nil {l : Nat} (hl : Loops l) (h : EndsAt l rest) (n : Nat) (value : Expr) :
    Reads (levelLoop inner l n value) [] rest fun a => a = value := by
  rcases hl with hl | rfl
  · by_cases hcompare : l = 3
    · subst hcompare
      exact reads_chainFrom_nil (reads_compareOperator_nil h) n value
    · have hbinary : 4 ≤ l ∧ l ≤ 9 := by omega
      rw [levelLoop_binary hbinary]
      have hops : ∀ op ∈ operatorsAt l, op.level = l :=
        fun op hop => level_of_mem_operatorsAt hbinary hop
      exact reads_chainFrom_nil (reads_binaryOperator_nil hops h) n value
  · exact reads_trailersFrom_nil h n value

theorem ReachesAt.readsAt {l : Nat} (hl : Loops l) (h : ReachesAt inner l ks e) :
    ReadsAt inner l ks e := by
  intro n rest _ hrest
  have hne : l ≠ 2 ∧ l ≠ 10 := by
    rcases hl with hl | rfl <;> omega
  rw [levelUpTo_eq hne.1 hne.2]
  refine (h rest (hrest.mono (Nat.le_succ l))).reads ?_
  intro m a ha
  exact (reads_levelLoop_nil hl hrest m a).mono fun b hb => by rwa [hb]

/-! ### From a level to the looser ones -/

/-- Whether an expression can begin with this token. -/
def opensExpression : TokenKind → Bool
  | .name _ | .numeral .. | .str _ | .bytes _ => true
  | .punct p => p ∈ [.openParen, .openBracket, .openBrace, .tilde, .binary .add, .binary .sub]
  | _ => false

/-- How the tokens of an operand of a level begin: those of a comparison not with `not`, those
without an operator not with a sign, and none like a named argument. -/
structure StartsAt (l : Nat) (ks : List TokenKind) : Prop where
  opens : opensExpression (next ks)
  second : next ks.tail ≠ .punct .assign
  not : 3 ≤ l → next ks ≠ .name "not"
  sign : 11 ≤ l → signOf (next ks) = none

theorem StartsAt.mono {l m : Nat} (h : StartsAt m ks) (hlm : l ≤ m) : StartsAt l ks :=
  ⟨h.opens, h.second, fun hl => h.not (Nat.le_trans hl hlm), fun hl => h.sign (Nat.le_trans hl hlm)⟩

theorem StartsAt.ne_nil {l : Nat} (h : StartsAt l ks) : ks ≠ [] := by
  rintro rfl
  cases h.opens

theorem StartsAt.next_ne {l : Nat} (h : StartsAt l ks) {k : TokenKind}
    (hk : opensExpression k = false) : next ks ≠ k := by
  rintro rfl
  rw [h.opens] at hk
  cases hk

theorem EndsAt.next_ne_pow (h : EndsAt 10 rest) : next rest ≠ .punct (.binary .pow) := by
  intro hk
  exact absurd (h 10 (by simp [operatorLevel, hk, BinaryOp.level])) (by decide)

/-- Signs and powers pass on what has neither. -/
theorem ReadsAt.signed (h : ReadsAt inner 11 ks e) (hne : ks ≠ [])
    (hsign : signOf (next ks) = none) : ReadsAt inner 10 ks e := by
  intro n rest hn hrest
  have hpos := List.length_pos_iff.2 hne
  obtain ⟨m, rfl⟩ : ∃ m, n = m + 1 := ⟨n - 1, by omega⟩
  refine (reads_peekKind _).look ?_
  rintro _ rfl
  rw [next_append hne, hsign]
  refine (h.reads (hrest.mono (by omega))).finish ?_
  intro base hbase
  refine (reads_accept_none hrest.next_ne_pow).finish ?_
  rintro _ rfl
  exact reads_pure (by exact hbase) rest

/-- Negations pass on what has none. -/
theorem ReadsAt.negation (h : ReadsAt inner 3 ks e) (hne : ks ≠ []) (hnot : next ks ≠ .name "not") :
    ReadsAt inner 2 ks e := by
  intro n rest hn hrest
  have hpos := List.length_pos_iff.2 hne
  obtain ⟨m, rfl⟩ : ∃ m, n = m + 1 := ⟨n - 1, by omega⟩
  rw [← next_append hne rest] at hnot
  refine (reads_accept_none hnot).look ?_
  rintro _ rfl
  exact h.reads (hrest.mono (by omega))

theorem reads_logicalRest_nil {op : BoolOp} (h : EndsAt op.level rest) (operand : Parser Expr)
    (n : Nat) : Reads (logicalRest op operand n) [] rest fun as => as = [] := by
  cases n with
  | zero => exact reads_pure (by rfl) rest
  | succ n =>
    refine (reads_accept_none h.next_ne).finish ?_
    rintro _ rfl
    exact reads_pure (by rfl) rest

/-- A boolean operator passes on what has none of its level. -/
theorem reads_logical_of_operand {op : BoolOp} {operand : Parser Expr}
    (h : Reads operand ks rest e.Like) (hrest : EndsAt op.level rest) :
    Reads (logical op operand) ks rest e.Like := by
  refine h.finish ?_
  intro first hfirst
  refine (reads_limit _).finish ?_
  intro n _
  refine (reads_logicalRest_nil hrest operand n).finish ?_
  rintro _ rfl
  exact reads_pure (by exact hfirst) rest

theorem ReadsAt.loosen {l : Nat} (hl : l ≤ 10) (h : ReadsAt inner (l + 1) ks e)
    (hstart : StartsAt (l + 1) ks) : ReadsAt inner l ks e := by
  by_cases hloop : 3 ≤ l ∧ l ≤ 9
  · exact (h.reachesAt hloop).readsAt (.inl hloop)
  · obtain rfl | rfl | rfl | rfl : l = 0 ∨ l = 1 ∨ l = 2 ∨ l = 10 := by omega
    · exact fun n rest _ hrest =>
        reads_logical_of_operand (h.reads (hrest.mono (Nat.zero_le 1))) hrest
    · exact fun n rest _ hrest =>
        reads_logical_of_operand (h.reads (hrest.mono (by omega))) hrest
    · exact h.negation hstart.ne_nil (hstart.not (Nat.le_refl 3))
    · exact h.signed hstart.ne_nil (hstart.sign (Nat.le_refl 11))

/-- What a level reads, all looser levels read. -/
theorem ReadsAt.descend {l m : Nat} (hlm : l ≤ m) (hm : m ≤ 11) (h : ReadsAt inner m ks e)
    (hstart : StartsAt m ks) : ReadsAt inner l ks e := by
  obtain ⟨d, rfl⟩ := Nat.exists_eq_add_of_le hlm
  induction d with
  | zero => exact h
  | succ d ih =>
    have hstep : ReadsAt inner (l + d) ks e := h.loosen (by omega) hstart
    exact ih (by omega) (by omega) hstep (hstart.mono (by omega))

/-! ### One operator -/

variable {left right : Expr} {span : Span}

theorem endsAt_compareOp (op : CompareOp) (ks : List TokenKind) :
    EndsAt 4 (Piece.kindsOf op.pieces ++ ks) := by
  intro m hm
  cases op <;> cases hm <;> decide

theorem endsAt_binaryOp (op : BinaryOp) (ks : List TokenKind) :
    EndsAt (op.level + 1) (.punct (.binary op) :: ks) := by
  intro m hm
  cases hm
  exact Nat.lt_succ_self _

theorem kindsOf_compareOp_ne_nil (op : CompareOp) : Piece.kindsOf op.pieces ≠ [] := by
  cases op <;> exact List.cons_ne_nil _ _

/-- A comparison is joined to the left. -/
theorem ReachesAt.compare (hleft : ReachesAt inner 3 ks left) (op : CompareOp)
    (hright : ReadsAt inner 4 ls right) :
    ReachesAt inner 3 (ks ++ (Piece.kindsOf op.pieces ++ ls)) (.compare span left op right) := by
  intro rest hrest
  have hstart : EndsAt 4 (Piece.kindsOf op.pieces ++ ls ++ rest) := by
    rw [List.append_assoc]
    exact endsAt_compareOp op _
  refine (hleft _ hstart).step ?_
  intro n a hn ha
  refine (reaches_chainFrom (kindsOf_compareOp_ne_nil op) (reads_compareOperator op (ls ++ rest))
    (hright.reads hrest) a hn).mono ?_
  rintro b ⟨c, hc, rfl⟩
  change Expr.compare _ a.unplaced op c.unplaced = Expr.compare _ left.unplaced op right.unplaced
  rw [ha, hc]

/-- A binary operator other than the power is joined to the left. -/
theorem ReachesAt.binary {op : BinaryOp} (hop : op ≠ .pow)
    (hleft : ReachesAt inner op.level ks left) (hright : ReadsAt inner (op.level + 1) ls right) :
    ReachesAt inner op.level (ks ++ .punct (.binary op) :: ls) (.binary span left op right) := by
  have hlevel : 4 ≤ op.level ∧ op.level ≤ 9 := by
    cases op <;> first | exact absurd rfl hop | decide
  intro rest hrest
  refine (hleft _ (endsAt_binaryOp op (ls ++ rest))).step ?_
  intro n a hn ha
  rw [levelLoop_binary hlevel]
  refine (reaches_chainFrom (List.cons_ne_nil _ [])
    (reads_binaryOperator (mem_operatorsAt hop) (ls ++ rest)) (hright.reads hrest) a hn).mono ?_
  rintro b ⟨c, hc, rfl⟩
  change Expr.binary _ a.unplaced op c.unplaced = Expr.binary _ left.unplaced op right.unplaced
  rw [ha, hc]

/-- A power is joined to the right, and its exponent may have a sign. -/
theorem ReadsAt.pow (hleft : ReadsAt inner 11 ks left) (hne : ks ≠ [])
    (hsign : signOf (next ks) = none) (hright : ReadsAt inner 10 ls right) :
    ReadsAt inner 10 (ks ++ .punct (.binary .pow) :: ls) (.binary span left .pow right) := by
  intro n rest hn hrest
  have hpos := List.length_pos_iff.2 hne
  rw [List.length_append, List.length_cons] at hn
  obtain ⟨m, rfl⟩ : ∃ m, n = m + 1 := ⟨n - 1, by omega⟩
  refine (reads_peekKind _).look ?_
  rintro _ rfl
  rw [List.append_assoc, next_append hne, hsign]
  refine (hleft.reads (endsAt_binaryOp .pow (ls ++ rest))).bind ?_
  intro base hbase
  refine (reads_accept (.punct (.binary .pow)) _).cons ?_
  rintro _ ⟨place, rfl⟩
  refine (hright m rest (by omega) hrest).finish ?_
  intro exponent hexponent
  refine reads_pure ?_ rest
  change Expr.binary _ base.unplaced _ exponent.unplaced =
    Expr.binary _ left.unplaced _ right.unplaced
  rw [hbase, hexponent]

theorem ReadsAt.sign {k : TokenKind} {op : UnaryOp} (hk : signOf k = some op)
    (h : ReadsAt inner 10 ks e) : ReadsAt inner 10 (k :: ks) (.unary span op e) := by
  intro n rest hn hrest
  rw [List.length_cons] at hn
  obtain ⟨m, rfl⟩ : ∃ m, n = m + 1 := ⟨n - 1, by omega⟩
  refine reads_peekKind_cons ?_
  rw [hk]
  refine (reads_advance k _).cons ?_
  intro place _
  refine (h m rest (by omega) hrest).finish ?_
  intro operand hoperand
  refine reads_pure ?_ rest
  change Expr.unary _ op operand.unplaced = Expr.unary _ op e.unplaced
  rw [hoperand]

theorem ReadsAt.not (h : ReadsAt inner 2 ks e) :
    ReadsAt inner 2 (.name "not" :: ks) (.unary span .not e) := by
  intro n rest hn hrest
  rw [List.length_cons] at hn
  obtain ⟨m, rfl⟩ : ∃ m, n = m + 1 := ⟨n - 1, by omega⟩
  refine (reads_accept (.name "not") _).cons ?_
  rintro _ ⟨start, rfl⟩
  refine (h m rest (by omega) hrest).finish ?_
  intro operand hoperand
  refine reads_pure ?_ rest
  change Expr.unary _ .not operand.unplaced = Expr.unary _ .not e.unplaced
  rw [hoperand]

section Logical

variable {op : BoolOp}

theorem levelParser_logical (op : BoolOp) :
    levelParser inner op.level = logical op (levelParser inner (op.level + 1)) := by
  cases op <;> rfl

theorem levelUpTo_logical (op : BoolOp) (n : Nat) :
    levelUpTo inner n op.level = levelParser inner op.level := by
  cases op <;> rfl

/-- The first operand of a boolean operator, and then the others: they become the values of one
node. -/
theorem ReadsAt.logical {first second : Expr} {values : List Expr}
    (hfirst : ReadsAt inner (op.level + 1) ks first)
    (hmore : ∀ n rest, ls.length < n → EndsAt op.level rest →
      Reads (logicalRest op (levelParser inner (op.level + 1)) n) (.name op.text :: ls) rest
        fun as => as.map Expr.unplaced = (second :: values).map Expr.unplaced) :
    ReadsAt inner op.level (ks ++ .name op.text :: ls)
      (.logical span op (first :: second :: values)) := by
  intro n rest _ hrest
  rw [levelUpTo_logical, levelParser_logical]
  refine (hfirst.reads (endsAt_boolOp op _)).bind ?_
  intro a ha
  refine (reads_limit _).look ?_
  intro m hm
  rw [List.length_append, List.length_cons] at hm
  refine (hmore m rest (by omega) hrest).finish ?_
  intro as has
  rcases as with _ | ⟨b, as⟩
  · cases has
  · refine reads_pure ?_ rest
    change Expr.logical _ op (Expr.unplacedAll (a :: b :: as)) =
      Expr.logical _ op (Expr.unplacedAll (first :: second :: values))
    rw [Expr.unplacedAll_eq, Expr.unplacedAll_eq, List.map_cons, has, ha]
    rfl

end Logical

end Parser

end Vyper
