import Vyper.Proofs.FoldedReads
import Mathlib.Data.Int.Bitwise

/-!
# Exactness of constants

What an integer expression stands for is said without any bound (`Folding.Exact`); constants are
computed in 128 bits. The operators refuse a result out of range, but for the shift to the left: it
keeps the low bits of the product and drops the others. `evaluate_exact` is what remains: a value is
exact as long as no shift drops bits.
-/

namespace Vyper

/-- The value of an operator on unbounded integers. Quotients are truncated and remainders go with
them, a shift to the right rounds down, and bits are those of two's complement. Nothing is divided
by zero, raised to a negative power or shifted by less than no places. -/
def BinaryOp.exact (op : BinaryOp) (l r : Int) : Option Int :=
  match op with
  | .add => some (l + r)
  | .sub => some (l - r)
  | .mul => some (l * r)
  | .div | .floorDiv => if r = 0 then none else some (l.tdiv r)
  | .mod => if r = 0 then none else some (l - r * l.tdiv r)
  | .pow => if r < 0 then none else some (l ^ r.toNat)
  | .shl => if r < 0 then none else some (l * 2 ^ r.toNat)
  | .shr => if r < 0 then none else some (l.fdiv (2 ^ r.toNat))
  | .bitAnd => some (l.land r)
  | .bitOr => some (l.lor r)
  | .bitXor => some (l.xor r)

namespace Folding

/-- The number that digits write in decimal notation. -/
def decimal : List Char → Int
  | [] => 0
  | c :: cs => (c.toNat - '0'.toNat) * 10 ^ cs.length + decimal cs

/-- The exact value of an expression after some declarations. A name stands for a constant declared
under it, with the value it has after the declarations before that one. -/
inductive Exact : List Declaration → Expr → Int → Prop
  | numeral (ds : List Declaration) (span : Span) (text : String) :
    Exact ds (.numeral span .int text) (decimal (text.toList.filter (· ≠ '_')))
  | constant {ds before after : List Declaration} {v : VariableDef} {value : Expr} {n : Int}
    (hds : ds = before ++ .var v :: after) (hconstant : v.modifiers.isConstant = true)
    (hvalue : v.value = some value) (h : Exact before value n) (span : Span) :
    Exact ds (.name span v.name) n
  | neg {ds : List Declaration} {operand : Expr} {n : Int} (h : Exact ds operand n) (span : Span) :
    Exact ds (.unary span .neg operand) (-n)
  | binary {ds : List Declaration} {left right : Expr} {op : BinaryOp} {l r n : Int}
    (hleft : Exact ds left l) (hright : Exact ds right r) (h : op.exact l r = some n)
    (span : Span) :
    Exact ds (.binary span left op right) n

/-- The integers of 128 bits. -/
def InRange (v : Int) : Prop := least ≤ v ∧ v ≤ greatest

instance (v : Int) : Decidable (InRange v) := inferInstanceAs (Decidable (_ ∧ _))

variable {l r v : Int}

theorem fit_eq_some_iff {w : Int} : fit v = some w ↔ v = w ∧ InRange w := by
  unfold fit InRange
  constructor
  · intro h
    split at h
    · cases h
      exact ⟨rfl, ‹_›⟩
    · cases h
  · rintro ⟨rfl, h⟩
    rw [if_pos h]

theorem inRange_iff : InRange v ↔ -2 ^ 127 ≤ v ∧ v < 2 ^ 127 := by
  have hleast : least = -2 ^ 127 := rfl
  have hgreatest : greatest = 2 ^ 127 - 1 := rfl
  unfold InRange
  omega

theorem foldl_decimal (cs : List Char) (n : Int) :
    cs.foldl (fun (n : Int) (c : Char) => 10 * n + (c.toNat - '0'.toNat)) n =
      n * 10 ^ cs.length + decimal cs := by
  induction cs generalizing n with
  | nil => simp [decimal]
  | cons c cs ih =>
    rw [List.foldl_cons, ih, decimal, List.length_cons, Int.pow_succ]
    simp only [Int.add_mul, Int.sub_mul, Int.mul_assoc, Int.mul_comm]
    omega

theorem readInt?_eq (text : String) :
    readInt? text = fit (decimal (text.toList.filter (· ≠ '_'))) := by
  simp only [readInt?, foldl_decimal, Int.zero_mul, Int.zero_add]

/-! ### Bits -/

/-- The bits of an integer, inverted if it is negative. -/
def payload : Int → Nat
  | .ofNat n => n
  | .negSucc n => n

theorem inRange_iff_payload : InRange v ↔ payload v < 2 ^ 127 := by
  rw [inRange_iff]
  cases v with
  | ofNat n => simp only [payload, Int.ofNat_eq_natCast]; omega
  | negSucc n => simp only [payload, Int.negSucc_eq]; omega

theorem toInt_bits (h : InRange v) : (bits v).toInt = v := by
  rw [inRange_iff] at h
  exact BitVec.toInt_ofInt_eq_self (by decide) h.1 h.2

theorem getLsbD_bits (v : Int) {i : Nat} (hi : i < width) : (bits v).getLsbD i = v.testBit i := by
  cases v with
  | ofNat n =>
    change (BitVec.ofNat width n).getLsbD i = n.testBit i
    simp only [BitVec.getLsbD_ofNat, hi, decide_true, Bool.true_and]
  | negSucc n =>
    change (BitVec.ofInt width (Int.negSucc n)).getLsbD i = !n.testBit i
    simp only [BitVec.ofInt_negSucc_eq_not_ofNat, BitVec.getLsbD_not, BitVec.getLsbD_ofNat, hi,
      decide_true, Bool.true_and]

theorem bits_land (l r : Int) : bits (l.land r) = bits l &&& bits r := by
  apply BitVec.eq_of_getLsbD_eq
  intro i hi
  rw [BitVec.getLsbD_and, getLsbD_bits _ hi, getLsbD_bits _ hi, getLsbD_bits _ hi, Int.testBit_land]

theorem bits_lor (l r : Int) : bits (l.lor r) = bits l ||| bits r := by
  apply BitVec.eq_of_getLsbD_eq
  intro i hi
  rw [BitVec.getLsbD_or, getLsbD_bits _ hi, getLsbD_bits _ hi, getLsbD_bits _ hi, Int.testBit_lor]

theorem bits_xor (l r : Int) : bits (l.xor r) = bits l ^^^ bits r := by
  apply BitVec.eq_of_getLsbD_eq
  intro i hi
  rw [BitVec.getLsbD_xor, getLsbD_bits _ hi, getLsbD_bits _ hi, getLsbD_bits _ hi,
    Int.testBit_lxor]

theorem InRange.land (hl : InRange l) (hr : InRange r) : InRange (l.land r) := by
  rw [inRange_iff_payload] at *
  cases l <;> cases r
  · exact Nat.bitwise_lt_two_pow hl hr
  · exact Nat.bitwise_lt_two_pow hl hr
  · exact Nat.bitwise_lt_two_pow hr hl
  · exact Nat.bitwise_lt_two_pow hl hr

theorem InRange.lor (hl : InRange l) (hr : InRange r) : InRange (l.lor r) := by
  rw [inRange_iff_payload] at *
  cases l <;> cases r
  · exact Nat.bitwise_lt_two_pow hl hr
  · exact Nat.bitwise_lt_two_pow hr hl
  · exact Nat.bitwise_lt_two_pow hl hr
  · exact Nat.bitwise_lt_two_pow hl hr

theorem InRange.xor (hl : InRange l) (hr : InRange r) : InRange (l.xor r) := by
  rw [inRange_iff_payload] at *
  cases l <;> cases r <;> exact Nat.bitwise_lt_two_pow hl hr

/-! ### Operators -/

theorem two_pow_le_natAbs {base : Int} {n : Nat} (hbase : 2 ≤ base.natAbs) (hn : 128 ≤ n) :
    2 ^ 128 ≤ (base ^ n).natAbs := by
  rw [Int.natAbs_pow]
  calc 2 ^ 128 ≤ 2 ^ n := Nat.pow_le_pow_right (by decide) hn
    _ ≤ base.natAbs ^ n := Nat.pow_le_pow_left hbase n

/-- The shortcuts of a power give what the power gives. -/
theorem power_eq (base : Int) (n : Nat) : power base n = fit (base ^ n) := by
  have hfit : ∀ v : Int, -1 ≤ v → v ≤ 1 → fit v = some v := by
    intro v hlow hhigh
    exact fit_eq_some_iff.mpr ⟨rfl, inRange_iff.mpr ⟨by omega, by omega⟩⟩
  unfold power
  split
  · next hn => rw [hn, Int.pow_zero, hfit 1 (by decide) (by decide)]
  split
  · next hn hbase =>
    rcases hbase with rfl | rfl
    · rw [Int.zero_pow hn, hfit 0 (by decide) (by decide)]
    · rw [Int.one_pow, hfit 1 (by decide) (by decide)]
  split
  · next hbase =>
    subst hbase
    split
    · next hn =>
      rw [Even.neg_one_pow (Nat.even_iff.mpr hn), hfit 1 (by decide) (by decide)]
    · next hn =>
      rw [Odd.neg_one_pow (Nat.odd_iff.mpr (by omega)), hfit (-1) (by decide) (by decide)]
  split
  · rfl
  · next hn hbase hneg hlarge =>
    have habs : 2 ^ 128 ≤ (base ^ n).natAbs := two_pow_le_natAbs (by omega) (by omega)
    have hout : ¬ InRange (base ^ n) := by
      rw [inRange_iff]
      omega
    unfold InRange at hout
    rw [fit, if_neg hout]

/-- What operators ask of their operands beyond a result in range. -/
def accepts (op : BinaryOp) (l r : Int) : Prop :=
  match op with
  | .mod => ¬ (l = least ∧ r = -1)
  | .pow => r < 2 ^ 32
  | .shl | .shr => r < width
  | _ => True

theorem shiftAmount?_eq_some_iff {n : Nat} :
    shiftAmount? r = some n ↔ 0 ≤ r ∧ r < width ∧ r.toNat = n := by
  unfold shiftAmount?
  split
  · next h => simp [h.1, h.2]
  · next h =>
    constructor
    · nofun
    · intro hr
      exact absurd ⟨hr.1, hr.2.1⟩ h

theorem tmod_eq (l r : Int) : l.tmod r = l - r * l.tdiv r := by
  have h := Int.mul_tdiv_add_tmod l r
  omega

theorem shiftRight_eq (l : Int) (n : Nat) : l.shiftRight n = l.fdiv (2 ^ n) := by
  have hpos : (0 : Int) ≤ 2 ^ n := Int.pow_nonneg (by decide)
  rw [Int.fdiv_eq_ediv_of_nonneg l hpos]
  exact_mod_cast Int.shiftRight_eq_div_pow l n

theorem InRange.shiftRight (hl : InRange l) (n : Nat) : InRange (l.shiftRight n) := by
  rw [inRange_iff_payload] at *
  have hpayload : payload (l.shiftRight n) = payload l >>> n := by cases l <;> rfl
  rw [hpayload]
  exact Nat.lt_of_le_of_lt (Nat.shiftRight_le _ _) hl

/-- Every operator but the shift to the left gives the exact value, or refuses. -/
theorem apply_eq_some_iff {op : BinaryOp} (hop : op ≠ .shl) (hl : InRange l) (hr : InRange r)
    (hzero : divides op = true → r ≠ 0) :
    apply op l r = some v ↔ accepts op l r ∧ op.exact l r = some v ∧ InRange v := by
  cases op with
  | add => simp [apply, accepts, BinaryOp.exact, fit_eq_some_iff]
  | sub => simp [apply, accepts, BinaryOp.exact, fit_eq_some_iff]
  | mul => simp [apply, accepts, BinaryOp.exact, fit_eq_some_iff]
  | div => simp [apply, accepts, BinaryOp.exact, fit_eq_some_iff, hzero rfl]
  | floorDiv => simp [apply, accepts, BinaryOp.exact, fit_eq_some_iff, hzero rfl]
  | mod =>
    simp only [apply, accepts, BinaryOp.exact, hzero rfl, tmod_eq, if_false]
    split
    · next h => simp [h]
    · next h => simp [h, fit_eq_some_iff]
  | pow =>
    have hbound : Int.pow 2 32 = 2 ^ 32 := rfl
    simp only [apply, accepts, BinaryOp.exact, power_eq, hbound]
    by_cases hneg : r < 0
    · simp [hneg, Int.not_le.mpr hneg]
    · by_cases hlarge : r < 2 ^ 32
      · rw [if_pos ⟨Int.not_lt.mp hneg, hlarge⟩, if_neg hneg, fit_eq_some_iff, Option.some.injEq]
        exact (and_iff_right hlarge).symm
      · rw [if_neg (fun h => hlarge h.2)]
        exact iff_of_false (Option.some_ne_none v).symm fun h => hlarge h.1
  | shl => exact absurd rfl hop
  | shr =>
    simp only [apply, accepts, BinaryOp.exact, Option.map_eq_some_iff, shiftAmount?_eq_some_iff]
    constructor
    · rintro ⟨n, ⟨hnonneg, hlt, rfl⟩, rfl⟩
      rw [if_neg (by omega), shiftRight_eq]
      exact ⟨hlt, rfl, shiftRight_eq l _ ▸ hl.shiftRight _⟩
    · rintro ⟨hlt, hexact, -⟩
      split at hexact
      · cases hexact
      · cases hexact
        exact ⟨r.toNat, ⟨by omega, hlt, rfl⟩, shiftRight_eq l _⟩
  | bitAnd =>
    have hrange := hl.land hr
    simp only [apply, accepts, BinaryOp.exact, ← bits_land, toInt_bits hrange, Option.some.injEq,
      true_and]
    grind
  | bitOr =>
    have hrange := hl.lor hr
    simp only [apply, accepts, BinaryOp.exact, ← bits_lor, toInt_bits hrange, Option.some.injEq,
      true_and]
    grind
  | bitXor =>
    have hrange := hl.xor hr
    simp only [apply, accepts, BinaryOp.exact, ← bits_xor, toInt_bits hrange, Option.some.injEq,
      true_and]
    grind

theorem bits_shiftLeft (l : Int) (n : Nat) : bits l <<< n = bits (l * 2 ^ n) := by
  have hpow : BitVec.ofInt width (2 ^ n) = BitVec.twoPow width n := by
    apply BitVec.eq_of_toNat_eq
    rw [BitVec.toNat_twoPow]
    exact congrArg BitVec.toNat (BitVec.ofInt_natCast width (2 ^ n))
  rw [bits, bits, BitVec.ofInt_mul, hpow, BitVec.shiftLeft_eq_mul_twoPow]

/-- A shift to the left keeps the low bits of the product. -/
theorem apply_shl_eq_some_iff :
    apply .shl l r = some v ↔
      0 ≤ r ∧ accepts .shl l r ∧ (l * 2 ^ r.toNat).bmod (2 ^ width) = v := by
  simp only [apply, accepts, Option.map_eq_some_iff, shiftAmount?_eq_some_iff, bits_shiftLeft]
  constructor
  · rintro ⟨n, ⟨hnonneg, hlt, rfl⟩, rfl⟩
    exact ⟨hnonneg, hlt, (BitVec.toInt_ofInt _).symm⟩
  · rintro ⟨hnonneg, hlt, rfl⟩
    exact ⟨r.toNat, ⟨hnonneg, hlt, rfl⟩, BitVec.toInt_ofInt _⟩

theorem inRange_bmod (v : Int) : InRange (v.bmod (2 ^ width)) := by
  rw [inRange_iff]
  have hlow := Int.le_bmod (x := v) (m := 2 ^ width) (by decide)
  have hhigh := Int.bmod_lt (x := v) (m := 2 ^ width) (by decide)
  have hhalf : ((2 ^ width : Nat) : Int) / 2 = 2 ^ 127 := by decide
  have hhalf' : (((2 ^ width : Nat) : Int) + 1) / 2 = 2 ^ 127 := by decide
  omega

theorem bmod_of_inRange (h : InRange v) : v.bmod (2 ^ width) = v := by
  rw [← BitVec.toInt_ofInt]
  exact toInt_bits h

theorem InRange.apply {op : BinaryOp} (hl : InRange l) (hr : InRange r)
    (hzero : divides op = true → r ≠ 0) (h : apply op l r = some v) : InRange v := by
  by_cases hop : op = .shl
  · subst hop
    obtain ⟨-, -, rfl⟩ := apply_shl_eq_some_iff.mp h
    exact inRange_bmod _
  · exact ((apply_eq_some_iff hop hl hr hzero).mp h).2.2

/-- An operator is exact unless it shifts bits out of range. -/
theorem exact_of_apply {op : BinaryOp} (hl : InRange l) (hr : InRange r)
    (hzero : divides op = true → r ≠ 0)
    (hbits : op = .shl → 0 ≤ r → r < width → InRange (l * 2 ^ r.toNat))
    (h : apply op l r = some v) : op.exact l r = some v := by
  by_cases hop : op = .shl
  · subst hop
    obtain ⟨hnonneg, hlt, rfl⟩ := apply_shl_eq_some_iff.mp h
    rw [bmod_of_inRange (hbits rfl hnonneg hlt), BinaryOp.exact, if_neg (Int.not_lt.mpr hnonneg)]
  · exact ((apply_eq_some_iff hop hl hr hzero).mp h).2.1

/-! ### Expressions -/

section Expressions

variable {cs : Constants} {span : Span} {e left right operand : Expr} {op : BinaryOp}

theorem operands_of_evaluate
    (h : evaluate cs (.binary span left op right) = .ok (some (.int v))) :
    ∃ l r, evaluate cs left = .ok (some (.int l)) ∧ evaluate cs right = .ok (some (.int r)) ∧
      (divides op = true → r ≠ 0) ∧ apply op l r = some v := by
  rw [evaluate] at h
  cases hleft : evaluate cs left with
  | error error =>
    rw [hleft] at h
    cases h
  | ok first =>
    cases hright : evaluate cs right with
    | error error =>
      rw [hleft, hright] at h
      cases h
    | ok second =>
      rw [hleft, hright] at h
      dsimp only [bind, Except.bind] at h
      split at h
      · next l r =>
        split at h
        · cases h
        · next hzero =>
          simp only [pure, Except.pure, Except.ok.injEq, Option.map_eq_some_iff, Literal.int.injEq,
            exists_eq_right] at h
          refine ⟨l, r, rfl, rfl, fun hdivides hr => hzero ?_, h⟩
          simp [hdivides, hr]
      · cases h

theorem operand_of_evaluate {sign : UnaryOp}
    (h : evaluate cs (.unary span sign operand) = .ok (some (.int v))) :
    ∃ n, sign = .neg ∧ evaluate cs operand = .ok (some (.int n)) ∧ fit (-n) = some v := by
  rw [evaluate] at h
  cases hoperand : evaluate cs operand with
  | error error =>
    rw [hoperand] at h
    cases h
  | ok found =>
    rw [hoperand] at h
    dsimp only [bind, Except.bind] at h
    split at h
    · next n =>
      simp only [pure, Except.pure, Except.ok.injEq, Option.map_eq_some_iff, Literal.int.injEq,
        exists_eq_right] at h
      exact ⟨n, rfl, rfl, h⟩
    · cases h
    · cases h

theorem evaluate_binary {l r : Int} (hleft : evaluate cs left = .ok (some (.int l)))
    (hright : evaluate cs right = .ok (some (.int r))) (hzero : divides op = true → r ≠ 0) :
    evaluate cs (.binary span left op right) = .ok ((apply op l r).map .int) := by
  have hgo : (divides op && decide (r = 0)) = false := by
    cases hdivides : divides op with
    | false => rfl
    | true => simp [hzero hdivides]
  rw [evaluate, hleft, hright]
  change (if _ then _ else _) = _
  rw [hgo]
  rfl

/-- A shift to the left moves no bits out of range. -/
def ShiftFits (cs : Constants) : Node → Prop
  | .expr (.binary _ left .shl right) => ∀ l r, evaluate cs left = .ok (some (.int l)) →
    evaluate cs right = .ok (some (.int r)) → 0 ≤ r → r < width → InRange (l * 2 ^ r.toNat)
  | _ => True

/-- What an integer is computed from are integers. -/
theorem evaluate_at? (h : evaluate cs e = .ok (some (.int v))) {path : List Nat} {part : Expr}
    (hpart : (Node.expr e).at? path = some (.expr part)) :
    ∃ w, evaluate cs part = .ok (some (.int w)) := by
  induction path generalizing e v with
  | nil =>
    cases hpart
    exact ⟨v, h⟩
  | cons i path ih =>
    obtain ⟨field, next, hnext, hrest⟩ := Node.at?_cons_eq_some hpart
    cases e with
    | unary span sign operand =>
      obtain ⟨n, -, hoperand, -⟩ := operand_of_evaluate h
      cases i with
      | zero =>
        cases hnext
        exact ih hoperand hrest
      | succ i => cases hnext
    | binary span left op right =>
      obtain ⟨l, r, hleft, hright, -⟩ := operands_of_evaluate h
      match i, hnext with
      | 0, rfl => exact ih hleft hrest
      | 1, rfl => exact ih hright hrest
    | name span id => cases hnext
    | numeral span form text => cases hnext
    | str span value => cases hnext
    | truth span value => cases hnext
    | _ => cases h

end Expressions

/-! ### Declarations -/

/-- The expressions that a value is computed from, with the declarations before each: the expression
itself, and the values of the constants that it reads, directly or through others. -/
inductive Uses : List Declaration → Expr → List Declaration → Expr → Prop
  | self (ds : List Declaration) (e : Expr) : Uses ds e ds e
  | constant {before after ds : List Declaration} {v : VariableDef} {e value used : Expr}
    {path : List Nat} {span : Span}
    (hread : (Node.expr e).at? path = some (.expr (.name span v.name)))
    (hconstant : v.modifiers.isConstant = true) (hvalue : v.value = some value)
    (h : Uses before value ds used) : Uses (before ++ .var v :: after) e ds used

/-- No shift to the left moves bits out of range, in an expression or in the constants it reads. -/
def KeepsBits (ds : List Declaration) (e : Expr) : Prop :=
  ∀ ds' used, Uses ds e ds' used → ∀ cs, constantsOf [] ds' = .ok cs →
    ∀ path n, (Node.expr used).at? path = some n → ShiftFits cs n

theorem KeepsBits.at? {ds : List Declaration} {e part : Expr} (h : KeepsBits ds e) (path : List Nat)
    (hpart : (Node.expr e).at? path = some (.expr part)) : KeepsBits ds part := by
  intro ds' used huses cs hcs rest n hn
  cases huses with
  | self =>
    apply h ds e (.self ds e) cs hcs (path ++ rest)
    rw [Node.at?_append hpart, hn]
  | constant hread hconstant hvalue huses =>
    have hread := (Node.at?_append hpart _).trans hread
    exact h ds' used (.constant hread hconstant hvalue huses) cs hcs rest n hn

theorem KeepsBits.constant {before after : List Declaration} {v : VariableDef} {span : Span}
    {value : Expr} (h : KeepsBits (before ++ .var v :: after) (.name span v.name))
    (hconstant : v.modifiers.isConstant = true) (hvalue : v.value = some value) :
    KeepsBits before value := by
  intro ds used huses
  have hread : (Node.expr (.name span v.name)).at? [] = some (.expr (.name span v.name)) := rfl
  exact h ds used (.constant hread hconstant hvalue huses)

/-- An integer is in range, and exact as long as no shift on the way to it drops bits. -/
theorem exact_of_evaluate {ds : List Declaration} {cs : Constants}
    (hcs : constantsOf [] ds = .ok cs) {e : Expr} {v : Int}
    (h : evaluate cs e = .ok (some (.int v))) : InRange v ∧ (KeepsBits ds e → Exact ds e v) := by
  -- Outside, the induction is on the declarations: a constant was computed from those before it.
  induction hlen : ds.length using Nat.strong_induction_on generalizing ds cs e v with
  | _ len outer =>
    fun_induction evaluate cs e generalizing v with
    | case1 span text =>
      simp only [Except.ok.injEq, Option.map_eq_some_iff, Literal.int.injEq, exists_eq_right,
        readInt?_eq, fit_eq_some_iff] at h
      obtain ⟨rfl, hrange⟩ := h
      exact ⟨hrange, fun _ => .numeral ds span text⟩
    | case6 span id =>
      have hid : cs.get? id = some (.int v) := by simpa using h
      rcases declares_of_constantsOf hcs hid with hnil |
        ⟨before, w, after, earlier, value, rfl, hearlier, hconstant, rfl, hvalue, hev⟩
      · cases hnil
      · obtain ⟨hrange, hexact⟩ := outer before.length (by simp [← hlen]) hearlier hev rfl
        refine ⟨hrange, fun hbits => ?_⟩
        exact .constant rfl hconstant hvalue (hexact (hbits.constant hconstant hvalue)) span
    | case7 span sign operand ih =>
      have hall : evaluate cs (.unary span sign operand) = .ok (some (.int v)) := by
        rw [evaluate]
        exact h
      obtain ⟨n, rfl, hoperand, hfit⟩ := operand_of_evaluate hall
      obtain ⟨rfl, hrange⟩ := fit_eq_some_iff.mp hfit
      obtain ⟨-, hexact⟩ := ih hoperand
      exact ⟨hrange, fun hbits => .neg (hexact (hbits.at? [0] rfl)) span⟩
    | case8 span left op right ihl ihr =>
      have hall : evaluate cs (.binary span left op right) = .ok (some (.int v)) := by
        rw [evaluate]
        exact h
      obtain ⟨l, r, hleft, hright, hzero, happly⟩ := operands_of_evaluate hall
      obtain ⟨hlrange, hlexact⟩ := ihl hleft
      obtain ⟨hrrange, hrexact⟩ := ihr hright
      refine ⟨hlrange.apply hrrange hzero happly, fun hbits => ?_⟩
      have hshift : op = .shl → 0 ≤ r → r < width → InRange (l * 2 ^ r.toNat) := by
        rintro rfl
        exact hbits ds _ (.self ds _) cs hcs [] _ rfl l r hleft hright
      have hlvalue := hlexact (hbits.at? [0] rfl)
      have hrvalue := hrexact (hbits.at? [1] rfl)
      exact .binary hlvalue hrvalue (exact_of_apply hlrange hrrange hzero hshift happly) span
    | _ => cases h

/-- Constants are exact as long as no shift to the left drops bits: so is every value on the way to
one. The other operators have no value exactly where theirs is out of range or refused; a shift to
the left always has the low bits of the product. -/
theorem evaluate_exact {ds : List Declaration} {cs : Constants}
    (hcs : constantsOf [] ds = .ok cs) :
    (∀ e v, evaluate cs e = .ok (some (.int v)) → InRange v ∧
      (KeepsBits ds e → Exact ds e v ∧
        ∀ path part, (Node.expr e).at? path = some (.expr part) →
          ∃ w, evaluate cs part = .ok (some (.int w)) ∧ Exact ds part w ∧ InRange w)) ∧
    (∀ span left op right l r, evaluate cs left = .ok (some (.int l)) →
      evaluate cs right = .ok (some (.int r)) → (divides op = true → r ≠ 0) → op ≠ .shl →
      (evaluate cs (.binary span left op right) = .ok none ↔
        (accepts op l r → ∀ n, op.exact l r = some n → ¬ InRange n))) ∧
    (∀ span left right l r, evaluate cs left = .ok (some (.int l)) →
      evaluate cs right = .ok (some (.int r)) → 0 ≤ r → r < width →
      evaluate cs (.binary span left .shl right) =
        .ok (some (.int ((l * 2 ^ r.toNat).bmod (2 ^ width))))) := by
  refine ⟨?_, ?_, ?_⟩
  · intro e v h
    obtain ⟨hrange, hexact⟩ := exact_of_evaluate hcs h
    refine ⟨hrange, fun hbits => ⟨hexact hbits, fun path part hpart => ?_⟩⟩
    obtain ⟨w, hw⟩ := evaluate_at? h hpart
    obtain ⟨hwrange, hwexact⟩ := exact_of_evaluate hcs hw
    exact ⟨w, hw, hwexact (hbits.at? path hpart), hwrange⟩
  · intro span left op right l r hleft hright hzero hop
    obtain ⟨hl, -⟩ := exact_of_evaluate hcs hleft
    obtain ⟨hr, -⟩ := exact_of_evaluate hcs hright
    have hiff : ∀ n, apply op l r = some n ↔ _ := fun n => apply_eq_some_iff hop hl hr hzero
    rw [evaluate_binary hleft hright hzero]
    constructor
    · intro hnone haccepts n hn hrange
      rw [(hiff n).mpr ⟨haccepts, hn, hrange⟩] at hnone
      cases hnone
    · intro hrefused
      cases happly : apply op l r with
      | none => rfl
      | some n =>
        obtain ⟨haccepts, hn, hrange⟩ := (hiff n).mp happly
        exact absurd hrange (hrefused haccepts n hn)
  · intro span left right l r hleft hright hnonneg hlt
    have hzero : divides .shl = true → r ≠ 0 := nofun
    have hshift := (apply_shl_eq_some_iff (l := l)).mpr ⟨hnonneg, hlt, rfl⟩
    rw [evaluate_binary hleft hright hzero, hshift]
    rfl

/-- A shift to the left by a number of places. -/
def shiftedBy (left : Expr) (places : String) : Expr :=
  .binary (.point .origin) left .shl (.numeral (.point .origin) .int places)

def declareConstant (name : String) (value : Expr) : Declaration :=
  .var ⟨.point .origin, .name (.point .origin) name, .name (.point .origin) "int128", some value,
    { isConstant := true }, none⟩

/-- The constant `A` is shifted out of range, and `B` is not. -/
def shiftedConstants : List Declaration :=
  [declareConstant "A" (shiftedBy (.numeral (.point .origin) .int "1") "127"),
    declareConstant "B" (shiftedBy (.numeral (.point .origin) .int "5") "3")]

/-- Where no name is read, only the expression itself counts. -/
theorem keepsBits_of_not_name {ds : List Declaration} {e : Expr}
    (h : ∀ path n, (Node.expr e).at? path = some n →
      (∀ span id, n ≠ .expr (.name span id)) ∧ ∀ cs, ShiftFits cs n) : KeepsBits ds e := by
  intro ds' used huses
  cases huses with
  | self => exact fun cs _ path n hn => (h path n hn).2 cs
  | constant hread => exact absurd rfl ((h _ _ hread).1 _ _)

/-- The value of `B` is exact, whatever comes out for `A`. -/
theorem evaluate_exact_shiftedBy :
    constantsOf [] shiftedConstants = .ok [("A", .int least), ("B", .int 40)] ∧
      Exact shiftedConstants (.name (.point .origin) "B") 40 := by
  have hcs : constantsOf [] shiftedConstants = .ok [("A", .int least), ("B", .int 40)] := rfl
  have hshift : ∀ ds, KeepsBits ds (shiftedBy (.numeral (.point .origin) .int "5") "3") := by
    refine fun ds => keepsBits_of_not_name (Node.forall_at? ⟨by simp [shiftedBy], ?_⟩
      (List.forall_mem_cons.mpr ⟨?_, List.forall_mem_singleton.mpr ?_⟩))
    · intro cs l r hl hr _ _
      cases hl
      cases hr
      decide
    · exact Node.forall_at?_of_leaf rfl ⟨by simp, fun _ => trivial⟩
    · exact Node.forall_at?_of_leaf rfl ⟨by simp, fun _ => trivial⟩
  have hbits : KeepsBits shiftedConstants (.name (.point .origin) "B") := by
    intro ds used huses
    unfold shiftedConstants at huses
    generalize hds : List.cons _ _ = declared at huses
    cases huses with
    | self => exact fun cs _ => Node.forall_at?_of_leaf rfl trivial
    | @constant before after _ v _ value _ path span hread hconstant hvalue huses =>
      have hname : v.name = "B" := by
        cases path with
        | nil => exact (Expr.name.inj (Node.expr.inj (Option.some.inj hread))).2.symm
        | cons => cases hread
      rcases before with _ | ⟨_, _ | ⟨_, _⟩⟩
      · cases hds
        exact absurd hname (by decide)
      · cases hds
        cases hvalue
        exact hshift _ _ _ huses
      · simp at hds
  exact ⟨hcs, (((evaluate_exact hcs).1 _ _ rfl).2 hbits).1⟩

/-- One shifted by 127 places is out of range, and comes out as the least integer. -/
theorem evaluate_shiftedBy_127 :
    evaluate [] (shiftedBy (.numeral (.point .origin) .int "1") "127") = .ok (some (.int least)) ∧
      Exact [] (shiftedBy (.numeral (.point .origin) .int "1") "127") (2 ^ 127) ∧
      ¬ Exact [] (shiftedBy (.numeral (.point .origin) .int "1") "127") least := by
  refine ⟨rfl, ?_, ?_⟩
  · exact .binary (.numeral [] _ "1") (.numeral [] _ "127") (by decide) _
  · intro h
    cases h with
    | binary hleft hright h =>
      cases hleft
      cases hright
      exact absurd h (by decide)

end Folding

end Vyper
