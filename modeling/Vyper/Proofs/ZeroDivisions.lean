import Vyper.Proofs.Exactness
import Vyper.Proofs.FoldedNames
import Vyper.Proofs.Placement.Source
import Vyper.Proofs.SymbolTables

/-!
# Divisions by zero

Folding meets a division twice: when it takes in the constants, each under those declared before it,
and when it goes over all operations of the module under all of them. What an expression comes to is
said here without either (`Folding.Computes`). Evaluation finds exactly that, and later declarations
do not change it, so the two occasions agree: folding fails exactly if some operation of the module
divides an integer by zero (`Module.fold_fails_iff_dividesByZero`).
-/

namespace Vyper

namespace Folding

/-- The integer of 128 bits that an expression comes to after some declarations. A name stands for
the constant declared under it, with the value it has after the declarations before that one. What
is divided by zero comes to nothing. -/
inductive Computes : List Declaration → Expr → Int → Prop
  | numeral {ds : List Declaration} {text : String} {n : Int} (h : readInt? text = some n)
    (span : Span) : Computes ds (.numeral span .int text) n
  | constant {ds before after : List Declaration} {v : VariableDef} {value : Expr} {n : Int}
    (hds : ds = before ++ .var v :: after) (hconstant : v.modifiers.isConstant = true)
    (hvalue : v.value = some value) (h : Computes before value n) (span : Span) :
    Computes ds (.name span v.name) n
  | neg {ds : List Declaration} {operand : Expr} {n k : Int} (h : Computes ds operand n)
    (hfit : fit (-n) = some k) (span : Span) : Computes ds (.unary span .neg operand) k
  | binary {ds : List Declaration} {left right : Expr} {op : BinaryOp} {l r n : Int}
    (hleft : Computes ds left l) (hright : Computes ds right r)
    (hzero : divides op = true → r ≠ 0) (happly : apply op l r = some n) (span : Span) :
    Computes ds (.binary span left op right) n

variable {ds : List Declaration} {cs : Constants} {e : Expr} {n : Int}

/-- Later declarations change nothing. -/
theorem Computes.append (h : Computes ds e n) (more : List Declaration) :
    Computes (ds ++ more) e n := by
  induction h with
  | numeral h span => exact .numeral h span
  | @constant ds before after v value n hds hconstant hvalue h span _ =>
    have hmore : ds ++ more = before ++ .var v :: (after ++ more) := by
      rw [hds, List.append_assoc, List.cons_append]
    exact .constant hmore hconstant hvalue h span
  | neg _ hfit span ih => exact .neg ih hfit span
  | binary _ _ hzero happly span ihl ihr => exact .binary ihl ihr hzero happly span

theorem computes_of_evaluate (hcs : constantsOf [] ds = .ok cs)
    (h : evaluate cs e = .ok (some (.int n))) : Computes ds e n := by
  -- Outside, the induction is on the declarations: a constant was computed from those before it.
  induction hlen : ds.length using Nat.strong_induction_on generalizing ds cs e n with
  | _ len outer =>
    fun_induction evaluate cs e generalizing n with
    | case1 span text =>
      have hread : readInt? text = some n := by simpa using h
      exact .numeral hread span
    | case6 span id =>
      have hid : cs.get? id = some (.int n) := by simpa using h
      rcases declares_of_constantsOf hcs hid with hnil |
        ⟨before, v, after, earlier, value, rfl, hearlier, hconstant, rfl, hvalue, hev⟩
      · cases hnil
      · have hbefore := outer before.length (by simp [← hlen]) hearlier hev rfl
        exact .constant rfl hconstant hvalue hbefore span
    | case7 span sign operand ih =>
      have hall : evaluate cs (.unary span sign operand) = .ok (some (.int n)) := by
        rw [evaluate]
        exact h
      obtain ⟨k, rfl, hoperand, hfit⟩ := operand_of_evaluate hall
      exact .neg (ih hoperand) hfit span
    | case8 span left op right ihl ihr =>
      have hall : evaluate cs (.binary span left op right) = .ok (some (.int n)) := by
        rw [evaluate]
        exact h
      obtain ⟨l, r, hleft, hright, hzero, happly⟩ := operands_of_evaluate hall
      exact .binary (ihl hleft) (ihr hright) hzero happly span
    | _ => cases h

/-- Where no name is claimed twice, a constant is found with the value it was declared with. -/
theorem get?_of_nodup {before after : List Declaration} {v : VariableDef} {value : Expr}
    {literal : Literal} {earlier : Constants}
    (hnodup : ((before ++ .var v :: after).filterMap (·.claim?)).Nodup)
    (hcs : constantsOf [] (before ++ .var v :: after) = .ok cs)
    (hearlier : constantsOf [] before = .ok earlier) (hconstant : v.modifiers.isConstant = true)
    (hvalue : v.value = some value) (hev : evaluate earlier value = .ok (some literal)) :
    cs.get? v.name = some literal := by
  have hfresh : earlier.get? v.name = none := by
    rw [get?_eq_none_iff hearlier]
    rintro other ⟨first, w, second, _, _, rfl, _, _, hname, _, _⟩
    rw [List.filterMap_append, List.nodup_append] at hnodup
    apply hnodup.2.2 w.name _ v.name _ hname
    · simp [Declaration.claim?]
    · simp [Declaration.claim?]
  rw [constantsOf_var hearlier hconstant hvalue hev] at hcs
  apply get?_of_constantsOf hcs
  rw [Constants.get?_concat, hfresh, if_pos rfl, Option.none_or]

/-- Where no name is claimed twice, evaluation under all constants finds what an expression comes
to. -/
theorem evaluate_of_computes (h : Computes ds e n) (hnodup : (ds.filterMap (·.claim?)).Nodup)
    (hcs : constantsOf [] ds = .ok cs) : evaluate cs e = .ok (some (.int n)) := by
  induction h generalizing cs with
  | numeral h span => rw [evaluate, h, Option.map_some]
  | @constant ds before after v value n hds hconstant hvalue _ span ih =>
    subst hds
    have hbefore : (before.filterMap (·.claim?)).Nodup := by
      rw [List.filterMap_append, List.nodup_append] at hnodup
      exact hnodup.1
    obtain ⟨earlier, hearlier, -⟩ :=
      exists_of_bind_eq_ok ((constantsOf_append _ _ _).symm.trans hcs)
    have hev := ih hbefore hearlier
    rw [evaluate, get?_of_nodup hnodup hcs hearlier hconstant hvalue hev]
  | neg _ hfit span ih =>
    rw [evaluate, ih hnodup hcs]
    change Except.ok ((fit _).map Literal.int) = _
    rw [hfit, Option.map_some]
  | binary _ _ hzero happly span ihl ihr =>
    rw [evaluate_binary (ihl hnodup hcs) (ihr hnodup hcs) hzero, happly, Option.map_some]

theorem divides_iff {op : BinaryOp} : divides op = true ↔ op ∈ [.div, .floorDiv, .mod] := by
  cases op <;> decide

theorem evaluate_zero_division {left right : Expr} {op : BinaryOp} {l : Int}
    (hleft : evaluate cs left = .ok (some (.int l)))
    (hright : evaluate cs right = .ok (some (.int 0))) (hop : divides op = true) (span : Span) :
    evaluate cs (.binary span left op right) = .error (.located .divisionByZero span) := by
  rw [evaluate, hleft, hright]
  change (if (divides op && decide ((0 : Int) = 0)) = true then _ else _) = _
  rw [hop]
  rfl

end Folding

theorem Node.at?_value {v : VariableDef} {value : Expr} (h : v.value = some value)
    (path : List Nat) : (Node.var v).at? (2 :: path) = (Node.expr value).at? path := by
  obtain ⟨span, target, type, _, modifiers, resolved⟩ := v
  cases h
  cases resolved <;> exact Node.at?_cons rfl path

namespace Module

open Folding

variable {m : Module} {error : CompileError} {span : Span}

/-- The operation at a span of a module divides an integer by zero. -/
def DividesByZero (m : Module) (span : Span) : Prop :=
  ∃ path left op right l, (Node.module m).at? path = some (.expr (.binary span left op right)) ∧
    op ∈ [.div, .floorDiv, .mod] ∧ Computes m.body left l ∧ Computes m.body right 0

/-- What fails under the constants of some declarations divides by zero under all of them. -/
theorem dividesByZero_of_evaluate {before after : List Declaration} {cs : Constants}
    (hbody : m.body = before ++ after) (hcs : constantsOf [] before = .ok cs) {path : List Nat}
    {e : Expr} (he : (Node.module m).at? path = some (.expr e)) (h : evaluate cs e = .error error) :
    ∃ span, error = .located .divisionByZero span ∧ m.DividesByZero span := by
  obtain ⟨rest, span, left, op, right, l, hat, hop, hleft, hright, rfl⟩ := division_of_evaluate h
  refine ⟨span, rfl, path ++ rest, left, op, right, l, ?_, divides_iff.mp hop, ?_, ?_⟩
  · rw [Node.at?_append he, hat]
  · rw [hbody]
    exact (computes_of_evaluate hcs hleft).append after
  · rw [hbody]
    exact (computes_of_evaluate hcs hright).append after

theorem dividesByZero_of_fold (h : m.fold = .error error) :
    ∃ span, error = .located .divisionByZero span ∧ m.DividesByZero span := by
  cases hcs : constantsOf [] m.body with
  | ok cs =>
    obtain ⟨path, e, he, -, hev⟩ := operation_of_fold hcs h
    exact dividesByZero_of_evaluate (List.append_nil _).symm hcs he hev
  | error failure =>
    rw [fold_of_error hcs] at h
    cases h
    obtain ⟨before, v, after, earlier, value, hbody, hearlier, hvalue, hev⟩ :=
      declaration_of_constantsOf hcs
    have hdecl : m.body[before.length]? = some (.var v) := by simp [hbody]
    have hat : (Node.module m).at? [before.length, 2] = some (.expr value) := by
      rw [Node.at?_cons (Node.parts_module_of_getElem? hdecl)]
      exact Node.at?_value hvalue []
    exact dividesByZero_of_evaluate hbody hearlier hat hev

theorem exists_error_of_dividesByZero (hnodup : (m.body.filterMap (·.claim?)).Nodup)
    (h : m.DividesByZero span) : ∃ error, m.fold = .error error := by
  obtain ⟨path, left, op, right, l, hat, hop, hleft, hright⟩ := h
  cases hcs : constantsOf [] m.body with
  | error error => exact ⟨error, fold_of_error hcs⟩
  | ok cs =>
    have hev := evaluate_zero_division (evaluate_of_computes hleft hnodup hcs)
      (evaluate_of_computes hright hnodup hcs) (divides_iff.mpr hop) span
    exact exists_fold_eq_error hcs hat rfl hev

/-- Folding what annotation made of a module fails exactly if an operation there divides an integer
by zero. The error is a folding exception at the span of such an operation. -/
theorem fold_fails_iff_dividesByZero {text : List Char} {path : Option Path} {importer : Importer}
    {tables : ModuleType} (h : m.annotate text path importer = .ok tables) :
    ∃ tree, tables.tree = some tree ∧
      ((∃ error, tree.fold = .error error) ↔ ∃ span, tree.DividesByZero span) ∧
      ∀ error, tree.fold = .error error → error.kind = .foldingException ∧
        ∃ span, error.span = some span ∧ tree.DividesByZero span := by
  refine ⟨_, tree_of_annotate h, ⟨?_, ?_⟩, ?_⟩
  · rintro ⟨error, hfold⟩
    obtain ⟨span, -, hdivides⟩ := dividesByZero_of_fold hfold
    exact ⟨span, hdivides⟩
  · rintro ⟨span, hdivides⟩
    obtain ⟨-, hnodup, -⟩ := drafted_of_annotate h
    apply exists_error_of_dividesByZero _ hdivides
    rw [List.filterMap_map]
    simpa [Function.comp_def, Declaration.claim?_typeDeclaration] using hnodup
  · intro error hfold
    obtain ⟨span, rfl, hdivides⟩ := dividesByZero_of_fold hfold
    exact ⟨rfl, span, rfl, hdivides⟩

/-- A remainder by a later constant, and that constant: two less two. -/
def remainder : Module where
  span := .point .origin
  body := [
    constant "X" (.binary (.point .origin) (.numeral (.point .origin) .int "5") .mod
      (.name (.point .origin) "Z")),
    constant "Z" (.binary (.point .origin) (.numeral (.point .origin) .int "2") .sub
      (.numeral (.point .origin) .int "2"))]
  doc := none

theorem computes_remainder :
    Computes (remainder.body.map (Annotate.typeDeclaration [])) (.name (.point .origin) "Z") 0 := by
  have htwo : readInt? "2" = some 2 := rfl
  have hbody : ∃ before v value, remainder.body.map (Annotate.typeDeclaration []) =
      before ++ [.var v] ∧ v.modifiers.isConstant = true ∧ v.name = "Z" ∧
      v.value = some value ∧ Computes before value 0 :=
    ⟨[_], _, _, rfl, rfl, rfl, rfl,
      .binary (.numeral htwo _) (.numeral htwo _) (by decide) rfl _⟩
  obtain ⟨before, v, value, hbody, hconstant, hname, hvalue, hcomputes⟩ := hbody
  rw [← hname]
  exact .constant hbody hconstant hvalue hcomputes _

/-- The divisor is not known where the remainder is declared, so the constants are all taken in. -/
theorem fold_fails_iff_dividesByZero_remainder :
    ∃ tables tree error, remainder.annotate [] none .named = .ok tables ∧
      tables.tree = some tree ∧ constantsOf [] tree.body = .ok [("Z", .int 0)] ∧
      tree.fold = .error error ∧ error.kind = .foldingException := by
  cases hannotate : remainder.annotate [] none .named with
  | error error =>
    have hok : (remainder.annotate [] none .named).toOption.isSome = true := by decide +kernel
    rw [hannotate] at hok
    cases hok
  | ok tables =>
    obtain ⟨tree, htree, hiff, hkind⟩ := fold_fails_iff_dividesByZero hannotate
    have hbody := tree_of_annotate hannotate
    rw [htree] at hbody
    cases hbody
    have hfive : readInt? "5" = some 5 := rfl
    obtain ⟨error, hfold⟩ := hiff.mpr ⟨.point .origin, [0, 2], _, .mod, _, 5, rfl, by decide,
      .numeral hfive _, computes_remainder⟩
    exact ⟨tables, _, error, rfl, htree, rfl, hfold, (hkind error hfold).1⟩

end Module

end Vyper
