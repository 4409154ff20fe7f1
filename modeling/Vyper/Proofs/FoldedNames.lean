import Vyper.Proofs.FoldedReads

/-!
# Names that folding leaves

Folding removes every declaration of a constant, and replaces the names of those constants that it
found a value for. The two need not be the same: `Module.fold_closed_iff` says which names stay, and
that none of them is left without its declaration exactly if every constant that is read has a
value.
-/

namespace Vyper

open Folding

namespace Node

variable (cs : Constants)

theorem kind_substitute {n : Node} (h : n.kind ≠ .name) : (n.substitute cs).kind = n.kind := by
  cases n with
  | expr e =>
    cases e with
    | name span id => exact absurd rfl h
    | call span func args keywords =>
      cases func <;> simp [substitute, Folding.substitute, kind, Expr.kind]
    | _ => simp [substitute, Folding.substitute, kind, Expr.kind]
  | stmt s => cases s <;> simp [substitute, substituteStmt, kind, Stmt.kind]
  | _ => rfl

theorem kind_substitute_eq_call_iff (n : Node) :
    (n.substitute cs).kind = .call ↔ n.kind = .call := by
  by_cases h : n.kind = .name
  · obtain ⟨span, id, rfl⟩ := exists_name h
    simp only [substitute, Folding.substitute]
    cases cs.get? id with
    | none => rfl
    | some literal => cases literal <;> exact iff_of_false Kind.noConfusion Kind.noConfusion
  · rw [kind_substitute cs h]

/-- Substitution leaves it as it is whether a place is what a call calls. -/
theorem calls_trail_substitute {n c : Node} {path : List Nat} (h : n.at? path = some c) :
    Trail.calls ((n.substitute cs).trail path) = Trail.calls (n.trail path) := by
  induction path generalizing n with
  | nil => rfl
  | cons i path ih =>
    obtain ⟨field, part, hpart, hc⟩ := at?_cons_eq_some h
    have hsub : (n.substitute cs).parts[i]? = some (field, substituteAt cs [(n, field)] part) := by
      simp [parts_substitute, hpart]
    rw [trail_cons hsub, trail_cons hpart]
    cases path with
    | nil =>
      have hkind : ((n.substitute cs).kind == .call) = (n.kind == .call) :=
        Bool.eq_iff_iff.mpr (by simpa using kind_substitute_eq_call_iff cs n)
      simp only [trail, List.nil_append, Trail.calls, List.head?_cons, Option.any_some, hkind]
    | cons j path =>
      have hname : part.kind ≠ .name := by
        intro hname
        obtain ⟨span, id, rfl⟩ := exists_name hname
        cases hc
      have hplain : substituteAt cs [(n, field)] part = part.substitute cs := by
        rw [substituteAt, if_neg (fun h => hname h.1)]
      have hat := at?_substitute cs part (j :: path)
      rw [hc, Option.map_some] at hat
      rw [hplain, Trail.calls_append (trail_ne_nil hat (List.cons_ne_nil j path)),
        Trail.calls_append (trail_ne_nil hc (List.cons_ne_nil j path)), ih hc]

/-- A name is what substitution leaves of a name, called or without a value. -/
theorem substituteAt_eq_name_iff {trail : List (Node × String)} {n : Node} {span : Span}
    {id : String} :
    substituteAt cs trail n = .expr (.name span id) ↔
      n = .expr (.name span id) ∧ (Trail.calls trail = true ∨ cs.get? id = none) := by
  by_cases hname : n.kind = .name
  · obtain ⟨place, name, rfl⟩ := exists_name hname
    cases hcalls : Trail.calls trail with
    | true => simp [substituteAt, hcalls, kind, Expr.kind]
    | false =>
      cases hid : cs.get? name with
      | none =>
        simp only [substituteAt, hcalls, substitute, Folding.substitute, hid]
        grind
      | some literal =>
        have hne := literal.toExpr_ne_name place span id
        simp only [substituteAt, hcalls, substitute, Folding.substitute, hid]
        grind
  · rw [substituteAt, if_neg (fun h => hname h.1)]
    constructor
    · intro h
      have hkind := kind_substitute cs hname
      rw [h] at hkind
      exact absurd hkind.symm hname
    · rintro ⟨rfl, -⟩
      exact absurd rfl hname

end Node

namespace Folding

/-- A constant that is known stays known, with its value. -/
theorem get?_of_constantsOf {cs cs' : Constants} {ds : List Declaration} {id : String}
    {literal : Literal} (h : constantsOf cs ds = .ok cs') (hid : cs.get? id = some literal) :
    cs'.get? id = some literal := by
  induction ds generalizing cs with
  | nil =>
    cases h
    exact hid
  | cons d ds ih =>
    have hstep := constantsOf_append cs [d] ds
    rw [List.singleton_append, h] at hstep
    obtain ⟨next, hnext, hrest⟩ := exists_of_bind_eq_ok hstep.symm
    apply ih hrest
    rcases constantsOf_singleton hnext with rfl | ⟨v, value, found, -, -, -, -, rfl⟩
    · exact hid
    · rw [Constants.get?_concat, hid, Option.some_or]

/-- A constant whose value is known where it stands is known to the declarations behind it. -/
theorem constantsOf_var {cs earlier : Constants} {before : List Declaration} {v : VariableDef}
    {value : Expr} {literal : Literal} (hearlier : constantsOf cs before = .ok earlier)
    (hconstant : v.modifiers.isConstant = true) (hvalue : v.value = some value)
    (hev : evaluate earlier value = .ok (some literal)) (after : List Declaration) :
    constantsOf cs (before ++ .var v :: after) =
      constantsOf (earlier ++ [(v.name, literal)]) after := by
  rw [constantsOf_append, hearlier]
  change constantsOf earlier (.var v :: after) = _
  rw [constantsOf, hconstant, hvalue]
  dsimp only
  rw [hev]
  rfl

/-- A name is known after the declarations exactly if one of them declares it with a value. -/
theorem get?_eq_none_iff {cs : Constants} {ds : List Declaration} {id : String}
    (h : constantsOf [] ds = .ok cs) :
    cs.get? id = none ↔ ∀ literal, ¬ Declares [] ds id literal := by
  constructor
  · rintro hnone literal
      ⟨before, v, after, earlier, value, rfl, hearlier, hconstant, rfl, hvalue, hev⟩
    have hfound : (Constants.get? (earlier ++ [(v.name, literal)]) v.name).isSome := by
      rw [Constants.get?_concat, if_pos rfl, Option.isSome_or, Option.isSome_some, Bool.or_true]
    obtain ⟨found, hfound⟩ := Option.isSome_iff_exists.mp hfound
    rw [constantsOf_var hearlier hconstant hvalue hev] at h
    have hsome := get?_of_constantsOf h hfound
    rw [hnone] at hsome
    cases hsome
  · intro hdeclares
    cases hid : cs.get? id with
    | none => rfl
    | some literal =>
      rcases declares_of_constantsOf h hid with hnil | hdeclared
      · cases hnil
      · exact absurd hdeclared (hdeclares literal)

end Folding

namespace Module

variable {m m' : Module}

/-- The names of the constants a module declares. -/
def constantNames (m : Module) : List String := (m.body.filter isConstant).filterMap (·.claim?)

/-- A name stands at a place and is not what a call calls. -/
def ReadsAt (m : Module) (path : List Nat) (span : Span) (id : String) : Prop :=
  (Node.module m).at? path = some (.expr (.name span id)) ∧
    Trail.calls ((Node.module m).trail path) = false

/-- No name in a folded module is that of a constant whose declaration is gone. -/
def Closed (m m' : Module) : Prop :=
  ∀ path span id, m'.ReadsAt path span id → id ∉ m.constantNames

/-- The names in a folded module are those that no constant has a value under. -/
theorem readsAt_fold_iff (h : m.fold = .ok m') {path : List Nat} {span : Span} {id : String} :
    m'.ReadsAt path span id ↔
      m.withoutConstants.ReadsAt path span id ∧ ∀ literal, ¬ Declares [] m.body id literal := by
  cases hcs : constantsOf [] m.body with
  | error error =>
    rw [fold_of_error hcs] at h
    cases h
  | ok cs =>
    rw [← get?_eq_none_iff hcs, ReadsAt, ReadsAt, substitute_of_fold hcs h, Node.at?_substitute]
    cases hat : (Node.module m.withoutConstants).at? path with
    | none => simp
    | some n =>
      rw [Node.calls_trail_substitute cs hat, Option.map_some, Option.some.injEq,
        Node.substituteAt_eq_name_iff, Option.some.injEq]
      cases Trail.calls ((Node.module m.withoutConstants).trail path) <;> simp

/-- Folding leaves the names that no constant has a value under. None of them has lost its
declaration exactly if every constant that is read outside the declarations of constants is declared
with a value that is known where it stands. -/
theorem fold_closed_iff (h : m.fold = .ok m') :
    (∀ path span id, m'.ReadsAt path span id ↔
      m.withoutConstants.ReadsAt path span id ∧ ∀ literal, ¬ Declares [] m.body id literal) ∧
    (m.Closed m' ↔ ∀ path span id, m.withoutConstants.ReadsAt path span id →
      id ∈ m.constantNames → ∃ literal, Declares [] m.body id literal) := by
  refine ⟨fun path span id => readsAt_fold_iff h, ?_⟩
  constructor
  · intro hclosed path span id hreads hid
    apply Classical.byContradiction
    intro hnone
    have hreads' := (readsAt_fold_iff h).mpr ⟨hreads, not_exists.mp hnone⟩
    exact hclosed path span id hreads' hid
  · intro hvalues path span id hreads' hid
    obtain ⟨hreads, hnone⟩ := (readsAt_fold_iff h).mp hreads'
    obtain ⟨literal, hdeclares⟩ := hvalues path span id hreads hid
    exact hnone literal hdeclares

/-- Some constants, and a function that returns `X`. -/
def returningX (constants : List Declaration) : Module where
  span := .point .origin
  body := constants ++ [.function ⟨.point .origin, [], "f", ⟨.point .origin, [], []⟩, none,
    [.ret (.point .origin) (some (word "X"))], none⟩]
  doc := none

/-- A constant that is a later one, and the later one. -/
def forward : List Declaration :=
  [constant "X" (word "Y"), constant "Y" (number "1")]

/-- A constant of more than 128 bits. -/
def oversized : List Declaration :=
  [constant "X" (number "340282366920938463463374607431768211456")]

/-- Without a value for `X`, its name is still there when the constants are gone. -/
theorem readsAt_of_fold_returningX {constants : List Declaration} {cs : Constants} {m' : Module}
    (hcs : constantsOf [] (returningX constants).body = .ok cs) (hX : cs.get? "X" = none)
    (hconstants : ∀ d ∈ constants, isConstant d = true) (h : (returningX constants).fold = .ok m') :
    m'.ReadsAt [0, 1, 0] (.point .origin) "X" := by
  have hnone : constants.filter (!isConstant ·) = [] := by simpa using hconstants
  have hwithout : (returningX constants).withoutConstants = returningX [] := by
    rw [withoutConstants, returningX, List.filter_append, hnone]
    rfl
  refine (readsAt_fold_iff h).mpr ⟨?_, (get?_eq_none_iff hcs).mp hX⟩
  rw [hwithout]
  exact ⟨rfl, rfl⟩

theorem readsAt_forward :
    ∃ m', (returningX forward).fold = .ok m' ∧ m'.ReadsAt [0, 1, 0] (.point .origin) "X" := by
  have hcs : constantsOf [] (returningX forward).body = .ok [("Y", .int 1)] := rfl
  obtain ⟨m', hfold⟩ := exists_fold_of_everywhere hcs 5 (by decide)
  exact ⟨m', hfold, readsAt_of_fold_returningX hcs rfl (by decide) hfold⟩

theorem readsAt_oversized :
    ∃ m', (returningX oversized).fold = .ok m' ∧ m'.ReadsAt [0, 1, 0] (.point .origin) "X" := by
  have hcs : constantsOf [] (returningX oversized).body = .ok [] := rfl
  obtain ⟨m', hfold⟩ := exists_fold_of_everywhere hcs 5 (by decide)
  exact ⟨m', hfold, readsAt_of_fold_returningX hcs rfl (by decide) hfold⟩

theorem fold_closed_iff_forward :
    ∃ m', (returningX forward).fold = .ok m' ∧
      ∀ literal, ¬ Declares [] (returningX forward).body "X" literal := by
  obtain ⟨m', hfold, hreads⟩ := readsAt_forward
  exact ⟨m', hfold, (((fold_closed_iff hfold).1 _ _ _).mp hreads).2⟩

/-- A constant declared before what it reads, or too large, is removed but not replaced. -/
theorem fold_not_closed :
    (∃ m', (returningX forward).fold = .ok m' ∧ ¬ (returningX forward).Closed m') ∧
      ∃ m', (returningX oversized).fold = .ok m' ∧ ¬ (returningX oversized).Closed m' := by
  obtain ⟨m₁, hfold₁, hreads₁⟩ := readsAt_forward
  obtain ⟨m₂, hfold₂, hreads₂⟩ := readsAt_oversized
  exact ⟨⟨m₁, hfold₁, fun hclosed => hclosed _ _ _ hreads₁ (by decide)⟩,
    ⟨m₂, hfold₂, fun hclosed => hclosed _ _ _ hreads₂ (by decide)⟩⟩

end Module

end Vyper
