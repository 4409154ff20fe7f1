import Vyper.Proofs.Fallible
import Vyper.Proofs.Substitution

/-!
# What folding replaces

A name becomes a literal exactly if a constant has been given a value under it and it is not what a
call calls. What else it is there for (`Role`) plays no part, so folding is faithful as long as the
names that are bound, that name types or that stand for themselves keep apart from the constants
(`Module.Apart`).
-/

namespace Vyper

open Folding

mutual

/-- The names a statement binds in its function: typed locals and loop variables. -/
def Stmt.bound : Stmt → List String
  | .declare _ target _ _ _ => target.id?.toList
  | .branch _ _ body orelse => Stmt.boundIn body ++ Stmt.boundIn orelse
  | .loop _ (.bare target) _ body => target.id?.toList ++ Stmt.boundIn body
  | .loop _ (.typed _ target _ _) _ body => target.id?.toList ++ Stmt.boundIn body
  | _ => []

def Stmt.boundIn : List Stmt → List String
  | [] => []
  | s :: ss => s.bound ++ Stmt.boundIn ss

end

/-- The names a node binds for what is below it. -/
def Node.bound : Node → List String
  | .function f => f.params.params.map (·.name) ++ Stmt.boundIn f.body
  | _ => []

/-- The names bound by the functions around a place. -/
def Trail.locals (trail : List (Node × String)) : List String := trail.flatMap (·.1.bound)

/-- What something at a place is there for. -/
inductive Role where
  /-- Its value is wanted. -/
  | read
  | callee
  /-- It is bound or written to, as a whole or in part. -/
  | target
  /-- It is a type, or the module a type is from. -/
  | type
  /-- It stands for the parameters of a type, of which the first are types. -/
  | params (types : Nat)
  /-- It stands for itself: a key, a decorator, the variant of a flag, what a clause names, or what
  a function of an interface says instead of a body. -/
  | label
deriving DecidableEq

namespace Role

/-- The role of what an index says about a type: a map has two types, and a dynamic array a type and
a size. Any other index is a size. -/
def index (constructor : Expr) : Role :=
  match constructor.id? with
  | some "HashMap" => .params 2
  | some "DynArray" => .params 1
  | _ => .read

/-- The role of a part of a type. A size is read; a wrapper has the type for its first argument. -/
def partOfType (e : Expr) (i : Nat) (field : String) : Role :=
  match e with
  | .call _ func _ _ => if i = 1 ∧ func.id?.any Expr.wrappers.contains then .type else .read
  | .subscript _ value _ => if field = "value" then .type else index value
  | .member .. | .tuple .. => .type
  | _ => .read

/-- The built-in functions that are given a type, with its place behind the function. -/
def typeArguments : List (String × Nat) :=
  [("convert", 2), ("abi_decode", 2), ("_abi_decode", 2), ("empty", 1), ("min_value", 1),
    ("max_value", 1), ("epsilon", 1)]

/-- The role of a part of an expression. -/
def partOfExpr (role : Role) (e : Expr) (i : Nat) (field : String) : Role :=
  match role, e with
  | _, .dict .. => if field = "keys" then .label else .read
  | .type, _ => partOfType e i field
  | .params types, .tuple .. => if i < types then .type else .read
  | .params _, _ => partOfType e i field
  | .target, .tuple .. | .target, .list .. | .target, .member .. => .target
  | .target, .subscript .. => if field = "value" then .target else .read
  | .label, .tuple .. | .label, .member .. | .label, .subscript .. => .label
  | _, .call _ func _ _ =>
    if func.id?.any fun name => typeArguments.contains (name, i) then .type else .read
  | _, _ => .read

/-- The role of the part of a node at an index, which is in a field. -/
def part (role : Role) (n : Node) (i : Nat) (field : String) : Role :=
  if n.kind = .call ∧ field = "func" then .callee
  else
    match n with
    | .expr e => role.partOfExpr e i field
    | .members d => if d.kind = .flag then .label else .read
    | .clause _ | .interface _ => .label
    | .keyword k => if k.name = "output_type" then .type else .read
    | .function _ =>
      if field = "returns" then .type
      else if field = "decorator_list" then .label
      else if field = "body" ∧ role = .label then .label
      else .read
    | .stmt (.eval ..) => if role = .label then .label else .read
    | _ =>
      if field = "target" then .target
      else if field = "annotation" then .type
      else .read

theorem partOfType_ne_callee (e : Expr) (i : Nat) (field : String) :
    partOfType e i field ≠ .callee := by
  unfold partOfType index
  repeat' split
  all_goals simp

theorem part_eq_callee_iff {role : Role} {n : Node} {i : Nat} {field : String} :
    role.part n i field = .callee ↔ Trail.calls [(n, field)] = true := by
  by_cases h : n.kind = .call ∧ field = "func"
  · simp [part, h, Trail.calls]
  · have hne : role.part n i field ≠ .callee := by
      unfold part partOfExpr
      rw [if_neg h]
      repeat' split
      all_goals first | exact partOfType_ne_callee _ _ _ | simp
    simpa [hne, Trail.calls] using h

end Role

namespace Node

/-- The role of what is at the end of a path from a node in a role. -/
def role : Role → Node → List Nat → Role
  | r, _, [] => r
  | r, n, i :: path =>
    match n.parts[i]? with
    | some (field, part) => part.role (r.part n i field) path
    | none => r

end Node

/-- The module without the declarations of its constants. -/
def Module.withoutConstants (m : Module) : Module :=
  { m with body := m.body.filter (!isConstant ·) }

/-- A name occurs in a role in a node that has a role itself. -/
def Node.Names (n : Node) (own role : Role) (id : String) : Prop :=
  ∃ path span, n.at? path = some (.expr (.name span id)) ∧ n.role own path = role

/-- What the end of a path in a module without its constants is there for. -/
def Module.roleAt (m : Module) (path : List Nat) : Role :=
  (Node.module m.withoutConstants).role .read path

/-- Names keep apart from the constants of a module: no constant has the name of a target, of a type
or of something that stands for itself, and none has a name that a function both binds and reads. -/
structure Module.Apart (m : Module) (cs : Constants) : Prop where
  roles : ∀ role, role ≠ .read → role ≠ .callee → ∀ id,
    (Node.module m.withoutConstants).Names .read role id → cs.get? id = none
  locals : ∀ path f, (Node.module m.withoutConstants).at? path = some (.function f) →
    ∀ id ∈ (Node.function f).bound, (Node.function f).Names (m.roleAt path) .read id →
      cs.get? id = none

/-- A name at the end of a path is read, and no function around it binds it. -/
structure Module.Reads (m : Module) (path : List Nat) (id : String) : Prop where
  roleAt_eq : m.roleAt path = .read
  not_mem_locals : id ∉ Trail.locals ((Node.module m.withoutConstants).trail path)

namespace Node

variable {n c : Node} {r : Role} {p : List Nat}

theorem role_cons {part : Node} {field : String} {i : Nat} (h : n.parts[i]? = some (field, part))
    (path : List Nat) : n.role r (i :: path) = part.role (r.part n i field) path := by
  rw [role, h]

theorem role_append (h : n.at? p = some c) (q : List Nat) :
    n.role r (p ++ q) = c.role (n.role r p) q := by
  induction p generalizing n r with
  | nil =>
    cases h
    rfl
  | cons i p ih =>
    obtain ⟨field, part, hpart, hc⟩ := at?_cons_eq_some h
    rw [List.cons_append, role_cons hpart, role_cons hpart, ih hc]

/-- What is called by name is told from its place. -/
theorem role_eq_callee_iff (h : n.at? p = some c) (hp : p ≠ []) :
    n.role r p = .callee ↔ Trail.calls (n.trail p) = true := by
  induction p generalizing n r with
  | nil => exact absurd rfl hp
  | cons i p ih =>
    obtain ⟨field, part, hpart, hc⟩ := at?_cons_eq_some h
    rw [role_cons hpart, trail_cons hpart]
    cases p with
    | nil => exact Role.part_eq_callee_iff
    | cons j p =>
      rw [Trail.calls_append (trail_ne_nil hc (List.cons_ne_nil j p))]
      exact ih hc (List.cons_ne_nil j p)

/-- A name is bound around a place if a function above the place binds it. -/
theorem exists_of_mem_locals {id : String} (h : n.at? p = some c)
    (hid : id ∈ Trail.locals (n.trail p)) :
    ∃ front back f, p = front ++ back ∧ back ≠ [] ∧ n.at? front = some (.function f) ∧
      id ∈ (Node.function f).bound := by
  induction p generalizing n with
  | nil => cases hid
  | cons i p ih =>
    obtain ⟨field, part, hpart, hc⟩ := at?_cons_eq_some h
    rw [trail_cons hpart, Trail.locals, List.flatMap_append, List.mem_append] at hid
    rcases hid with hid | hid
    · obtain ⟨front, back, f, rfl, hback, hf, hbound⟩ := ih hc hid
      exact ⟨i :: front, back, f, rfl, hback, (at?_cons hpart front).trans hf, hbound⟩
    · rw [List.flatMap_singleton] at hid
      cases n with
      | function f => exact ⟨[], i :: p, f, rfl, List.cons_ne_nil i p, rfl, hid⟩
      | _ => cases hid

theorem bound_subset_locals (h : n.at? p = some c) (hp : p ≠ []) :
    n.bound ⊆ Trail.locals (n.trail p) := by
  cases p with
  | nil => exact absurd rfl hp
  | cons i p =>
    obtain ⟨field, part, hpart, -⟩ := at?_cons_eq_some h
    rw [trail_cons hpart, Trail.locals, List.flatMap_append]
    exact List.subset_append_of_subset_right _ (by simp)

/-- A test of a node and of everything in it, in their roles. Nothing may be deeper than a number.
-/
def everywhere (test : Role → Node → Bool) : Nat → Role → Node → Bool
  | 0, _, _ => false
  | depth + 1, r, n => test r n && n.parts.zipIdx.all fun (part, i) =>
    part.2.everywhere test depth (r.part n i part.1)

theorem of_everywhere {test : Role → Node → Bool} {depth : Nat}
    (h : n.everywhere test depth r = true) (hc : n.at? p = some c) :
    test (n.role r p) c = true := by
  induction depth generalizing r n p with
  | zero => cases h
  | succ depth ih =>
    rw [everywhere, Bool.and_eq_true] at h
    cases p with
    | nil =>
      cases hc
      exact h.1
    | cons i p =>
      obtain ⟨field, part, hpart, hc⟩ := at?_cons_eq_some hc
      rw [role_cons hpart]
      have hmem : ((field, part), i) ∈ n.parts.zipIdx := List.mem_zipIdx_iff_getElem?.mpr hpart
      exact ih (List.all_eq_true.mp h.2 _ hmem) hc

end Node

theorem Literal.toExpr_ne_name (literal : Literal) (span place : Span) (id : String) :
    literal.toExpr span ≠ .name place id := by
  cases literal <;> nofun

namespace Folding

/-- The declarations hold a constant under a name, and the constants before it give it a value. -/
def Declares (cs : Constants) (ds : List Declaration) (id : String) (literal : Literal) : Prop :=
  ∃ before v after earlier value, ds = before ++ .var v :: after ∧
    constantsOf cs before = .ok earlier ∧ v.modifiers.isConstant = true ∧ v.name = id ∧
    v.value = some value ∧ evaluate earlier value = .ok (some literal)

theorem constantsOf_append (cs : Constants) (as bs : List Declaration) :
    constantsOf cs (as ++ bs) = constantsOf cs as >>= fun cs => constantsOf cs bs := by
  induction as generalizing cs with
  | nil => rfl
  | cons a as ih =>
    cases a with
    | var v =>
      rw [List.cons_append, constantsOf, constantsOf]
      split
      · rename_i value _ _
        cases evaluate cs value with
        | error e => rfl
        | ok found =>
          cases found with
          | none => exact ih cs
          | some literal => exact ih (cs ++ [(v.name, literal)])
      · exact ih cs
    | _ => exact ih cs

/-- One declaration adds nothing, or the value of the constant it declares. -/
theorem constantsOf_singleton {cs next : Constants} {d : Declaration}
    (h : constantsOf cs [d] = .ok next) :
    next = cs ∨ ∃ v value literal, d = .var v ∧ v.modifiers.isConstant = true ∧
      v.value = some value ∧ evaluate cs value = .ok (some literal) ∧
      next = cs ++ [(v.name, literal)] := by
  cases d with
  | var v =>
    rw [constantsOf] at h
    split at h
    · rename_i value hconstant hvalue
      cases hev : evaluate cs value with
      | error e =>
        rw [hev] at h
        cases h
      | ok found =>
        rw [hev] at h
        cases found with
        | none =>
          cases h
          exact .inl rfl
        | some literal =>
          cases h
          exact .inr ⟨v, value, literal, rfl, hconstant, hvalue, hev, rfl⟩
    · cases h
      exact .inl rfl
  | _ =>
    cases h
    exact .inl rfl

theorem Constants.get?_concat (cs : Constants) (name : String) (literal : Literal) (id : String) :
    Constants.get? (cs ++ [(name, literal)]) id =
      (cs.get? id).or (if name = id then some literal else none) := by
  simp only [Constants.get?, List.find?_append, Option.map_or]
  congr 1
  by_cases h : name = id <;> simp [h]

/-- What a name has been found to stand for was known before or has been declared. -/
theorem declares_of_constantsOf {cs cs' : Constants} {ds : List Declaration} {id : String}
    {literal : Literal} (h : constantsOf cs ds = .ok cs') (hid : cs'.get? id = some literal) :
    cs.get? id = some literal ∨ Declares cs ds id literal := by
  induction ds generalizing cs with
  | nil =>
    cases h
    exact .inl hid
  | cons d ds ih =>
    have hstep := constantsOf_append cs [d] ds
    rw [List.singleton_append, h] at hstep
    cases hnext : constantsOf cs [d] with
    | error e =>
      rw [hnext] at hstep
      cases hstep
    | ok next =>
      rw [hnext] at hstep
      rcases ih hstep.symm with hknown | ⟨before, v, after, earlier, value, rfl, hearlier, hrest⟩
      · rcases constantsOf_singleton hnext with rfl | ⟨v, value, found, rfl, hc, hv, hev, rfl⟩
        · exact .inl hknown
        · rw [Constants.get?_concat, Option.or_eq_some_iff] at hknown
          rcases hknown with hknown | ⟨-, hfound⟩
          · exact .inl hknown
          · by_cases hname : v.name = id
            · rw [if_pos hname] at hfound
              cases hfound
              exact .inr ⟨[], v, ds, cs, value, rfl, rfl, hc, hname, hv, hev⟩
            · rw [if_neg hname] at hfound
              cases hfound
      · have hbefore : constantsOf cs (d :: before) = .ok earlier := by
          rw [← List.singleton_append, constantsOf_append, hnext]
          exact hearlier
        exact .inr ⟨d :: before, v, after, earlier, value, rfl, hbefore, hrest⟩

/-- The constants that names bound closer by do not hide. -/
def Constants.hide (cs : Constants) (names : List String) : Constants :=
  cs.filter fun c => !names.contains c.1

theorem Constants.get?_hide {cs : Constants} {names : List String} {id : String}
    (h : (cs.get? id).isSome → id ∉ names) : (cs.hide names).get? id = cs.get? id := by
  induction cs with
  | nil => rfl
  | cons c cs ih =>
    simp only [Constants.get?, Constants.hide, List.find?_cons, List.filter_cons] at *
    by_cases hc : c.1 = id
    · subst hc
      have hmem : c.1 ∉ names := h (by simp)
      simp [hmem]
    · have hne : (c.1 == id) = false := by simpa using hc
      simp only [hne] at h ⊢
      rw [← ih h]
      split
      · rw [List.find?_cons, hne]
      · rfl

/-- Every constant a node names, other than to call it, is one that stays in sight. -/
def InSight (cs : Constants) (names : List String) (n : Node) : Prop :=
  ∀ path span id, n.at? path = some (.expr (.name span id)) → (cs.get? id).isSome →
    Trail.calls (n.trail path) = false → id ∉ names

theorem InSight.part {cs : Constants} {names : List String} {n part : Node} {i : Nat}
    {field : String} (h : InSight cs names n) (hpart : n.parts[i]? = some (field, part))
    (hfield : field ≠ "func") : InSight cs names part := by
  intro path span id hname hid hcalls
  apply h (i :: path) span id _ hid
  · rw [Node.trail_cons hpart]
    exact Trail.calls_concat hcalls hfield n
  · rw [Node.at?_cons hpart, hname]

/-- Hiding constants that an expression does not name leaves its value as it is. -/
theorem evaluate_hide {cs : Constants} {names : List String} {e : Expr}
    (h : InSight cs names (.expr e)) : evaluate (cs.hide names) e = evaluate cs e := by
  fun_induction evaluate cs e with
  | case6 span id =>
    rw [evaluate, Constants.get?_hide]
    intro hid
    exact h [] span id rfl hid rfl
  | case7 span op operand ih =>
    have hoperand : InSight cs names (.expr operand) := h.part (i := 0) rfl (by decide)
    rw [evaluate, ih hoperand]
  | case8 span left op right ihl ihr =>
    have hleft : InSight cs names (.expr left) := h.part (i := 0) rfl (by decide)
    have hright : InSight cs names (.expr right) := h.part (i := 1) rfl (by decide)
    simp only [evaluate, ihl hleft, ihr hright]
  | case9 e => rw [evaluate] <;> assumption
  | _ => rfl

/-- Evaluation that fails has met a division by zero between known operands. -/
theorem division_of_evaluate {cs : Constants} {e : Expr} {error : CompileError}
    (h : evaluate cs e = .error error) :
    ∃ path span left op right l,
      (Node.expr e).at? path = some (.expr (.binary span left op right)) ∧
      divides op = true ∧ evaluate cs left = .ok (some (.int l)) ∧
      evaluate cs right = .ok (some (.int 0)) ∧ error = .located .divisionByZero span := by
  fun_induction evaluate cs e with
  | case7 span op operand ih =>
    rcases exists_of_bind_eq_error h with hoperand | ⟨value, -, h⟩
    · obtain ⟨path, place, left, op', right, l, hat, hrest⟩ := ih hoperand
      exact ⟨0 :: path, place, left, op', right, l, hat, hrest⟩
    · split at h <;> cases h
  | case8 span left op right ihl ihr =>
    rcases exists_of_bind_eq_error h with hleft | ⟨first, hleft, h⟩
    · obtain ⟨path, place, left', op', right', l, hat, hrest⟩ := ihl hleft
      exact ⟨0 :: path, place, left', op', right', l, hat, hrest⟩
    rcases exists_of_bind_eq_error h with hright | ⟨second, hright, h⟩
    · obtain ⟨path, place, left', op', right', l, hat, hrest⟩ := ihr hright
      exact ⟨1 :: path, place, left', op', right', l, hat, hrest⟩
    split at h
    · next l r _ =>
      split at h
      · next hzero =>
        cases h
        simp only [Bool.and_eq_true, decide_eq_true_eq] at hzero
        obtain ⟨hdivides, rfl⟩ := hzero
        exact ⟨[], span, left, op, right, l, rfl, hdivides, hleft, hright, rfl⟩
      · cases h
    · cases h
  | _ => cases h

/-- Constants that cannot be taken in have one among them whose value cannot be found. -/
theorem declaration_of_constantsOf {cs : Constants} {ds : List Declaration} {error : CompileError}
    (h : constantsOf cs ds = .error error) :
    ∃ before v after earlier value, ds = before ++ .var v :: after ∧
      constantsOf cs before = .ok earlier ∧ v.value = some value ∧
      evaluate earlier value = .error error := by
  induction ds generalizing cs with
  | nil => cases h
  | cons d ds ih =>
    have hstep := constantsOf_append cs [d] ds
    rw [List.singleton_append, h] at hstep
    rcases exists_of_bind_eq_error hstep.symm with hd | ⟨next, hnext, hrest⟩
    · cases d with
      | var v =>
        rw [constantsOf] at hd
        split at hd
        · next value hconstant hvalue =>
          rcases exists_of_bind_eq_error hd with hev | ⟨found, -, hd⟩
          · exact ⟨[], v, ds, cs, value, rfl, rfl, hvalue, hev⟩
          · cases found <;> cases hd
        · cases hd
      | _ => cases hd
    · obtain ⟨before, v, after, earlier, value, rfl, hbefore, hvalue, hev⟩ := ih hrest
      refine ⟨d :: before, v, after, earlier, value, rfl, ?_, hvalue, hev⟩
      rw [← List.singleton_append, constantsOf_append, hnext]
      exact hbefore

/-- What folding asks of a site: an operation there has to have no division by zero in it. -/
def inspect (cs : Constants) (s : Site) : Except CompileError Unit :=
  match s.node with
  | .expr e => if s.kind = .binary then discard (evaluate cs e) else .ok ()
  | _ => .ok ()

theorem inspect_eq_error_iff {cs : Constants} {s : Site} {error : CompileError} :
    inspect cs s = .error error ↔
      ∃ e, s.node = .expr e ∧ e.kind = .binary ∧ evaluate cs e = .error error := by
  obtain ⟨node, field, above⟩ := s
  cases node with
  | expr e =>
    by_cases hkind : e.kind = .binary
    · cases hfound : evaluate cs e <;>
        simp [inspect, Site.kind, Node.kind, hkind, hfound, discard, Functor.discard, Except.map,
          Functor.mapConst]
    · simp [inspect, Site.kind, Node.kind, hkind]
  | _ => simp [inspect]

end Folding

namespace Node

/-- Whether a node is part of an expression or a variable: no function stands below it. -/
def isSimple : Node → Bool
  | .expr _ | .keyword _ | .var _ => true
  | _ => false

theorem isSimple_of_mem_parts {n : Node} {part : String × Node} (hn : n.isSimple)
    (h : part ∈ n.parts) : part.2.isSimple := by
  cases n with
  | expr e =>
    cases e <;> simp [parts, fields, Expr.fields, partsOf, FieldValue.exprs] at h <;>
      grind [isSimple]
  | keyword k =>
    obtain rfl : part = ("value", .expr k.value) := by simpa [parts, fields, partsOf] using h
    rfl
  | var v =>
    obtain ⟨span, target, type, value, modifiers, resolved⟩ := v
    cases value <;> cases resolved <;>
      simp [parts, fields, partsOf, FieldValue.expr?, FieldValue.text?] at h <;>
      grind [isSimple]
  | _ => cases hn

theorem locals_trail_of_isSimple {n : Node} (hn : n.isSimple) (path : List Nat) :
    Trail.locals (n.trail path) = [] := by
  induction path generalizing n with
  | nil => rfl
  | cons i path ih =>
    have hbound : n.bound = [] := by cases n <;> first | rfl | cases hn
    cases hpart : n.parts[i]? with
    | none => simp [trail, hpart, Trail.locals]
    | some step =>
      obtain ⟨field, part⟩ := step
      have hsimple := isSimple_of_mem_parts hn (List.mem_of_getElem? hpart)
      rw [trail_cons hpart, Trail.locals, List.flatMap_append, ← Trail.locals, ih hsimple]
      simp [hbound]

theorem parts_module_of_getElem? {m : Module} {i : Nat} {d : Declaration}
    (h : m.body[i]? = some d) : (Node.module m).parts[i]? = some ("body", d.toNode) := by
  simp [parts_module, h]

theorem locals_trail_module {m : Module} {i : Nat} {d : Declaration} (h : m.body[i]? = some d)
    (path : List Nat) :
    Trail.locals ((Node.module m).trail (i :: path)) = Trail.locals (d.toNode.trail path) := by
  rw [trail_cons (parts_module_of_getElem? h), Trail.locals, List.flatMap_append]
  exact List.append_nil _

end Node

namespace Module

variable {m m' : Module} {cs : Constants} {error : CompileError}

/-- An expression of a module has no locals around it, or stays when the constants go. -/
theorem locals_eq_nil_or_stays {path : List Nat} {e : Expr}
    (h : (Node.module m).at? path = some (.expr e)) :
    Trail.locals ((Node.module m).trail path) = [] ∨
      ∃ kept, (Node.module m.withoutConstants).at? kept = some (.expr e) ∧
        Trail.locals ((Node.module m.withoutConstants).trail kept) =
          Trail.locals ((Node.module m).trail path) := by
  cases path with
  | nil => cases h
  | cons i path =>
    obtain ⟨field, part, hpart, he⟩ := Node.at?_cons_eq_some h
    rw [Node.parts_module, List.getElem?_map, Option.map_eq_some_iff] at hpart
    obtain ⟨d, hd, hfield⟩ := hpart
    cases hfield
    rw [Node.locals_trail_module hd]
    cases hconstant : isConstant d with
    | true =>
      left
      cases d with
      | var v => exact Node.locals_trail_of_isSimple rfl path
      | _ => cases hconstant
    | false =>
      right
      have hmem : d ∈ m.withoutConstants.body :=
        List.mem_filter.mpr ⟨List.mem_of_getElem? hd, by simp [hconstant]⟩
      obtain ⟨j, hj⟩ := List.mem_iff_getElem?.mp hmem
      have hkept := Node.at?_cons (Node.parts_module_of_getElem? hj) path
      exact ⟨j :: path, hkept.trans he, Node.locals_trail_module hj path⟩

theorem calls_eq_false_iff {path : List Nat} {span : Span} {id : String}
    (h : (Node.module m.withoutConstants).at? path = some (.expr (.name span id))) :
    Trail.calls ((Node.module m.withoutConstants).trail path) = false ↔
      m.roleAt path ≠ .callee := by
  have hne : path ≠ [] := by
    rintro rfl
    cases h
  rw [← Bool.not_eq_true, ← Node.role_eq_callee_iff h hne]
  rfl

/-- In a module apart from its constants, what has the name of a constant is read or called. -/
theorem Apart.reads (h : m.Apart cs) {path : List Nat} {span : Span} {id : String}
    (hname : (Node.module m.withoutConstants).at? path = some (.expr (.name span id)))
    (hid : (cs.get? id).isSome) (hcallee : m.roleAt path ≠ .callee) : m.Reads path id := by
  have hrole : m.roleAt path = .read := by
    refine Decidable.byContradiction fun hne => ?_
    rw [h.roles _ hne hcallee id ⟨path, span, hname, rfl⟩] at hid
    cases hid
  refine ⟨hrole, fun hlocal => ?_⟩
  obtain ⟨front, back, f, rfl, hback, hf, hbound⟩ := Node.exists_of_mem_locals hname hlocal
  rw [Node.at?_append hf] at hname
  rw [roleAt, Node.role_append hf] at hrole
  rw [h.locals front f hf id hbound ⟨back, span, hname, hrole⟩] at hid
  cases hid

theorem apart_of_reads (h : ∀ path span id,
      (Node.module m.withoutConstants).at? path = some (.expr (.name span id)) →
      (cs.get? id).isSome → m.roleAt path ≠ .callee → m.Reads path id) : m.Apart cs := by
  constructor
  · rintro role hread hcallee id ⟨path, span, hname, rfl⟩
    refine Option.not_isSome_iff_eq_none.mp fun hid => ?_
    exact hread (h path span id hname hid hcallee).roleAt_eq
  · rintro front f hf id hbound ⟨back, span, hname, hrole⟩
    have hback : back ≠ [] := by
      rintro rfl
      cases hname
    have hall := (Node.at?_append hf back).trans hname
    have hroleAt : m.roleAt (front ++ back) = .read := (Node.role_append hf back).trans hrole
    refine Option.not_isSome_iff_eq_none.mp fun hid => ?_
    refine (h (front ++ back) span id hall hid ?_).not_mem_locals ?_
    · rw [hroleAt]
      decide
    · rw [Node.trail_append hf, Trail.locals, List.flatMap_append]
      exact List.mem_append_left _ (Node.bound_subset_locals hname hback hbound)

/-- In a module apart from its constants, an expression names only constants that the functions
around it leave in sight. -/
theorem Apart.inSight (h : m.Apart cs) {path : List Nat} {e : Expr}
    (he : (Node.module m.withoutConstants).at? path = some (.expr e)) (hkind : e.kind ≠ .name) :
    InSight cs (Trail.locals ((Node.module m.withoutConstants).trail path)) (.expr e) := by
  intro q span id hname hid hcalls hmem
  have hne : q ≠ [] := by
    rintro rfl
    cases hname
    exact hkind rfl
  have htrail := Node.trail_append he q
  have hall := (Node.at?_append he q).trans hname
  have hcallee : m.roleAt (path ++ q) ≠ .callee := by
    rw [← calls_eq_false_iff hall, htrail, Trail.calls_append (Node.trail_ne_nil hname hne), hcalls]
  apply (h.reads hall hid hcallee).not_mem_locals
  rw [htrail, Trail.locals, List.flatMap_append]
  exact List.mem_append_right _ hmem

theorem fold_eq (hcs : constantsOf [] m.body = .ok cs) :
    m.fold = ({ node := .module m } : Site).descendants.forM (inspect cs) >>= fun _ =>
      .ok { m with body := m.withoutConstants.body.map (substituteDeclaration cs) } := by
  rw [fold, hcs]
  rfl

theorem fold_of_error (h : constantsOf [] m.body = .error error) : m.fold = .error error := by
  rw [fold, h]
  rfl

theorem substitute_of_fold (hcs : constantsOf [] m.body = .ok cs) (h : m.fold = .ok m') :
    Node.module m' = (Node.module m.withoutConstants).substitute cs := by
  rw [fold_eq hcs] at h
  cases hsites : ({ node := .module m } : Site).descendants.forM (inspect cs) with
  | error e =>
    rw [hsites] at h
    cases h
  | ok _ =>
    rw [hsites] at h
    cases h
    rfl

/-- Folding that fails once the constants are known has met an operation that fails. -/
theorem operation_of_fold (hcs : constantsOf [] m.body = .ok cs) (h : m.fold = .error error) :
    ∃ path e, (Node.module m).at? path = some (.expr e) ∧ e.kind = .binary ∧
      evaluate cs e = .error error := by
  rw [fold_eq hcs] at h
  cases hsites : ({ node := .module m } : Site).descendants.forM (inspect cs) with
  | ok _ =>
    rw [hsites] at h
    cases h
  | error e =>
    rw [hsites] at h
    cases h
    obtain ⟨s, hs, herror⟩ := exists_of_forM_eq_error hsites
    obtain ⟨path, hpath⟩ := Site.exists_path hs
    obtain ⟨e, hnode, hkind, hev⟩ := inspect_eq_error_iff.mp herror
    exact ⟨path, e, hpath.trans (congrArg some hnode), hkind, hev⟩

/-- One operation that fails is enough for folding to fail. -/
theorem exists_fold_eq_error (hcs : constantsOf [] m.body = .ok cs) {path : List Nat} {e : Expr}
    (he : (Node.module m).at? path = some (.expr e)) (hkind : e.kind = .binary)
    (herror : evaluate cs e = .error error) : ∃ error, m.fold = .error error := by
  have hne : path ≠ [] := by
    rintro rfl
    cases he
  obtain ⟨s, hs, hnode⟩ := Site.exists_mem_descendants (r := { node := .module m }) he hne
  obtain ⟨error', hforM⟩ :=
    exists_forM_eq_error hs (inspect_eq_error_iff.mpr ⟨e, hnode, hkind, herror⟩)
  rw [fold_eq hcs, hforM]
  exact ⟨error', rfl⟩

theorem operation_in_sight (h : m.Apart cs) {path : List Nat} {e : Expr}
    (he : (Node.module m).at? path = some (.expr e)) (hkind : e.kind = .binary) :
    evaluate (cs.hide (Trail.locals ((Node.module m).trail path))) e = evaluate cs e := by
  apply evaluate_hide
  rcases locals_eq_nil_or_stays he with hnil | ⟨kept, hkept, hlocals⟩
  · rw [hnil]
    intro _ _ _ _ _ _
    exact List.not_mem_nil
  · rw [← hlocals]
    apply h.inSight hkept
    rw [hkind]
    decide

/-- What folding makes of a name. -/
theorem at?_of_fold (hcs : constantsOf [] m.body = .ok cs) (h : m.fold = .ok m') {path : List Nat}
    {span : Span} {id : String}
    (hname : (Node.module m.withoutConstants).at? path = some (.expr (.name span id))) :
    (Node.module m').at? path = some (
      if Trail.calls ((Node.module m.withoutConstants).trail path) then .expr (.name span id)
      else .expr (((cs.get? id).map (Literal.toExpr span)).getD (.name span id))) := by
  rw [substitute_of_fold hcs h, Node.at?_substitute, hname, Option.map_some, Node.substituteAt]
  cases Trail.calls ((Node.module m.withoutConstants).trail path) with
  | true => rfl
  | false => cases hid : cs.get? id <;> simp [Node.substitute, substitute, hid]

/-- A literal of the folded module stands where the module without its constants has a name. -/
def Replaced (m m' : Module) (path : List Nat) (span : Span) (id : String) : Prop :=
  (Node.module m.withoutConstants).at? path = some (.expr (.name span id)) ∧
    ∃ literal : Literal, (Node.module m').at? path = some (.expr (literal.toExpr span))

theorem replaced_iff (hcs : constantsOf [] m.body = .ok cs) (h : m.fold = .ok m') {path : List Nat}
    {span : Span} {id : String} :
    Replaced m m' path span id ↔
      (Node.module m.withoutConstants).at? path = some (.expr (.name span id)) ∧
        (cs.get? id).isSome ∧ m.roleAt path ≠ .callee := by
  refine and_congr_right fun hname => ?_
  rw [at?_of_fold hcs h hname, ← calls_eq_false_iff hname]
  cases Trail.calls ((Node.module m.withoutConstants).trail path) with
  | true => simp [(Literal.toExpr_ne_name _ _ _ _).symm]
  | false =>
    cases cs.get? id with
    | none => simp [(Literal.toExpr_ne_name _ _ _ _).symm]
    | some literal => exact iff_of_true ⟨literal, rfl⟩ ⟨rfl, rfl⟩

/-- A name that folding replaces becomes the value of the constant declared under it. It is always
a read of that constant, outside every function that binds the name, exactly if the module keeps
apart from its constants; a division by zero is then found with the bound names hidden, too. -/
theorem fold_reads_iff_apart (m : Module) :
    (∀ m', m.fold = .ok m' → ∃ cs, constantsOf [] m.body = .ok cs ∧
      (∀ path span id,
        (Node.module m.withoutConstants).at? path = some (.expr (.name span id)) →
        ((cs.get? id = none ∨ m.roleAt path = .callee) ∧
          (Node.module m').at? path = some (.expr (.name span id))) ∨
        ∃ literal, cs.get? id = some literal ∧ Declares [] m.body id literal ∧
          m.roleAt path ≠ .callee ∧
          (Node.module m').at? path = some (.expr (literal.toExpr span))) ∧
      ((∀ path span id, Replaced m m' path span id → m.Reads path id) ↔ m.Apart cs)) ∧
    (∀ error, m.fold = .error error →
      constantsOf [] m.body = .error error ∨
        ∃ cs, constantsOf [] m.body = .ok cs ∧
          (m.Apart cs → ∃ path e, (Node.module m).at? path = some (.expr e) ∧
            evaluate (cs.hide (Trail.locals ((Node.module m).trail path))) e = .error error)) := by
  cases hcs : constantsOf [] m.body with
  | error e =>
    rw [fold_of_error hcs]
    refine ⟨nofun, fun error herror => ?_⟩
    cases herror
    exact .inl rfl
  | ok cs =>
    constructor
    · intro m' hfold
      refine ⟨cs, rfl, fun path span id hname => ?_, ?_, ?_⟩
      · have hcallee := calls_eq_false_iff hname
        rw [at?_of_fold hcs hfold hname]
        cases hcalls : Trail.calls ((Node.module m.withoutConstants).trail path) with
        | true => exact .inl ⟨.inr (by simpa [hcalls] using hcallee), rfl⟩
        | false =>
          cases hid : cs.get? id with
          | none => exact .inl ⟨.inl rfl, rfl⟩
          | some literal =>
            rcases declares_of_constantsOf hcs hid with hnil | hdeclares
            · cases hnil
            · exact .inr ⟨literal, rfl, hdeclares, hcallee.mp hcalls, rfl⟩
      · intro hreads
        refine apart_of_reads fun path span id hname hid hcallee => ?_
        exact hreads path span id ((replaced_iff hcs hfold).mpr ⟨hname, hid, hcallee⟩)
      · intro hapart path span id hreplaced
        obtain ⟨hname, hid, hcallee⟩ := (replaced_iff hcs hfold).mp hreplaced
        exact hapart.reads hname hid hcallee
    · intro error hfold
      refine .inr ⟨cs, rfl, fun hapart => ?_⟩
      obtain ⟨path, e, he, hkind, herror⟩ := operation_of_fold hcs hfold
      exact ⟨path, e, he, (operation_in_sight hapart he hkind).trans herror⟩

/-- Without an operation there is nothing that can fail. -/
theorem exists_fold_of_everywhere (hcs : constantsOf [] m.body = .ok cs) (depth : Nat)
    (h : (Node.module m).everywhere (fun _ c => c.kind != .binary) depth .read = true) :
    ∃ m', m.fold = .ok m' := by
  cases hfold : m.fold with
  | ok m' => exact ⟨m', rfl⟩
  | error error =>
    obtain ⟨path, e, he, hkind, -⟩ := operation_of_fold hcs hfold
    have hne := Node.of_everywhere h he
    rw [bne_iff_ne, show (Node.expr e).kind = _ from hkind] at hne
    exact absurd rfl hne

/-- A name by itself. -/
def word (id : String) : Expr := .name (.point .origin) id

/-- A number by itself. -/
def number (text : String) : Expr := .numeral (.point .origin) .int text

/-- The declaration of a constant. -/
def constant (name : String) (value : Expr) : Declaration :=
  .var ⟨.point .origin, word name, word "uint256", some value, { isConstant := true }, none⟩

/-- A function with one parameter that returns something. -/
def returning (param : String) (result : Expr) : Declaration :=
  .function ⟨.point .origin, [], "f",
    ⟨.point .origin, [⟨.point .origin, param, word "uint256", none⟩], []⟩, none,
    [.ret (.point .origin) (some result)], none⟩

/-- The constant `N` is the size of an array behind a wrapper, and the result of a function. -/
def sized : Module where
  span := .point .origin
  body := [constant "N" (number "3"),
    .var ⟨.point .origin, word "x", .call (.point .origin) (word "public")
      [.subscript (.point .origin) (word "DynArray")
        (.tuple (.point .origin) [word "uint256", word "N"])] [], none, {}, none⟩,
    returning "a" (word "N")]
  doc := none

/-- The size and the result are replaced, and both are reads. -/
theorem fold_reads_iff_apart_sized :
    ∃ m', sized.fold = .ok m' ∧ sized.Apart [("N", .int 3)] ∧
      ∀ path ∈ [[0, 1, 1, 1, 1], [1, 1, 0]],
        Replaced sized m' path (.point .origin) "N" ∧ sized.Reads path "N" := by
  have hcs : constantsOf [] sized.body = .ok [("N", .int 3)] := rfl
  obtain ⟨m', hfold⟩ := exists_fold_of_everywhere hcs 8 (by decide)
  have hroles : (Node.module sized.withoutConstants).everywhere
      (fun r c => c.name? != some "N" || r == .read) 8 .read = true := by decide
  have hbound : (Node.module sized.withoutConstants).everywhere
      (fun _ c => !c.bound.contains "N") 8 .read = true := by decide
  have hunknown : ∀ id, id ≠ "N" → Constants.get? [("N", .int 3)] id = none := by
    intro id hid
    simp [Constants.get?, Ne.symm hid]
  have hapart : sized.Apart [("N", .int 3)] := by
    constructor
    · rintro role hread - id ⟨path, span, hname, rfl⟩
      refine hunknown id fun hid => hread ?_
      simpa [Node.name?, Node.text?, Node.field?, Node.fields, Expr.fields, hid] using
        Node.of_everywhere hroles hname
    · intro path f hf id hid _
      refine hunknown id fun hN => ?_
      simpa [← hN, hid] using Node.of_everywhere hbound hf
  obtain ⟨cs, hcs', -, hiff⟩ := (fold_reads_iff_apart sized).1 m' hfold
  cases hcs.symm.trans hcs'
  have hreplaced : ∀ path ∈ [[0, 1, 1, 1, 1], [1, 1, 0]],
      Replaced sized m' path (.point .origin) "N" := by
    intro path hpath
    refine (replaced_iff hcs hfold).mpr ?_
    simp only [List.mem_cons, List.not_mem_nil, or_false] at hpath
    rcases hpath with rfl | rfl <;> exact ⟨rfl, rfl, by decide⟩
  refine ⟨m', hfold, hapart, fun path hpath => ?_⟩
  exact ⟨hreplaced path hpath, hiff.mpr hapart _ _ _ (hreplaced path hpath)⟩

/-- A constant `X`, and a function with a parameter `X` that returns something. -/
def shadowing (value : String) (result : Expr) : Module where
  span := .point .origin
  body := [constant "X" (number value), returning "X" result]
  doc := none

theorem replaced_parameterX :
    ∃ m', (shadowing "1" (word "X")).fold = .ok m' ∧
      Replaced (shadowing "1" (word "X")) m' [0, 1, 0] (.point .origin) "X" := by
  have hcs : constantsOf [] (shadowing "1" (word "X")).body = .ok [("X", .int 1)] := rfl
  obtain ⟨m', hfold⟩ := exists_fold_of_everywhere hcs 6 (by decide)
  exact ⟨m', hfold, (replaced_iff hcs hfold).mpr ⟨rfl, rfl, by decide⟩⟩

theorem not_reads_parameterX : ¬ (shadowing "1" (word "X")).Reads [0, 1, 0] "X" := by
  intro h
  exact h.not_mem_locals (by decide)

/-- The parameter divided into one. -/
def quotientX : Expr :=
  .binary (.point .origin) (number "1") .floorDiv (word "X")

theorem fold_quotientX :
    ∃ span, (shadowing "0" quotientX).fold = .error (.located .divisionByZero span) := by
  have hcs : constantsOf [] (shadowing "0" quotientX).body = .ok [("X", .int 0)] := rfl
  have he : (Node.module (shadowing "0" quotientX)).at? [1, 1, 0] = some (.expr quotientX) := rfl
  obtain ⟨error, hfold⟩ := exists_fold_eq_error hcs he rfl rfl
  obtain ⟨path, e, -, -, herror⟩ := operation_of_fold hcs hfold
  obtain ⟨_, span, _, _, _, _, _, _, _, _, rfl⟩ := division_of_evaluate herror
  exact ⟨span, hfold⟩

/-- A parameter is replaced by the constant of its name, and is taken for a zero divisor. -/
theorem fold_shadowing :
    (∃ m', (shadowing "1" (word "X")).fold = .ok m' ∧
      Replaced (shadowing "1" (word "X")) m' [0, 1, 0] (.point .origin) "X" ∧
      ¬ (shadowing "1" (word "X")).Reads [0, 1, 0] "X") ∧
    (∃ span, (shadowing "0" quotientX).fold = .error (.located .divisionByZero span)) ∧
      evaluate (Constants.hide [("X", .int 0)] ["X"]) quotientX = .ok none := by
  obtain ⟨m', hfold, hreplaced⟩ := replaced_parameterX
  exact ⟨⟨m', hfold, hreplaced, not_reads_parameterX⟩, fold_quotientX, rfl⟩

end Module

end Vyper
