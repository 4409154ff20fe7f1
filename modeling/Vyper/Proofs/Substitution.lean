import Vyper.Folding
import Vyper.Proofs.Paths

/-!
# Substitution of constants

Substitution is the same walk over every kind of node, and it keeps the shape of the tree: the node
at the end of a path is the one that stood there, substituted in its place (`Node.at?_substitute`).
-/

namespace Vyper

open Folding

namespace Trail

/-- Whether the nearest step goes to what a call calls. -/
def calls (trail : List (Node × String)) : Bool :=
  trail.head?.any fun step => step.1.kind == .call && step.2 == "func"

theorem calls_append {trail : List (Node × String)} (h : trail ≠ []) (rest : List (Node × String)) :
    calls (trail ++ rest) = calls trail := by
  cases trail with
  | nil => exact absurd rfl h
  | cons step trail => rfl

theorem calls_concat {trail : List (Node × String)} {field : String} (h : calls trail = false)
    (hfield : field ≠ "func") (n : Node) : calls (trail ++ [(n, field)]) = false := by
  cases trail with
  | nil => simp [calls, hfield]
  | cons step trail => exact h

end Trail

namespace Folding

theorem substituteAll_eq (cs : Constants) (es : List Expr) :
    substituteAll cs es = es.map (substitute cs) := by
  induction es with
  | nil => rw [substituteAll, List.map_nil]
  | cons e es ih => rw [substituteAll, ih, List.map_cons]

theorem substituteKeywords_eq (cs : Constants) (ks : List Keyword) :
    substituteKeywords cs ks = ks.map fun k => .mk k.span k.name (substitute cs k.value) := by
  induction ks with
  | nil => rw [substituteKeywords, List.map_nil]
  | cons k ks ih =>
    cases k
    rw [substituteKeywords, ih, List.map_cons, Keyword.span, Keyword.name, Keyword.value]

theorem substituteEntries_eq (cs : Constants) (es : List Entry) :
    substituteEntries cs es = es.map fun e =>
      .mk (substitute cs e.key) (substitute cs e.value) := by
  induction es with
  | nil => rw [substituteEntries, List.map_nil]
  | cons e es ih =>
    cases e
    rw [substituteEntries, ih, List.map_cons, Entry.key, Entry.value]

theorem substituteBlock_eq (cs : Constants) (ss : List Stmt) :
    substituteBlock cs ss = ss.map (substituteStmt cs) := by
  induction ss with
  | nil => rw [substituteBlock, List.map_nil]
  | cons s ss ih => rw [substituteBlock, ih, List.map_cons]

end Folding

namespace Node

/-- A node with the constants in it substituted. -/
def substitute (cs : Constants) : Node → Node
  | .module m => .module { m with body := m.body.map (substituteDeclaration cs) }
  | .function f => .function (substituteFunction cs f)
  | .params p => .params (substituteParams cs p)
  | .param p => .param { p with type := Folding.substitute cs p.type }
  | .var v => .var (substituteVariable cs v)
  | .members d => .members { d with body := substituteBlock cs d.body }
  | .interface i => .interface { i with body := i.body.map (substituteItem cs) }
  | .importing i => .importing i
  | .importFrom i => .importFrom i
  | .clause c => .clause { c with subject := Folding.substitute cs c.subject }
  | .stmt s => .stmt (substituteStmt cs s)
  | .expr e => .expr (Folding.substitute cs e)
  | .keyword k => .keyword (.mk k.span k.name (Folding.substitute cs k.value))

/-- A node in its place: a name that is called stays. -/
def substituteAt (cs : Constants) (trail : List (Node × String)) (n : Node) : Node :=
  if n.kind = .name ∧ Trail.calls trail then n else n.substitute cs

variable (cs : Constants)

theorem substitute_declaration (d : Declaration) :
    (substituteDeclaration cs d).toNode = d.toNode.substitute cs := by
  cases d <;> rfl

theorem substitute_item (i : InterfaceItem) :
    (substituteItem cs i).toNode = i.toNode.substitute cs := by
  cases i <;> rfl

theorem substitute_loopTarget (t : LoopTarget) :
    (substituteTarget cs t).toNode = t.toNode.substitute cs := by
  cases t <;> rfl

theorem substituteAt_of_ne {n : Node} {field : String} (part : Node) (h : field ≠ "func") :
    substituteAt cs [(n, field)] part = part.substitute cs := by
  simp [substituteAt, Trail.calls, h]

theorem parts_substitute_expr (e : Expr) :
    ((expr e).substitute cs).parts =
      (expr e).parts.map fun part => (part.1, substituteAt cs [(expr e, part.1)] part.2) := by
  cases e with
  | name span id =>
    -- A literal has no parts, as a name has none.
    simp only [substitute, Folding.substitute]
    cases cs.get? id with
    | none => rfl
    | some literal => cases literal <;> rfl
  | call span func args keywords =>
    cases func <;>
      simp [substitute, Folding.substitute, parts, fields, Expr.fields, partsOf, FieldValue.exprs,
        substituteAll_eq, substituteKeywords_eq, substituteAt, Trail.calls, Function.comp_def, kind,
        Expr.kind]
  | _ =>
    simp [substitute, Folding.substitute, parts, fields, Expr.fields, partsOf, FieldValue.exprs,
      substituteAll_eq, substituteEntries_eq, substituteAt_of_ne, Entry.key, Entry.value,
      Function.comp_def]

theorem parts_substitute_stmt (s : Stmt) :
    ((stmt s).substitute cs).parts =
      (stmt s).parts.map fun part => (part.1, substituteAt cs [(stmt s, part.1)] part.2) := by
  cases s with
  | declare span target type value resolved =>
    cases value <;> cases resolved <;>
      simp [substitute, substituteStmt, parts, fields, Stmt.fields, partsOf, FieldValue.expr?,
        FieldValue.text?, substituteAt_of_ne]
  | ret span value =>
    cases value <;>
      simp [substitute, substituteStmt, parts, fields, Stmt.fields, partsOf, FieldValue.expr?,
        substituteAt_of_ne]
  | assert span test message =>
    cases message <;>
      simp [substitute, substituteStmt, parts, fields, Stmt.fields, partsOf, FieldValue.expr?,
        substituteAt_of_ne]
  | raise span error =>
    cases error <;>
      simp [substitute, substituteStmt, parts, fields, Stmt.fields, partsOf, FieldValue.expr?,
        substituteAt_of_ne]
  | _ =>
    simp [substitute, substituteStmt, parts, fields, Stmt.fields, partsOf, FieldValue.stmts,
      substituteBlock_eq, substitute_loopTarget, substituteAt_of_ne, Function.comp_def]

/-- The parts of a substituted node are the parts of the node, each substituted in its place. -/
theorem parts_substitute (n : Node) :
    (n.substitute cs).parts =
      n.parts.map fun part => (part.1, substituteAt cs [(n, part.1)] part.2) := by
  cases n with
  | expr e => exact parts_substitute_expr cs e
  | stmt s => exact parts_substitute_stmt cs s
  | module m =>
    obtain ⟨span, body, doc⟩ := m
    cases doc <;>
      simp [substitute, parts, fields, partsOf, FieldValue.text?, substitute_declaration,
        substituteAt_of_ne, Function.comp_def]
  | function f =>
    obtain ⟨span, decorators, name, params, returns, body, doc⟩ := f
    cases returns <;> cases doc <;>
      simp [substitute, substituteFunction, parts, fields, partsOf, FieldValue.exprs,
        FieldValue.stmts, FieldValue.expr?, FieldValue.text?, substituteAll_eq, substituteBlock_eq,
        substituteAt_of_ne, Function.comp_def]
  | var v =>
    obtain ⟨span, target, type, value, modifiers, resolved⟩ := v
    cases value <;> cases resolved <;>
      simp [substitute, substituteVariable, parts, fields, partsOf, FieldValue.expr?,
        FieldValue.text?, substituteAt_of_ne]
  | param p =>
    obtain ⟨span, name, type, resolved⟩ := p
    cases resolved <;> simp [substitute, parts, fields, partsOf, FieldValue.text?,
      substituteAt_of_ne]
  | importing i =>
    obtain ⟨span, name, asName⟩ := i
    cases asName <;> rfl
  | importFrom i =>
    obtain ⟨span, package, name, level, asName⟩ := i
    cases asName <;> rfl
  | _ =>
    simp [substitute, substituteParams, parts, fields, partsOf, FieldValue.exprs, FieldValue.stmts,
      substituteAll_eq, substituteBlock_eq, substitute_item, substituteAt_of_ne, Keyword.value,
      Function.comp_def]

theorem exists_name {n : Node} (h : n.kind = .name) : ∃ span id, n = .expr (.name span id) := by
  cases n with
  | expr e =>
    cases e with
    | name span id => exact ⟨span, id, rfl⟩
    | numeral span form text => cases form <;> cases h
    | _ => cases h
  | stmt s => cases s <;> cases h
  | members d =>
    obtain ⟨kind, span, name, body⟩ := d
    cases kind <;> cases h
  | clause c =>
    obtain ⟨kind, span, subject⟩ := c
    cases kind <;> cases h
  | _ => cases h

/-- Substitution keeps the shape of a tree: what stands at the end of a path is what stood there,
substituted in its place. -/
theorem at?_substitute (n : Node) (path : List Nat) :
    (n.substitute cs).at? path = (n.at? path).map (substituteAt cs (n.trail path)) := by
  induction path generalizing n with
  | nil => simp [at?, trail, substituteAt, Trail.calls]
  | cons i path ih =>
    cases hpart : n.parts[i]? with
    | none => simp [at?, parts_substitute, hpart]
    | some step =>
      obtain ⟨field, part⟩ := step
      have hsub : (n.substitute cs).parts[i]? =
          some (field, substituteAt cs [(n, field)] part) := by
        simp [parts_substitute, hpart]
      rw [at?_cons hsub, at?_cons hpart, trail_cons hpart]
      cases path with
      | nil => rfl
      | cons j path =>
        by_cases hcallee : part.kind = .name ∧ Trail.calls [(n, field)]
        · -- A name that is called stays, and there is nothing below it.
          obtain ⟨span, id, rfl⟩ := exists_name hcallee.1
          rw [substituteAt, if_pos hcallee]
          rfl
        · rw [substituteAt, if_neg hcallee, ih]
          cases hc : part.at? (j :: path) with
          | none => rfl
          | some c =>
            have hne := trail_ne_nil hc (List.cons_ne_nil j path)
            simp only [Option.map_some, substituteAt, Trail.calls_append hne]

end Node

end Vyper
