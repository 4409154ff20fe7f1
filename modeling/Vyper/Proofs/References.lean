import Vyper.Proofs.FoldedReads
import Vyper.Proofs.ReadyDocuments

/-!
# References of variables

Where the references of a variable of the module are asked for, the line of the cursor decides what
is looked for: bare names if the line begins at the margin and has `constant(` in it, else accesses
through `self` (`Analysis.references_variable`, `Analysis.references_constant`).
-/

namespace Vyper

open LineCursor

/-! ### Positions on a name -/

namespace Document

/-- A name stands at a place of a document, and something holds of every position on it, its ends
included. -/
def OnName (d : Document) (place : Pos) (name : String) (P : Position → Prop) : Prop :=
  ∃ before after, d.text = before ++ name.toList ++ after ∧ Pos.origin.advance before = place ∧
    ∀ k ≤ name.length, d.offset (d.positionAt (before.length + k)) = .ok (before.length + k) ∧
      P (d.positionAt (before.length + k))

namespace OnName

variable {d : Document} {place : Pos} {name : String} {P Q : Position → Prop}

theorem imp (h : d.OnName place name P) (hPQ : ∀ p, P p → Q p) : d.OnName place name Q := by
  obtain ⟨before, after, htext, hplace, hon⟩ := h
  exact ⟨before, after, htext, hplace, fun k hk => (hon k hk).imp_right (hPQ _)⟩

/-- A name stands at its place in one way only. -/
theorem holds (h : d.OnName place name P) (before after : List Char)
    (htext : d.text = before ++ name.toList ++ after) (hplace : Pos.origin.advance before = place)
    {k : Nat} (hk : k ≤ name.length) : P (d.positionAt (before.length + k)) := by
  obtain ⟨before', after', htext', hplace', hon⟩ := h
  have hsame : before = before' := by
    rw [List.append_assoc] at htext htext'
    exact Pos.eq_of_advance _ (htext.symm.trans htext') (hplace.trans hplace'.symm)
  subst hsame
  exact (hon k hk).2

end OnName

end Document

/-! ### Answers -/

/-- What is selected below a root comes in the order of the text, if nothing is selected below
another. -/
theorem Site.pairwise_filter {P : Token → Prop} {root : Site} {q : Site → Bool}
    (h : root.node.WellPlaced P) (hq : ∀ s c, q s = true → c ∈ s.descendants → q c = false) :
    (root.descendants.filter q).Pairwise fun s t => s.span.stop ≤ t.span.start := by
  have hpairs : root.descendants.Pairwise fun s t =>
      q s = true → q t = true → s.span.stop ≤ t.span.start := by
    refine pairwise_descendants h ?_ ?_
    · intro s c _ hc hs hselected
      rw [hq s c hs hc] at hselected
      cases hselected
    · intro s t hst _ _
      exact le_trans hst.stop_le hst.placed.placed.front_le
  refine (hpairs.filter q).imp_of_mem fun {s t} hs ht hst => ?_
  exact hst (List.mem_filter.mp hs).2 (List.mem_filter.mp ht).2

namespace Analysis

/-- The references found at a position are exactly the sites below a root that pass a test, one
behind the other in the text. -/
def RefersTo (a : Analysis) (d : Document) (p : Position) (root : Site) (q : Site → Bool) : Prop :=
  ∃ uses : List Site, a.references d p = uses.map (fun s => d.utf16Range s.range) ∧
    (∀ s, s ∈ uses ↔ s ∈ root.descendants ∧ q s = true) ∧
    uses.Pairwise fun s t => s.span.stop ≤ t.span.start

variable {a : Analysis} {d : Document} {p : Position} {c : CursorContext} {root : Site}
  {q r : Site → Bool} {depth : Nat}

theorem references_eq (hc : CursorContext.at? d p = some c) :
    a.references d p = (a.referenceSites c p.line).map fun s => d.utf16Range s.range := by
  rw [references, hc]

theorem refersTo_of_filter {P : Token → Prop} (hc : CursorContext.at? d p = some c)
    (hsites : a.referenceSites c p.line = root.descendants.filter q) (h : root.node.WellPlaced P)
    (hq : ∀ s c, q s = true → c ∈ s.descendants → q c = false) : a.RefersTo d p root q := by
  refine ⟨root.descendants.filter q, ?_, fun s => List.mem_filter, Site.pairwise_filter h hq⟩
  rw [references_eq hc, hsites]

namespace RefersTo

variable (h : a.RefersTo d p root q)
include h

theorem congr (hqr : ∀ s ∈ root.descendants, q s = r s) : a.RefersTo d p root r := by
  obtain ⟨uses, hreferences, hmem, hsorted⟩ := h
  refine ⟨uses, hreferences, fun s => ?_, hsorted⟩
  rw [hmem]
  exact and_congr_right fun hs => by rw [hqr s hs]

/-- Where nothing passes the test, nothing is found. -/
theorem references_eq_nil (hnone : root.allBelow (!q ·) depth = true) :
    a.references d p = [] := by
  obtain ⟨uses, hreferences, hmem, -⟩ := h
  have hnil : uses = [] := by
    refine List.eq_nil_iff_forall_not_mem.mpr fun s hs => ?_
    obtain ⟨hbelow, hs⟩ := (hmem s).mp hs
    have hfalse := Site.forall_of_allBelow hnone s hbelow
    rw [hs] at hfalse
    cases hfalse
  rw [hreferences, hnil]
  rfl

/-- Where only one piece of the text passes the test, it is found. -/
theorem references_eq_singleton {span : Span} (hlt : span.start < span.stop)
    (hone : root.hasOnly q span depth = true) :
    a.references d p = [d.utf16Range (.ofSpan span)] := by
  obtain ⟨uses, hreferences, hmem, hsorted⟩ := h
  have hspan : ∀ s ∈ uses, s.span = span := by
    intro s hs
    obtain ⟨hbelow, hs⟩ := (hmem s).mp hs
    exact Site.span_of_hasOnly hone hbelow hs
  obtain ⟨found, hfound, hq, -⟩ := Site.exists_of_hasOnly hone
  have hmemFound := (hmem found).mpr ⟨hfound, hq⟩
  rw [hreferences]
  rcases uses with - | ⟨s, - | ⟨t, rest⟩⟩
  · cases hmemFound
  · rw [List.map_singleton, Site.range, hspan s List.mem_cons_self]
  · have hle := List.rel_of_pairwise_cons hsorted List.mem_cons_self
    rw [hspan s List.mem_cons_self, hspan t (List.mem_cons_of_mem s List.mem_cons_self)] at hle
    exact absurd hlt (not_lt_of_ge hle)

end RefersTo

end Analysis

/-! ### Names and accesses in a tree -/

namespace Node

variable {n c : Node} {name : String} {i : Nat} {path : List Nat}

/-- There is nothing below a bare name. -/
theorem at?_bareName (h : n.bareName? = some name) : n.at? (i :: path) = none := by
  cases n with
  | expr e =>
    obtain ⟨span, rfl⟩ := Expr.eq_of_id? h
    rfl
  | _ => cases h

/-- There is no access below an access. -/
theorem selfMember?_of_at? (h : n.selfMember? = some name) (hc : n.at? (i :: path) = some c) :
    c.selfMember? = none := by
  obtain ⟨span, place, rfl⟩ := eq_of_selfMember? h
  obtain ⟨field, part, hpart, hc⟩ := at?_cons_eq_some hc
  cases i with
  | zero =>
    cases hpart
    cases path with
    | nil =>
      cases hc
      rfl
    | cons j path =>
      have hnone : (Node.expr (.name place "self")).at? (j :: path) = none := at?_bareName rfl
      rw [hnone] at hc
      cases hc
  | succ i => cases hpart

end Node

namespace Site

variable {s c : Site} {name : String}

/-- Whether a function around a site binds a name. -/
def isHidden (name : String) (s : Site) : Bool := s.above.any (·.bound.contains name)

/-- Whether a site is what an editor takes for a use of a variable: of a constant, a bare name that
is not itself a part of the declaration of a variable, and else an access through `self`. -/
def usesVariable (name : String) (isConstant : Bool) (s : Site) : Bool :=
  if isConstant then s.node.bareName? == some name && !s.parent?.any (·.kind == .var)
  else s.node.selfMember? == some name

theorem not_mem_below_bareName (h : s.node.bareName? = some name) : c ∉ s.descendants := by
  intro hc
  obtain ⟨i, path, hpath⟩ := exists_cons_path hc
  rw [Node.at?_bareName h] at hpath
  cases hpath

theorem usesVariable_below {isConstant : Bool} (hs : s.usesVariable name isConstant = true)
    (hc : c ∈ s.descendants) : c.usesVariable name isConstant = false := by
  cases isConstant with
  | true =>
    have hname := beq_iff_eq.mp (Bool.and_eq_true_iff.mp hs).1
    exact absurd hc (not_mem_below_bareName hname)
  | false =>
    obtain ⟨i, path, hpath⟩ := exists_cons_path hc
    change (c.node.selfMember? == some name) = false
    rw [Node.selfMember?_of_at? (beq_iff_eq.mp hs) hpath]
    rfl

end Site

/-! ### Cursors on variables -/

/-- A line that begins with a word begins at the margin. -/
theorem CharClass.isBlank_of_isWordStart {c : Char} (h : Lexeme.isWordStart c = true) :
    CharClass.isBlank c = false := by
  rw [Lexeme.isWordStart, Bool.or_eq_true, Lexeme.isAlpha_iff, beq_iff_eq] at h
  have hnat : 65 ≤ c.toNat ∧ c.toNat ≤ 122 := by
    rcases h with h | rfl
    · change 65 ≤ c.val.toNat ∧ c.val.toNat ≤ 122
      omega
    · decide
  simp [isBlank, inTable, blanks]
  omega

namespace Analysis

/-- The text that makes a line at the margin declare a constant for an editor. -/
def constantMark : List Char := "constant(".toList

namespace Shows

variable {a : Analysis} {text : List Char} {m : Module} (h : a.Shows text m)
include h

theorem wellPlaced_root : a.best.root.node.WellPlaced (Token.Spelled text) := by
  rw [h.best]
  exact h.tree.wellPlaced

/-- What declares a variable stands in the body. -/
theorem exists_var {decl : Site} (hdecl : decl ∈ a.best.sites) (hkind : decl.kind = .var) :
    ∃ v, .var v ∈ m.body ∧ decl = m.site (.var v) := by
  rw [h.best] at hdecl
  obtain ⟨e, he, rfl⟩ := h.tree.exists_of_mem_sites (p := fun s => s.kind == .var)
    (fun _ _ hc hs => beq_eq_false_iff_ne.mpr (Site.kind_ne_var_below hc hs)) hdecl
    (beq_iff_eq.mpr hkind)
  obtain ⟨v, rfl⟩ := Declaration.exists_var hkind
  exact ⟨v, he, rfl⟩

theorem contains_of_not_type {name : String}
    (htype : ∀ t ∈ a.best.sites, t.node.typeName? ≠ some name) :
    a.enums.contains name = false ∧
      (a.structs.contains name || a.events.contains name) = false := by
  have hnot : ¬ (name ∈ a.userTypes ∨ name ∈ a.events) := by
    rw [mem_types_iff]
    rintro ⟨t, ht, hname⟩
    exact htype t ht hname
  rw [← h.types, or_assoc, not_or] at hnot
  simp only [← Bool.not_eq_true, Bool.or_eq_true, List.contains_iff_mem]
  exact hnot

/-- The name of a variable is that of no function. -/
theorem contains_of_var {v : VariableDef} (hv : .var v ∈ m.body) :
    a.internalFunctions.contains v.name = false ∧ a.stateVariables.contains v.name = true := by
  rw [← Bool.not_eq_true, List.contains_iff_mem, List.contains_iff_mem]
  constructor
  · intro hinternal
    obtain ⟨f, hf, hname⟩ := List.mem_map.mp hinternal
    have hsome : (a.tables.function? v.name).isSome = true := by
      rw [ModuleType.function?, List.find?_isSome]
      exact ⟨f, (List.mem_filter.mp hf).1, beq_iff_eq.mpr hname⟩
    rw [(h.declared v hv).1] at hsome
    cases hsome
  · rw [h.stateVariables]
    exact List.mem_filterMap.mpr ⟨_, hv, rfl⟩

theorem refersTo_uses {d : Document} {p : Position} {c : CursorContext} {name : String}
    {isConstant : Bool} (hc : CursorContext.at? d p = some c)
    (hsites : a.referenceSites c p.line =
      if isConstant then a.best.usesOfConstant name else a.best.accessesOf name) :
    a.RefersTo d p a.best.root (·.usesVariable name isConstant) := by
  refine refersTo_of_filter hc (hsites.trans ?_) h.wellPlaced_root
    fun s c => Site.usesVariable_below
  cases isConstant with
  | true =>
    rw [if_pos rfl, Tree.usesOfConstant, Tree.selectBy, List.filter_filter, Tree.sites_eq]
    exact List.filter_congr fun s _ => Bool.and_comm _ _
  | false =>
    rw [if_neg Bool.false_ne_true, Tree.accessesOf, Tree.selectBy, Tree.sites_eq]
    rfl

/-- On the name of a variable, at the margin or behind `self.`, the line decides. -/
theorem refersTo_variable {d : Document} {p : Position} {c : CursorContext} {v : VariableDef}
    (hv : .var v ∈ m.body) (hc : CursorContext.at? d p = some c) (hword : c.word = v.name)
    (hne : v.name.isEmpty = false) (hplace : (c.isTopLevel || c.isSelfAccess) = true) :
    a.RefersTo d p a.best.root
      (·.usesVariable v.name (c.isTopLevel && Search.contains constantMark c.line)) := by
  obtain ⟨henums, hothers⟩ := h.contains_of_not_type (h.not_mem_types hv)
  obtain ⟨hinternal, hvariable⟩ := h.contains_of_var hv
  have hfunction : a.isFunctionName c = false := by
    rw [isFunctionName, hword, hinternal, (h.declared v hv).1, Bool.and_false, Bool.and_false]
    rfl
  have hconstant : a.isConstantDeclaration c =
      (c.isTopLevel && Search.contains constantMark c.line) := by
    rw [isConstantDeclaration, isVariableDeclaration, hword, hvariable, Bool.and_true,
      Bool.and_comm]
    rfl
  have haccess : (a.isVariableDeclaration c || a.isVariableAccess c) = true := by
    rw [isVariableDeclaration, isVariableAccess, hword, hvariable, Bool.and_true, Bool.and_true]
    exact hplace
  refine h.refersTo_uses hc ?_
  simp only [referenceSites, hword, hne, henums, hothers, hfunction, hconstant, haccess,
    Bool.false_eq_true, if_false, if_true]

end Shows

namespace Shows

variable {a : Analysis} {d : Document} {m : Module} {v : VariableDef} (h : a.Shows d.text m)
  (hv : .var v ∈ m.body)
include h hv

/-- Where a variable is declared, its line decides alone. -/
theorem onName_declaration :
    d.OnName (Node.var v).bindingPlace v.name fun p => ∃ line, d.line? p.line = some line ∧
      a.RefersTo d p a.best.root (·.usesVariable v.name (Search.contains constantMark line)) := by
  obtain ⟨before, after, hbare, hmargin⟩ := h.tree.exists_margin hv
  refine ⟨before, after, hbare.text_eq, hbare.place_eq, fun k hk => ?_⟩
  obtain ⟨hoffset, c, hc, hword, -, rest, hline⟩ := CursorContext.exists_bare hbare hk
  refine ⟨hoffset, c.line, CursorContext.line?_eq hc, ?_⟩
  obtain ⟨first, others, hname, hfirst, -⟩ := Lexeme.eq_cons_of_isIdentifier hbare.identifier
  have htop : c.isTopLevel = true := by
    rw [CursorContext.isTopLevel, hline, hmargin, hname]
    change (!CharClass.isBlank first) = true
    rw [CharClass.isBlank_of_isWordStart hfirst]
    rfl
  have hrefers := h.refersTo_variable hv hc hword (Lexeme.isEmpty_of_isIdentifier hbare.identifier)
    (by rw [htop]; rfl)
  rwa [htop, Bool.true_and] at hrefers

theorem refersTo_access {s : Site} (hs : s ∈ a.best.sites)
    (hmember : s.node.selfMember? = some v.name) (before after : List Char)
    (htext : d.text = before ++ ("self." ++ v.name).toList ++ after)
    (hspan : s.span = ⟨Pos.origin.advance before,
      Pos.origin.advance (before ++ ("self." ++ v.name).toList)⟩) {k : Nat}
    (hk : k ≤ v.name.length) :
    let offset := (before ++ "self.".toList).length + k
    let p := d.positionAt offset
    d.offset p = .ok offset ∧ ∃ line, d.line? p.line = some line ∧
      a.RefersTo d p a.best.root (·.usesVariable v.name
        (line.head?.any (!CharClass.isBlank ·) && Search.contains constantMark line)) := by
  rw [h.best] at hs
  have hdotted := h.tree.dotted_self hs hmember htext hspan
  obtain ⟨hoffset, c, hc, hcword, hcself⟩ := CursorContext.exists_self hdotted hk
  refine ⟨hoffset, c.line, CursorContext.line?_eq hc, ?_⟩
  exact h.refersTo_variable hv hc hcword (Lexeme.isEmpty_of_isIdentifier hdotted.attr)
    (by rw [hcself, Bool.or_true])

end Shows

/-- What a line decides is decided by the line that is there. -/
theorem RefersTo.of_line {a : Analysis} {d : Document} {p : Position} {root : Site} {name : String}
    {f : List Char → Bool} (isConstant : Bool) (hline : (d.line? p.line).map f = some isConstant)
    (h : ∃ line, d.line? p.line = some line ∧ a.RefersTo d p root (·.usesVariable name (f line))) :
    a.RefersTo d p root (·.usesVariable name isConstant) := by
  obtain ⟨line, hfound, hrefers⟩ := h
  rw [hfound] at hline
  rwa [← Option.some.inj hline]

/-! ### Variables -/

/-- Where a variable is declared, and wherever it is accessed in one piece, the references are all
accesses to it, unless the line starts at the margin and has `constant(` in it. -/
theorem references_variable {a : Analysis} {files : FileSystem} {d : Document}
    {workingDirectory : Option Path} :
    let built := (a.build (.builtIn files) d workingDirectory).1
    built.state = .ready →
    ∀ decl ∈ built.best.sites, ∀ name, decl.declaresVariable name = true →
      (d.OnName decl.node.bindingPlace name fun p => ∃ line, d.line? p.line = some line ∧
        built.RefersTo d p built.best.root
          (·.usesVariable name (Search.contains "constant(".toList line))) ∧
      ∀ s ∈ built.best.sites, s.node.selfMember? = some name →
        ∀ before after, d.text = before ++ ("self." ++ name).toList ++ after →
          s.span = ⟨Pos.origin.advance before,
            Pos.origin.advance (before ++ ("self." ++ name).toList)⟩ →
          ∀ k ≤ name.length,
            let offset := (before ++ "self.".toList).length + k
            let p := d.positionAt offset
            d.offset p = .ok offset ∧ ∃ line, d.line? p.line = some line ∧
              built.RefersTo d p built.best.root (·.usesVariable name
                (line.head?.any (!CharClass.isBlank ·) &&
                  Search.contains "constant(".toList line)) := by
  intro built hready decl hdecl name hdeclares
  obtain ⟨parsed, -, h⟩ := exists_shows hready
  obtain ⟨hkind, hname⟩ := Bool.and_eq_true_iff.mp hdeclares
  obtain ⟨v, hv, rfl⟩ := h.exists_var hdecl (beq_iff_eq.mp hkind)
  obtain rfl : v.name = name :=
    Option.some.inj ((h.tree.target_id hv).symm.trans (beq_iff_eq.mp hname))
  refine ⟨h.onName_declaration hv, ?_⟩
  intro s hs hmember before after htext hspan k hk
  exact h.refersTo_access hv hs hmember before after htext hspan hk

/-- A variable that a function assigns, with a comment behind its declaration. -/
def assigning (comment : String) : Document :=
  .ofLines ["x: bool" ++ comment, "def f():", " self.x = True"]

/-- A variable `x` is declared on the first line and accessed only on the third. -/
def assigns (m : Module) : Bool :=
  m.declaresAt "x" ⟨1, 0⟩ (fun _ => true) &&
    ({ node := .module m } : Site).hasOnly (·.usesVariable "x" false) ⟨⟨3, 1⟩, ⟨3, 7⟩⟩ 7

theorem references_variable_assigning :
    let built := (({} : Analysis).build (.builtIn .empty) (assigning "") none).1
    built.state = .ready ∧
    (∃ s ∈ built.best.sites, s.node.selfMember? = some "x" ∧ s.span = ⟨⟨3, 1⟩, ⟨3, 7⟩⟩) ∧
    built.references (assigning "") ⟨0, 1⟩ = [⟨⟨2, 1⟩, ⟨2, 7⟩⟩] ∧
    built.references (assigning "") ⟨2, 6⟩ = [⟨⟨2, 1⟩, ⟨2, 7⟩⟩] := by
  intro built
  obtain ⟨hready, m, h, hq⟩ : built.state = .ready ∧ ∃ m, built.Shows _ m ∧ _ :=
    exists_shows_of_compiles assigns 7 (by decide +kernel) (by decide +kernel)
  obtain ⟨hvar, honly⟩ := Bool.and_eq_true_iff.mp hq
  obtain ⟨v, hv, hname, hplace, -⟩ := Module.exists_of_declaresAt hvar
  rw [← h.root_eq] at honly
  obtain ⟨s, hs, hmember, hspan⟩ := Site.exists_of_hasOnly honly
  rw [← Tree.sites_eq] at hs
  have hdeclares : (m.site (.var v)).declaresVariable "x" = true :=
    Module.declaresVariable_site.mpr ⟨v, rfl, hname ▸ h.tree.target_id hv⟩
  obtain ⟨hdeclaration, haccesses⟩ :=
    references_variable hready (m.site (.var v)) (h.mem_sites hv) "x" hdeclares
  have hfirst := RefersTo.of_line false (by decide +kernel) (hdeclaration.holds (k := 1) []
    (Document.ofLines [": bool", "def f():", " self.x = True"]).text (by decide +kernel)
    hplace.symm (by decide))
  have hsecond := RefersTo.of_line false (by decide +kernel)
    (haccesses s hs (beq_iff_eq.mp hmember)
      ((Document.ofLines ["x: bool", "def f():"]).text ++ [' '])
      " = True\n".toList (by decide +kernel) (hspan.trans (by decide +kernel)) 0 (by decide)).2
  rw [show (assigning "").positionAt _ = ⟨0, 1⟩ by decide +kernel] at hfirst
  rw [show (assigning "").positionAt _ = ⟨2, 6⟩ by decide +kernel] at hsecond
  exact ⟨hready, ⟨s, hs, beq_iff_eq.mp hmember, hspan⟩,
    (hfirst.references_eq_singleton (by decide) honly).trans (by decide +kernel),
    (hsecond.references_eq_singleton (by decide) honly).trans (by decide +kernel)⟩

/-- A comment behind a declaration hides the accesses from it, and from it alone. -/
theorem references_commented_variable :
    let d := assigning " #constant("
    let built := (({} : Analysis).build (.builtIn .empty) d none).1
    built.state = .ready ∧ built.references d ⟨0, 0⟩ = [] ∧
      built.references d ⟨2, 6⟩ = [⟨⟨2, 1⟩, ⟨2, 7⟩⟩] := by
  intro d built
  obtain ⟨hready, m, h, hq⟩ : built.state = .ready ∧ ∃ m, built.Shows _ m ∧ _ :=
    exists_shows_of_compiles (fun m => assigns m &&
      ({ node := .module m } : Site).allBelow (!·.usesVariable "x" true) 7) 7
      (by decide +kernel) (by decide +kernel)
  obtain ⟨hq, hnone⟩ := Bool.and_eq_true_iff.mp hq
  obtain ⟨hvar, honly⟩ := Bool.and_eq_true_iff.mp hq
  obtain ⟨v, hv, hname, hplace, -⟩ := Module.exists_of_declaresAt hvar
  rw [← h.root_eq] at honly hnone
  obtain ⟨s, hs, hmember, hspan⟩ := Site.exists_of_hasOnly honly
  rw [← Tree.sites_eq] at hs
  have hdeclaration := h.onName_declaration hv
  have haccesses := h.refersTo_access hv hs
  rw [hname] at hdeclaration haccesses
  have hfirst := RefersTo.of_line true (by decide +kernel) (hdeclaration.holds (k := 0) []
    (Document.ofLines [": bool #constant(", "def f():", " self.x = True"]).text (by decide +kernel)
    hplace.symm (by decide))
  have hsecond := RefersTo.of_line false (by decide +kernel)
    (haccesses (beq_iff_eq.mp hmember)
      ((Document.ofLines ["x: bool #constant(", "def f():"]).text ++ [' '])
      " = True\n".toList (by decide +kernel) (hspan.trans (by decide +kernel)) (k := 0)
      (by decide)).2
  rw [show d.positionAt _ = ⟨0, 0⟩ by decide +kernel] at hfirst
  rw [show d.positionAt _ = ⟨2, 6⟩ by decide +kernel] at hsecond
  exact ⟨hready, hfirst.references_eq_nil hnone,
    (hsecond.references_eq_singleton (by decide) honly).trans (by decide +kernel)⟩

/-! ### Constants and immutables -/

/-- Where a constant or an immutable is declared, its references are the bare names that are not
themselves parts of a declaration of a variable if the line has `constant(` in it, and else the
accesses through `self`. With `constant(` in the line they are its reads, as long as no local hides
it and no other variable is declared by the bare name. -/
theorem references_constant {a : Analysis} {files : FileSystem} {d : Document}
    {workingDirectory : Option Path} :
    let built := (a.build (.builtIn files) d workingDirectory).1
    built.state = .ready →
    ∀ decl ∈ built.best.sites, ∀ v, decl.node = .var v →
      (v.modifiers.isConstant || v.modifiers.isImmutable) = true →
      d.OnName decl.node.bindingPlace v.name fun p => ∃ line, d.line? p.line = some line ∧
        built.RefersTo d p built.best.root
          (·.usesVariable v.name (Search.contains "constant(".toList line)) ∧
        (Search.contains "constant(".toList line = true →
          (∀ s ∈ built.best.sites, s.node.bareName? = some v.name → s.isHidden v.name = false ∧
            (s.parent?.any (·.kind == .var) = true → s.isField .var "target" = true)) →
          built.RefersTo d p built.best.root fun s => s.node.bareName? == some v.name &&
            !s.isField .var "target" && !s.isHidden v.name) := by
  intro built hready decl hdecl v hnode _
  obtain ⟨parsed, -, h⟩ := exists_shows hready
  have hkind : decl.kind = .var := congrArg Node.kind hnode
  obtain ⟨w, hv, rfl⟩ := h.exists_var hdecl hkind
  cases hnode
  refine (h.onName_declaration hv).imp fun p => ?_
  rintro ⟨line, hline, hrefers⟩
  refine ⟨line, hline, hrefers, fun hmark hreads => ?_⟩
  refine hrefers.congr fun s hs => ?_
  rw [show Search.contains constantMark line = true from hmark, Site.usesVariable, if_pos rfl]
  cases hname : s.node.bareName? == some v.name with
  | false => rfl
  | true =>
    rw [← Tree.sites_eq] at hs
    obtain ⟨hhidden, htarget⟩ := hreads s hs (beq_iff_eq.mp hname)
    rw [hhidden, Site.isField]
    cases hparent : s.parent?.any (·.kind == .var) with
    | false => rw [Bool.and_false]; rfl
    | true =>
      have hfield := htarget hparent
      rw [Site.isField, hparent] at hfield
      rw [hfield]
      rfl

/-- A constant, and the line that follows its declaration. -/
def reading (line : String) : Document := .ofLines ["X: constant(bool) = True", line]

/-- A constant `X` is declared on the first line and read only in one place. -/
def readsOnce (span : Span) (m : Module) : Bool :=
  m.declaresAt "X" ⟨1, 0⟩ (·.modifiers.isConstant) &&
    ({ node := .module m } : Site).hasOnly (fun s => s.node.bareName? == some "X" &&
      !s.isField .var "target" && !s.isHidden "X") span 7

/-- Nothing hides the constant `X`, and no other variable is declared by its bare name. -/
def keepsApart (s : Site) : Bool :=
  s.node.bareName? != some "X" ||
    (!s.isHidden "X" && (!s.parent?.any (·.kind == .var) || s.isField .var "target"))

theorem references_constant_reading :
    let d := reading "def f() -> bool: return X"
    let built := (({} : Analysis).build (.builtIn .empty) d none).1
    built.state = .ready ∧
    (∃ decl ∈ built.best.sites, ∃ v, decl.node = .var v ∧ v.name = "X" ∧
      v.modifiers.isConstant = true) ∧
    built.references d ⟨0, 0⟩ = [⟨⟨1, 24⟩, ⟨1, 25⟩⟩] := by
  intro d built
  obtain ⟨hready, m, h, hq⟩ : built.state = .ready ∧ ∃ m, built.Shows _ m ∧ _ :=
    exists_shows_of_compiles (fun m => readsOnce ⟨⟨2, 24⟩, ⟨2, 25⟩⟩ m &&
      ({ node := .module m } : Site).allBelow keepsApart 7) 7
      (by decide +kernel) (by decide +kernel)
  obtain ⟨hq, hapart⟩ := Bool.and_eq_true_iff.mp hq
  obtain ⟨hvar, honly⟩ := Bool.and_eq_true_iff.mp hq
  obtain ⟨v, hv, hname, hplace, hconstant⟩ := Module.exists_of_declaresAt hvar
  rw [← h.root_eq] at honly hapart
  have hreads : ∀ s ∈ built.best.sites, s.node.bareName? = some "X" → s.isHidden "X" = false ∧
      (s.parent?.any (·.kind == .var) = true → s.isField .var "target" = true) := by
    intro s hs hread
    rw [Tree.sites_eq] at hs
    have hsite := Site.forall_of_allBelow hapart s hs
    rw [keepsApart, hread, bne_self_eq_false, Bool.false_or, Bool.and_eq_true,
      Bool.not_eq_true'] at hsite
    refine ⟨hsite.1, fun hparent => ?_⟩
    rw [hparent] at hsite
    exact hsite.2
  have hanswers := references_constant hready (m.site (.var v)) (h.mem_sites hv) v rfl
    (by rw [hconstant]; rfl)
  rw [hname] at hanswers
  obtain ⟨line, hline, -, hfound⟩ := hanswers.holds (k := 0) []
    (Document.ofLines [": constant(bool) = True", "def f() -> bool: return X"]).text
    (by decide +kernel) hplace.symm (by decide)
  have hmark : some (Search.contains "constant(".toList line) = some true := by
    rw [← Option.map_some, ← hline]
    decide +kernel
  have hrefers := hfound (Option.some.inj hmark) hreads
  rw [show d.positionAt _ = ⟨0, 0⟩ by decide +kernel] at hrefers
  exact ⟨hready, ⟨m.site (.var v), h.mem_sites hv, v, rfl, hname, hconstant⟩,
    (hrefers.references_eq_singleton (by decide) honly).trans (by decide +kernel)⟩

/-- A constant that is the value of another is not found from its declaration. -/
theorem references_copied_constant :
    let d := reading "Y: constant(bool) = X"
    let built := (({} : Analysis).build (.builtIn .empty) d none).1
    built.state = .ready ∧
    (∃ s ∈ built.best.sites, s.node.bareName? = some "X" ∧ s.isField .var "target" = false ∧
      s.isHidden "X" = false ∧ s.span = ⟨⟨2, 20⟩, ⟨2, 21⟩⟩) ∧
    built.references d ⟨0, 0⟩ = [] := by
  intro d built
  obtain ⟨hready, m, h, hq⟩ : built.state = .ready ∧ ∃ m, built.Shows _ m ∧ _ :=
    exists_shows_of_compiles (fun m => readsOnce ⟨⟨2, 20⟩, ⟨2, 21⟩⟩ m &&
      ({ node := .module m } : Site).allBelow (!·.usesVariable "X" true) 7) 7
      (by decide +kernel) (by decide +kernel)
  obtain ⟨hq, hnone⟩ := Bool.and_eq_true_iff.mp hq
  obtain ⟨hvar, honly⟩ := Bool.and_eq_true_iff.mp hq
  obtain ⟨v, hv, hname, hplace, -⟩ := Module.exists_of_declaresAt hvar
  rw [← h.root_eq] at honly hnone
  obtain ⟨s, hs, hread, hspan⟩ := Site.exists_of_hasOnly honly
  rw [← Tree.sites_eq] at hs
  simp only [Bool.and_eq_true, Bool.not_eq_true', beq_iff_eq] at hread
  have hdeclaration := h.onName_declaration hv
  rw [hname] at hdeclaration
  have hrefers := RefersTo.of_line true (by decide +kernel) (hdeclaration.holds (k := 0) []
    (Document.ofLines [": constant(bool) = True", "Y: constant(bool) = X"]).text (by decide +kernel)
    hplace.symm (by decide))
  rw [show d.positionAt _ = ⟨0, 0⟩ by decide +kernel] at hrefers
  exact ⟨hready, ⟨s, hs, hread.1.1, hread.1.2, hread.2, hspan⟩, hrefers.references_eq_nil hnone⟩

end Analysis

end Vyper
