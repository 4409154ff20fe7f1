import Vyper.Proofs.References

/-!
# References of locals

Where the references of a parameter or a typed local are asked for, they are the bare uses of its
name in the function, unless the line of the cursor makes an editor take the name for a function or
a variable of the module (`Analysis.references_local`).
-/

namespace Vyper

open LineCursor

/-- A name that a node binds stands in the node. -/
theorem Node.WellPlaced.bindingPlace_mem {P : Token → Prop} {n : Node} {name : String}
    (h : n.WellPlaced P) (hname : n.boundName? = some name) :
    n.front ≤ n.bindingPlace ∧ n.bindingPlace ≤ n.span.stop := by
  -- The target of a declaration is its first part.
  have htarget : ∀ target : Expr, n.at? [0] = some (.expr target) →
      n.front ≤ target.span.start ∧ target.span.start ≤ n.span.stop := by
    intro target hat
    obtain ⟨hfront, hstop⟩ := h.around hat
    exact ⟨hfront, le_trans (h.at? hat).placed.start_le hstop⟩
  cases n with
  | param p => exact ⟨le_rfl, h.placed.start_le⟩
  | var v => exact htarget v.target rfl
  | stmt s =>
    cases s with
    | declare span target type value resolved => exact htarget target rfl
    | _ => cases hname
  | _ => cases hname

namespace Site

/-- Whether a site is a bare use of a name: no key of a dictionary, and no target of a typed
declaration. -/
def usesLocal (name : String) (s : Site) : Bool :=
  s.node.bareName? == some name && !s.isField .dict "keys" && !s.isField .declare "target"

theorem usesLocal_below {s c : Site} {name : String} (hs : s.usesLocal name = true)
    (hc : c ∈ s.descendants) : c.usesLocal name = false := by
  have hname := beq_iff_eq.mp (Bool.and_eq_true_iff.mp (Bool.and_eq_true_iff.mp hs).1).1
  exact absurd hc (not_mem_below_bareName hname)

end Site

theorem Tree.usesOfSymbol_eq (t : Tree) (name : String) :
    t.usesOfSymbol name = t.root.descendants.filter (·.usesLocal name) := by
  rw [usesOfSymbol, selectBy, List.filter_filter, sites_eq]
  refine List.filter_congr fun s _ => ?_
  rw [Site.usesLocal, Bool.not_or, Bool.and_comm, Bool.and_assoc]

/-! ### Cursors on bare names -/

/-- A cursor is on a name that is not behind `self.`. -/
structure CursorContext.Sees (d : Document) (p : Position) (name : String) (c : CursorContext) :
    Prop where
  at?_eq : CursorContext.at? d p = some c
  word_eq : c.word = name
  isSelfAccess_eq : c.isSelfAccess = false
  isEmpty_eq : name.isEmpty = false

theorem BareName.onName {d : Document} {place : Pos} {name : String} {before after : List Char}
    (h : BareName d.text place name before after) :
    d.OnName place name fun p => ∃ c, CursorContext.Sees d p name c := by
  refine ⟨before, after, h.text_eq, h.place_eq, fun k hk => ?_⟩
  obtain ⟨hoffset, c, hc, hword, hself, -⟩ := CursorContext.exists_bare h hk
  exact ⟨hoffset, c, hc, hword, hself, Lexeme.isEmpty_of_isIdentifier h.identifier⟩

namespace Analysis

theorem mem_sites_of_mem_descendants {a : Analysis} {f b : Site} (hf : f ∈ a.best.sites)
    (hb : b ∈ f.descendants) : b ∈ a.best.sites := by
  rw [Tree.sites_eq] at hf ⊢
  exact Site.descendants_trans hf hb

namespace Shows

variable {a : Analysis} {d : Document} {m : Module} {f b : Site} {name : String} {p : Position}
  {c : CursorContext} (h : a.Shows d.text m)

section Scope

variable (hf : f ∈ a.best.sites) (hkind : f.kind = .function) (hb : b ∈ f.descendants)
include h hf hkind hb

/-- On the line of something in a function, the function is found, or the interface that has it. -/
theorem exists_topLevelOn? {place : Pos} (hfront : b.node.front ≤ place)
    (hstop : place ≤ b.span.stop) {line : Nat} (hline : line + 1 = place.line) :
    ∃ top, a.best.topLevelOn? (line + 1) = some top ∧
      if f.parent?.any (·.kind == .interface) then top.kind = .interface else top = f := by
  rw [h.best] at hf ⊢
  obtain ⟨e, he, hbelow, hscope⟩ := h.tree.exists_scope hf hkind
  rw [hline]
  refine ⟨m.site e, h.tree.topLevelOn?_below he (hbelow b hb) hfront hstop, ?_⟩
  split
  · next hinterface =>
    rw [if_pos hinterface] at hscope
    exact hscope
  · next hinterface =>
    rw [if_neg hinterface] at hscope
    exact hscope.symm

end Scope

/-- A parameter or a typed local is bound under its own name. -/
theorem onName_binding (h : a.Shows d.text m) (hb : b ∈ a.best.sites)
    (hname : b.node.boundName? = some name) :
    d.OnName b.node.bindingPlace name fun p => ∃ c, CursorContext.Sees d p name c := by
  obtain ⟨path, hpath⟩ := h.exists_at? hb
  obtain ⟨before, after, hbare⟩ := h.tree.exists_binding hpath hname
  exact hbare.onName

/-! ### Cursors on locals -/

section Local

variable (hc : c.Sees d p name) (htype : ∀ t ∈ a.best.sites, t.node.typeName? ≠ some name)
include h hc htype

/-- On a line that starts with `def`, the name of an internal function stands for the function. -/
theorem references_function
    (hfunction : ("def".toList.isPrefixOf c.line && a.internalFunctions.contains name) = true) :
    a.references d p = (a.best.callsOf name).map fun s => d.utf16Range s.range := by
  obtain ⟨hflag, hother⟩ := h.contains_of_not_type htype
  have hname : a.isFunctionName c = true := by
    rw [isFunctionName, hc.word_eq, hfunction, Bool.true_or]
  rw [references_eq hc.at?_eq]
  simp only [referenceSites, hc.word_eq, hc.isEmpty_eq, hflag, hother, hname, Bool.false_eq_true,
    if_false, if_true]

variable
  (hfunction : ("def".toList.isPrefixOf c.line && a.internalFunctions.contains name) = false)
include hfunction

omit h htype in
theorem isFunctionName_eq : a.isFunctionName c = false := by
  rw [isFunctionName, hc.word_eq, hfunction, hc.isSelfAccess_eq, Bool.false_and, Bool.or_false]

/-- On a line at the margin, the name of a variable of the module stands for the variable. -/
theorem refersTo_margin
    (hvariable : (c.line.head?.any (!CharClass.isBlank ·) && a.stateVariables.contains name) =
      true) :
    a.RefersTo d p a.best.root
      (·.usesVariable name (Search.contains constantMark c.line)) := by
  obtain ⟨hflag, hother⟩ := h.contains_of_not_type htype
  have hname : a.isVariableDeclaration c = true := by
    rw [isVariableDeclaration, hc.word_eq]
    exact hvariable
  have hconstant : a.isConstantDeclaration c = Search.contains constantMark c.line := by
    rw [isConstantDeclaration, hname, Bool.and_true]
    rfl
  refine h.refersTo_uses hc.at?_eq ?_
  simp only [referenceSites, hc.word_eq, hc.isEmpty_eq, hflag, hother, hname, hconstant,
    isFunctionName_eq hc hfunction, Bool.true_or, Bool.false_eq_true, if_false, if_true]

/-- Elsewhere in a function, the bare uses of the name in the function are found. -/
theorem refersTo_scope (hf : f ∈ a.best.sites) (hkind : f.kind = .function)
    (hb : b ∈ f.descendants) (hname : b.node.boundName? = some name)
    (hvariable : (c.line.head?.any (!CharClass.isBlank ·) && a.stateVariables.contains name) =
      false)
    (hline : p.line + 1 = b.node.bindingPlace.line) :
    if f.parent?.any (·.kind == .interface) then a.references d p = []
    else a.RefersTo d p f (·.usesLocal name) := by
  obtain ⟨hflag, hother⟩ := h.contains_of_not_type htype
  have hdeclaration : a.isVariableDeclaration c = false := by
    rw [isVariableDeclaration, hc.word_eq]
    exact hvariable
  have hconstant : a.isConstantDeclaration c = false := by
    rw [isConstantDeclaration, hdeclaration, Bool.and_false]
  have haccess : a.isVariableAccess c = false := by
    rw [isVariableAccess, hc.isSelfAccess_eq, Bool.false_and]
  have hplaced := h.wellPlaced (mem_sites_of_mem_descendants hf hb)
  obtain ⟨hfront, hstop⟩ := hplaced.bindingPlace_mem hname
  obtain ⟨top, htop, hscope⟩ := h.exists_topLevelOn? hf hkind hb hfront hstop hline
  cases hparent : f.parent?.any (·.kind == .interface) with
  | true =>
    rw [if_pos hparent] at hscope
    rw [if_pos rfl, references_eq hc.at?_eq]
    simp only [referenceSites, hc.word_eq, hc.isEmpty_eq, hflag, hother, hdeclaration, hconstant,
      haccess, isFunctionName_eq hc hfunction, htop, hscope, Bool.or_false,
      Bool.false_eq_true, if_false, List.map_nil]
  | false =>
    rw [hparent, if_neg Bool.false_ne_true] at hscope
    subst hscope
    rw [if_neg Bool.false_ne_true]
    refine refersTo_of_filter hc.at?_eq ?_ (h.wellPlaced hf) fun s c => Site.usesLocal_below
    simp only [referenceSites, hc.word_eq, hc.isEmpty_eq, hflag, hother, hdeclaration, hconstant,
      haccess, isFunctionName_eq hc hfunction, htop, hkind, Bool.or_false,
      Bool.false_eq_true, if_false, Tree.usesOfSymbol_eq]
    rfl

end Local

end Shows

/-! ### Locals -/

/-- Where a parameter or a typed local of a function is bound, its references are the bare uses of
its name below the function, unless the line makes the name that of a function or of a variable of
the module; in an interface there are none. -/
theorem references_local {a : Analysis} {files : FileSystem} {d : Document}
    {workingDirectory : Option Path} :
    let built := (a.build (.builtIn files) d workingDirectory).1
    built.state = .ready →
    ∀ f ∈ built.best.sites, f.kind = .function →
    ∀ b ∈ f.descendants, ∀ name, b.node.boundName? = some name →
      (∀ t ∈ built.best.sites, t.node.typeName? ≠ some name) →
      d.OnName b.node.bindingPlace name fun p => ∃ line, d.line? p.line = some line ∧
        if "def".toList.isPrefixOf line && built.internalFunctions.contains name then
          built.references d p = (built.best.callsOf name).map fun s => d.utf16Range s.range
        else if line.head?.any (!CharClass.isBlank ·) && built.stateVariables.contains name then
          built.RefersTo d p built.best.root
            (·.usesVariable name (Search.contains "constant(".toList line))
        else p.line + 1 = b.node.bindingPlace.line →
          if f.parent?.any (·.kind == .interface) then built.references d p = []
          else built.RefersTo d p f (·.usesLocal name) := by
  intro built hready f hf hkind b hb name hname htype
  obtain ⟨parsed, -, h⟩ := exists_shows hready
  refine (h.onName_binding (mem_sites_of_mem_descendants hf hb) hname).imp fun p => ?_
  rintro ⟨c, hc⟩
  refine ⟨c.line, CursorContext.line?_eq hc.at?_eq, ?_⟩
  split
  · next hfunction => exact h.references_function hc htype hfunction
  · next hfunction =>
    rw [Bool.not_eq_true] at hfunction
    split
    · next hvariable => exact h.refersTo_margin hc htype hfunction hvariable
    · next hvariable =>
      rw [Bool.not_eq_true] at hvariable
      intro hline
      exact h.refersTo_scope hc htype hfunction hf hkind hb hname hvariable hline

/-- A local has the name of a variable of the module, and so has a parameter of another function. -/
def sharing : Document :=
  .ofLines ["a: bool", "def f(b: bool):", " a: bool = b", " c: bool = a", "def g(a: bool):",
    " c: bool = a"]

/-- A function of the module binds `a` in one place and uses it in one other. -/
def bindsOnce (place : Pos) (span : Span) (m : Module) : Bool :=
  m.body.any fun e => (m.site e).kind == .function &&
    ((m.site e).below 8).any (fun b =>
      b.node.boundName? == some "a" && b.node.bindingPlace == place) &&
    (m.site e).hasOnly (·.usesLocal "a") span 8

theorem exists_of_bindsOnce {place : Pos} {span : Span} {m : Module}
    (h : bindsOnce place span m = true) :
    ∃ e ∈ m.body, (m.site e).kind = .function ∧
      (∃ b ∈ (m.site e).descendants, b.node.boundName? = some "a" ∧ b.node.bindingPlace = place) ∧
      (m.site e).hasOnly (·.usesLocal "a") span 8 = true := by
  obtain ⟨e, he, hfunction⟩ := List.any_eq_true.mp h
  rw [Bool.and_eq_true, Bool.and_eq_true, beq_iff_eq] at hfunction
  obtain ⟨⟨hkind, hbinds⟩, honly⟩ := hfunction
  obtain ⟨b, hb, hname⟩ := List.any_eq_true.mp hbinds
  rw [Bool.and_eq_true, beq_iff_eq, beq_iff_eq] at hname
  exact ⟨e, he, hkind, ⟨b, Site.mem_descendants_of_below hb, hname⟩, honly⟩

/-- Both functions use their own `a` once, and the variable is never accessed. -/
theorem exists_shows_sharing :
    let built := (({} : Analysis).build (.builtIn .empty) sharing none).1
    built.state = .ready ∧ ∃ m, built.Shows sharing.text m ∧
      bindsOnce ⟨3, 1⟩ ⟨⟨4, 11⟩, ⟨4, 12⟩⟩ m = true ∧ bindsOnce ⟨5, 6⟩ ⟨⟨6, 11⟩, ⟨6, 12⟩⟩ m = true ∧
      (∃ v, .var v ∈ m.body ∧ v.name = "a") ∧
      built.best.root.allBelow (!·.usesVariable "a" false) 8 = true := by
  intro built
  obtain ⟨hready, m, h, hq⟩ : built.state = .ready ∧ ∃ m, built.Shows _ m ∧ _ :=
    exists_shows_of_compiles (fun m =>
      bindsOnce ⟨3, 1⟩ ⟨⟨4, 11⟩, ⟨4, 12⟩⟩ m && bindsOnce ⟨5, 6⟩ ⟨⟨6, 11⟩, ⟨6, 12⟩⟩ m &&
        m.declaresAt "a" ⟨1, 0⟩ (fun _ => true) &&
        ({ node := .module m } : Site).allBelow (!·.usesVariable "a" false) 8) 8
      (by decide +kernel) (by decide +kernel)
  simp only [Bool.and_eq_true] at hq
  obtain ⟨⟨⟨hlocal, hparameter⟩, hvar⟩, hnone⟩ := hq
  obtain ⟨v, hv, hname, -⟩ := Module.exists_of_declaresAt hvar
  rw [← h.root_eq] at hnone
  exact ⟨hready, m, h, hlocal, hparameter, ⟨v, hv, hname⟩, hnone⟩

theorem references_local_sharing :
    let built := (({} : Analysis).build (.builtIn .empty) sharing none).1
    built.state = .ready ∧ "a" ∈ built.stateVariables ∧
    (∃ f ∈ built.best.sites, f.kind = .function ∧
      ∃ b ∈ f.descendants, b.node.boundName? = some "a" ∧ b.node.bindingPlace = ⟨3, 1⟩) ∧
    built.references sharing ⟨2, 2⟩ = [⟨⟨3, 11⟩, ⟨3, 12⟩⟩] := by
  intro built
  obtain ⟨hready, m, h, hbinds, -, ⟨v, hv, hvname⟩, -⟩ := exists_shows_sharing
  obtain ⟨e, he, hkind, ⟨b, hb, hname, hplace⟩, honly⟩ := exists_of_bindsOnce hbinds
  have hanswers := references_local hready (m.site e) (h.mem_sites he) hkind b hb "a" hname
    (hvname ▸ h.not_mem_types hv)
  obtain ⟨line, hline, hanswer⟩ := hanswers.holds (k := 1)
    ((Document.ofLines ["a: bool", "def f(b: bool):"]).text ++ [' '])
    (Document.ofLines [": bool = b", " c: bool = a", "def g(a: bool):", " c: bool = a"]).text
    (by decide +kernel) (by rw [hplace]; decide +kernel) (by decide)
  obtain rfl : line = " a: bool = b".toList :=
    Option.some.inj (hline.symm.trans (by decide +kernel))
  rw [show "def".toList.isPrefixOf " a: bool = b".toList = false by decide, Bool.false_and,
    if_neg Bool.false_ne_true, show " a: bool = b".toList.head?.any (!CharClass.isBlank ·) = false
      by decide +kernel, Bool.false_and, if_neg Bool.false_ne_true] at hanswer
  have hrefers := hanswer (by rw [hplace]; decide +kernel)
  rw [show sharing.positionAt _ = ⟨2, 2⟩ by decide +kernel] at hrefers
  have hfound := (hrefers.references_eq_singleton (by decide) honly).trans
    (show _ = [⟨⟨3, 11⟩, ⟨3, 12⟩⟩] by decide +kernel)
  exact ⟨hready, hvname ▸ List.contains_iff_mem.mp (h.contains_of_var hv).2,
    ⟨m.site e, h.mem_sites he, hkind, b, hb, hname, hplace⟩, hfound⟩

/-- A parameter with the name of a variable of the module loses its uses. -/
theorem references_shared_parameter :
    let built := (({} : Analysis).build (.builtIn .empty) sharing none).1
    built.state = .ready ∧
    (∃ f ∈ built.best.sites, f.kind = .function ∧
      (∃ b ∈ f.descendants, b.node.boundName? = some "a" ∧ b.node.bindingPlace = ⟨5, 6⟩) ∧
      ∃ s ∈ f.descendants, s.usesLocal "a" = true ∧ s.span = ⟨⟨6, 11⟩, ⟨6, 12⟩⟩) ∧
    built.references sharing ⟨4, 6⟩ = [] := by
  intro built
  obtain ⟨hready, m, h, -, hbinds, ⟨v, hv, hvname⟩, hnone⟩ := exists_shows_sharing
  obtain ⟨e, he, hkind, ⟨b, hb, hname, hplace⟩, honly⟩ := exists_of_bindsOnce hbinds
  obtain ⟨hinternal, hvariable⟩ := h.contains_of_var hv
  have hcursors := h.onName_binding
    (mem_sites_of_mem_descendants (h.mem_sites he) hb) hname
  obtain ⟨c, hc⟩ := hcursors.holds (k := 0)
    ((Document.ofLines ["a: bool", "def f(b: bool):", " a: bool = b", " c: bool = a"]).text ++
      "def g(".toList)
    (Document.ofLines [": bool):", " c: bool = a"]).text
    (by decide +kernel) (by rw [hplace]; decide +kernel) (by decide)
  rw [show sharing.positionAt _ = ⟨4, 6⟩ by decide +kernel] at hc
  have hline : c.line = "def g(a: bool):".toList :=
    Option.some.inj ((CursorContext.line?_eq hc.at?_eq).symm.trans (by decide +kernel))
  rw [hvname] at hinternal hvariable
  have hrefers := h.refersTo_margin hc (hvname ▸ h.not_mem_types hv)
    (by rw [hinternal, Bool.and_false]) (by rw [hvariable, hline]; decide +kernel)
  rw [hline, show Search.contains constantMark _ = false by decide +kernel] at hrefers
  exact ⟨hready, ⟨m.site e, h.mem_sites he, hkind, ⟨b, hb, hname, hplace⟩,
    Site.exists_of_hasOnly honly⟩, hrefers.references_eq_nil hnone⟩

end Analysis

end Vyper
