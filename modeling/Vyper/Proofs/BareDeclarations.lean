import Vyper.Proofs.LocalReferences

/-!
# Declarations of bare names

Where the declaration of a bare name in a function is asked for, types come first, then constants,
then what the function itself binds (`Analysis.declaration?_bare_name`). Loop variables and
immutables are none of these.
-/

namespace Vyper

open LineCursor

/-! ### Types -/

namespace Tree

variable {t : Tree} {s : Site} {name : String}

/-- What declares a type is a type of that name, or a variant of a flag. -/
theorem mem_of_typeDeclaration? (h : t.typeDeclaration? name = some s) :
    s ∈ t.sites ∧ (s.node.typeName? = some name ∨ s.node.variant? = some name) := by
  obtain ⟨c, hc, hfound⟩ := List.exists_of_findSome?_eq_some h
  have htype : ∀ {other : Option Site},
      (if c.node.typeName? = some name then some c else other) = some s →
      (s ∈ t.sites ∧ (s.node.typeName? = some name ∨ s.node.variant? = some name)) ∨
        other = some s := by
    intro other hif
    split at hif
    · next hname =>
      cases hif
      exact .inl ⟨hc, .inl hname⟩
    · exact .inr hif
  have hne : none ≠ some s := (Option.some_ne_none s).symm
  split at hfound
  · exact (htype hfound).resolve_right hne
  · exact (htype hfound).resolve_right hne
  · rcases htype hfound with htyped | hvariant
    · exact htyped
    · rw [variantSite?] at hvariant
      have hchild := List.mem_of_find?_eq_some hvariant
      have hname := List.find?_some hvariant
      refine ⟨?_, .inr (beq_iff_eq.mp hname)⟩
      rw [sites_eq] at hc ⊢
      refine Site.descendants_trans hc ?_
      rw [Site.descendants_eq]
      exact List.mem_flatMap.mpr ⟨s, hchild, List.mem_cons_self⟩
  · exact absurd hfound hne

theorem typeDeclaration?_isSome (hs : s ∈ t.sites) (hname : s.node.typeName? = some name) :
    (t.typeDeclaration? name).isSome = true := by
  rw [typeDeclaration?, List.findSome?_isSome_iff]
  refine ⟨s, hs, ?_⟩
  obtain ⟨e, he⟩ : ∃ e, s.node = .members e := Node.exists_of_typeName? hname
  have hkind : s.kind = e.kind.toKind := congrArg Node.kind he
  rw [hkind]
  cases e.kind <;> simp [MemberKind.toKind, hname]

end Tree

/-! ### Cursors on bare names -/

/-- Whether a site declares a constant of a name. -/
def Site.declaresConstant (name : String) (s : Site) : Bool :=
  match s.node with
  | .var v => v.modifiers.isConstant && v.name == name
  | _ => false

namespace Analysis

theorem declaration?_eq {a : Analysis} {d : Document} {p : Position} {c : CursorContext}
    (hc : CursorContext.at? d p = some c) :
    a.declaration? d p = (a.declarationSite? c p.line).map fun s => d.utf16Range s.range := by
  rw [declaration?, hc, Option.map_eq_bind]
  rfl

/-- What is found for a variant has the name of its flag, as a type or as a variant itself. -/
theorem mem_of_variantOwner? {a : Analysis} {expression : List Char} {s : Site}
    (h : a.variantOwner? expression = some s) :
    s ∈ a.best.sites ∧ ∃ flag ∈ a.enums, s.node.typeName? = some flag ∨
      s.node.variant? = some flag := by
  obtain ⟨parts, -, hfound⟩ := Option.bind_eq_some_iff.mp h
  change (if a.enums.contains parts.1 && (a.best.enumVariants parts.1).contains parts.2 then
    a.best.typeDeclaration? parts.1 else none) = some s at hfound
  split at hfound
  · next hflag =>
    obtain ⟨hs, hname⟩ := Tree.mem_of_typeDeclaration? hfound
    exact ⟨hs, parts.1, List.contains_iff_mem.mp (Bool.and_eq_true_iff.mp hflag).1, hname⟩
  · cases hfound

namespace Shows

variable {a : Analysis} {text : List Char} {m : Module} {name : String} (h : a.Shows text m)
include h

theorem contains_constants_iff : a.constants.contains name = true ↔
    ∃ v, .var v ∈ m.body ∧ v.modifiers.isConstant = true ∧ v.name = name := by
  rw [List.contains_iff_mem, h.constants, List.mem_filterMap]
  constructor
  · rintro ⟨e, he, hname⟩
    cases e with
    | var v =>
      rw [Declaration.constantName?] at hname
      split at hname
      · next hconstant => exact ⟨v, he, hconstant, Option.some.inj hname⟩
      · cases hname
    | _ => cases hname
  · rintro ⟨v, hv, hconstant, hname⟩
    exact ⟨.var v, hv, by rw [Declaration.constantName?, if_pos hconstant, hname]⟩

theorem any_declaresConstant :
    a.best.sites.any (·.declaresConstant name) = a.constants.contains name := by
  rw [Bool.eq_iff_iff, h.contains_constants_iff, List.any_eq_true]
  constructor
  · rintro ⟨s, hs, hname⟩
    have hkind : s.kind = .var := by
      cases hnode : s.node with
      | var v => exact congrArg Node.kind hnode
      | _ =>
        rw [Site.declaresConstant, hnode] at hname
        cases hname
    obtain ⟨v, hv, rfl⟩ := h.exists_var hs hkind
    obtain ⟨hconstant, hname⟩ := Bool.and_eq_true_iff.mp hname
    exact ⟨v, hv, hconstant, beq_iff_eq.mp hname⟩
  · rintro ⟨v, hv, hconstant, hname⟩
    refine ⟨m.site (.var v), h.mem_sites hv, ?_⟩
    exact Bool.and_eq_true_iff.mpr ⟨hconstant, beq_iff_eq.mpr hname⟩

end Shows

namespace Shows

variable {a : Analysis} {d : Document} {m : Module} {f s : Site} {name : String} {p : Position}
  {c : CursorContext}

theorem any_typeName? : a.best.sites.any (·.node.typeName? == some name) =
    (a.userTypes.contains name || a.events.contains name) := by
  rw [Bool.eq_iff_iff, Bool.or_eq_true, List.contains_iff_mem, List.contains_iff_mem, mem_types_iff,
    List.any_eq_true]
  simp only [beq_iff_eq]

/-- A bare name is read under that name. -/
theorem onName_bareName (h : a.Shows d.text m) (hs : s ∈ a.best.sites)
    (hname : s.node.bareName? = some name) :
    d.OnName s.span.start name fun p => ∃ c, CursorContext.Sees d p name c := by
  obtain ⟨path, hpath⟩ := h.exists_at? hs
  obtain ⟨before, after, hbare⟩ := h.tree.exists_bareName hpath hname
  exact hbare.onName

variable (hc : c.Sees d p name)
include hc

/-- The name of a type stands for the type. -/
theorem exists_declaration?_type
    (htype : a.best.sites.any (·.node.typeName? == some name) = true) :
    ∃ t ∈ a.best.sites, (t.node.typeName? = some name ∨ t.node.variant? = some name) ∧
      a.declaration? d p = some (d.utf16Range t.range) := by
  obtain ⟨t, ht, hname⟩ := List.any_eq_true.mp htype
  obtain ⟨found, hfound⟩ :=
    Option.isSome_iff_exists.mp (Tree.typeDeclaration?_isSome ht (beq_iff_eq.mp hname))
  obtain ⟨hmem, hnamed⟩ := Tree.mem_of_typeDeclaration? hfound
  refine ⟨found, hmem, hnamed, ?_⟩
  rw [any_typeName?] at htype
  rw [declaration?_eq hc.at?_eq]
  simp only [declarationSite?, hc.word_eq, hc.isEmpty_eq, hc.isSelfAccess_eq, htype, hfound,
    Bool.false_eq_true, if_false, if_true, Option.map_some]

variable (h : a.Shows d.text m)
  (htype : a.best.sites.any (·.node.typeName? == some name) = false)
include h htype

/-- Else the name of a constant stands for the constant. -/
theorem exists_declaration?_constant
    (hconstant : a.best.sites.any (·.declaresConstant name) = true) :
    ∃ t ∈ a.best.sites, t.declaresConstant name = true ∧
      a.declaration? d p = some (d.utf16Range t.range) := by
  rw [h.any_declaresConstant] at hconstant
  obtain ⟨v, hv, hmodifier, hname⟩ := h.contains_constants_iff.mp hconstant
  refine ⟨m.site (.var v), h.mem_sites hv,
    Bool.and_eq_true_iff.mpr ⟨hmodifier, beq_iff_eq.mpr hname⟩, ?_⟩
  obtain ⟨found, hfound, hrange⟩ := Option.map_eq_some_iff.mp (h.declared v hv).2
  rw [any_typeName?] at htype
  rw [hname] at hfound
  rw [declaration?_eq hc.at?_eq, ← hrange]
  simp only [declarationSite?, hc.word_eq, hc.isEmpty_eq, hc.isSelfAccess_eq, htype,
    hconstant, hfound, Bool.false_eq_true, if_false, if_true, Option.map_some]

/-- Else what the function binds is found, or a flag. -/
theorem declaration?_scope (hf : f ∈ a.best.sites) (hkind : f.kind = .function)
    (hs : s ∈ f.descendants) (hline : p.line + 1 = s.span.start.line)
    (hconstant : a.best.sites.any (·.declaresConstant name) = false) :
    a.declaration? d p = if f.parent?.any (·.kind == .interface) then none else
      ((f.descendants.find? (·.node.boundName? == some name)).or
        (a.variantOwner? c.expression)).map fun t => d.utf16Range t.range := by
  have hplaced := (h.wellPlaced (mem_sites_of_mem_descendants hf hs)).placed
  obtain ⟨top, htop, hscope⟩ :=
    h.exists_topLevelOn? hf hkind hs hplaced.front_le hplaced.start_le hline
  rw [any_typeName?] at htype
  rw [h.any_declaresConstant] at hconstant
  rw [declaration?_eq hc.at?_eq]
  cases hparent : f.parent?.any (·.kind == .interface) with
  | true =>
    rw [if_pos hparent] at hscope
    simp only [declarationSite?, hc.word_eq, hc.isEmpty_eq, hc.isSelfAccess_eq, htype,
      hconstant, htop, hscope, Bool.false_eq_true, if_false, if_true]
    rfl
  | false =>
    rw [hparent, if_neg Bool.false_ne_true] at hscope
    subst hscope
    simp only [declarationSite?, hc.word_eq, hc.isEmpty_eq, hc.isSelfAccess_eq, htype, hconstant,
      htop, hkind, Tree.symbolDeclaration?, Tree.sites_eq, Bool.false_eq_true, if_false, if_true]
    rfl

end Shows

/-- Without types, what is neither a constant nor bound in the function is not found. -/
theorem Shows.declaration?_eq_none {a : Analysis} {d : Document} {m : Module} {f s : Site}
    {name : String} {p : Position} {c : CursorContext} (h : a.Shows d.text m)
    (hc : c.Sees d p name) (hf : f ∈ a.best.sites) (hkind : f.kind = .function)
    (hs : s ∈ f.descendants) (hline : p.line + 1 = s.span.start.line)
    (hsites : ∀ t ∈ a.best.sites, t.node.typeName? = none ∧ t.node.variant? = none ∧
      t.declaresConstant name = false)
    (hbound : ∀ b ∈ f.descendants, b.node.boundName? = none) : a.declaration? d p = none := by
  have htype : a.best.sites.any (·.node.typeName? == some name) = false :=
    List.any_eq_false.mpr fun t ht => by rw [(hsites t ht).1]; exact Bool.false_ne_true
  have hconstant : a.best.sites.any (·.declaresConstant name) = false :=
    List.any_eq_false.mpr fun t ht => by rw [(hsites t ht).2.2]; exact Bool.false_ne_true
  have hfind : f.descendants.find? (·.node.boundName? == some name) = none :=
    List.find?_eq_none.mpr fun b hb => by rw [hbound b hb]; exact Bool.false_ne_true
  have howner : a.variantOwner? c.expression = none := by
    refine Option.eq_none_iff_forall_not_mem.mpr fun t ht => ?_
    obtain ⟨hmem, flag, -, hnamed⟩ := mem_of_variantOwner? ht
    rw [(hsites t hmem).1, (hsites t hmem).2.1] at hnamed
    rcases hnamed with hnamed | hnamed <;> cases hnamed
  rw [h.declaration?_scope hc htype hf hkind hs hline hconstant, hfind, howner]
  exact ite_self none

/-! ### Bare names -/

/-- On a bare name in a function, the declaration of a type of that name is found, else that of a
constant, else the first parameter or typed local of the function that has it. Where the function
binds no such name, nothing but a flag is ever found, so neither a loop variable nor an immutable.
-/
theorem declaration?_bare_name {a : Analysis} {files : FileSystem} {d : Document}
    {workingDirectory : Option Path} :
    let built := (a.build (.builtIn files) d workingDirectory).1
    built.state = .ready →
    ∀ f ∈ built.best.sites, f.kind = .function →
    ∀ s ∈ f.descendants, ∀ name, s.node.bareName? = some name →
      d.OnName s.span.start name fun p =>
        if built.best.sites.any (·.node.typeName? == some name) then
          ∃ t ∈ built.best.sites, (t.node.typeName? = some name ∨ t.node.variant? = some name) ∧
            built.declaration? d p = some (d.utf16Range t.range)
        else if built.best.sites.any (·.declaresConstant name) then
          ∃ t ∈ built.best.sites, t.declaresConstant name = true ∧
            built.declaration? d p = some (d.utf16Range t.range)
        else p.line + 1 = s.span.start.line →
          if f.parent?.any (·.kind == .interface) then built.declaration? d p = none
          else
            (∀ b, f.descendants.find? (·.node.boundName? == some name) = some b →
              built.declaration? d p = some (d.utf16Range b.range)) ∧
            ((∀ b ∈ f.descendants, b.node.boundName? ≠ some name) →
              ∀ r, built.declaration? d p = some r →
                ∃ t ∈ built.best.sites, r = d.utf16Range t.range ∧
                  ∃ flag ∈ built.enums,
                    t.node.typeName? = some flag ∨ t.node.variant? = some flag) := by
  intro built hready f hf hkind s hs name hname
  obtain ⟨parsed, -, h⟩ := exists_shows hready
  refine (h.onName_bareName (mem_sites_of_mem_descendants hf hs) hname).imp fun p => ?_
  rintro ⟨c, hc⟩
  split
  · next htype => exact Shows.exists_declaration?_type hc htype
  · next htype =>
    rw [Bool.not_eq_true] at htype
    split
    · next hconstant => exact h.exists_declaration?_constant hc htype hconstant
    · next hconstant =>
      rw [Bool.not_eq_true] at hconstant
      intro hline
      have hfound := h.declaration?_scope hc htype hf hkind hs hline hconstant
      split
      · next hinterface => rwa [if_pos hinterface] at hfound
      · next hinterface =>
        rw [if_neg hinterface] at hfound
        constructor
        · intro b hb
          rw [hfound, hb]
          rfl
        · intro hnone r hr
          have hfind : f.descendants.find? (·.node.boundName? == some name) = none :=
            List.find?_eq_none.mpr fun b hb => by simpa using hnone b hb
          rw [hfound, hfind, Option.none_or] at hr
          obtain ⟨t, ht, rfl⟩ := Option.map_eq_some_iff.mp hr
          obtain ⟨hmem, hflag⟩ := mem_of_variantOwner? ht
          exact ⟨t, hmem, rfl, hflag⟩

/-- A parameter and a constant are read in a function. -/
def binding : Document :=
  .ofLines ["X: constant(bool) = True", "def f(a: bool):", " b: bool = X", " c: bool = a"]

/-- There are no types, `X` is a constant and read in a function that binds and reads `a`. -/
def bindsNames (m : Module) : Bool :=
  ({ node := .module m } : Site).allBelow
    (fun s => s.node.typeName?.isNone && !s.declaresConstant "a") 8 &&
  ({ node := .module m } : Site).hasOnly (·.declaresConstant "X") ⟨⟨1, 0⟩, ⟨1, 24⟩⟩ 8 &&
  m.body.any fun e => (m.site e).kind == .function &&
    (m.site e).hasOnly (·.node.boundName? == some "a") ⟨⟨2, 6⟩, ⟨2, 13⟩⟩ 8 &&
    (m.site e).hasOnly (·.node.bareName? == some "a") ⟨⟨4, 11⟩, ⟨4, 12⟩⟩ 8 &&
    (m.site e).hasOnly (·.node.bareName? == some "X") ⟨⟨3, 11⟩, ⟨3, 12⟩⟩ 8

theorem declaration?_bare_name_binding :
    let built := (({} : Analysis).build (.builtIn .empty) binding none).1
    built.state = .ready ∧
    (∃ f ∈ built.best.sites, f.kind = .function ∧
      (∃ s ∈ f.descendants, s.node.bareName? = some "a" ∧ s.span = ⟨⟨4, 11⟩, ⟨4, 12⟩⟩) ∧
      ∃ s ∈ f.descendants, s.node.bareName? = some "X" ∧ s.span = ⟨⟨3, 11⟩, ⟨3, 12⟩⟩) ∧
    built.declaration? binding ⟨3, 11⟩ = some ⟨⟨1, 6⟩, ⟨1, 13⟩⟩ ∧
    built.declaration? binding ⟨2, 12⟩ = some ⟨⟨0, 0⟩, ⟨0, 24⟩⟩ := by
  intro built
  obtain ⟨hready, m, h, hq⟩ : built.state = .ready ∧ ∃ m, built.Shows _ m ∧ _ :=
    exists_shows_of_compiles bindsNames 8 (by decide +kernel) (by decide +kernel)
  rw [bindsNames, Bool.and_eq_true, Bool.and_eq_true] at hq
  obtain ⟨⟨hplain, hconstant⟩, hfunction⟩ := hq
  obtain ⟨e, he, hfunction⟩ := List.any_eq_true.mp hfunction
  rw [Bool.and_eq_true, Bool.and_eq_true, Bool.and_eq_true, beq_iff_eq] at hfunction
  obtain ⟨⟨⟨hkind, hbound⟩, hreadA⟩, hreadX⟩ := hfunction
  rw [← h.root_eq] at hplain hconstant
  have htype : ∀ name, built.best.sites.any (·.node.typeName? == some name) = false := by
    intro name
    rw [Tree.sites_eq]
    refine Site.any_eq_false_of_allBelow hplain fun s hs => ?_
    rw [Option.isNone_iff_eq_none.mp (Bool.and_eq_true_iff.mp hs).1]
    rfl
  have hvariable : built.best.sites.any (·.declaresConstant "a") = false := by
    rw [Tree.sites_eq]
    refine Site.any_eq_false_of_allBelow hplain fun s hs => ?_
    exact (Bool.not_eq_true' _).mp (Bool.and_eq_true_iff.mp hs).2
  obtain ⟨b, hfind, hbspan⟩ := Site.exists_find?_of_hasOnly hbound
  obtain ⟨s, hs, hname, hspan⟩ := Site.exists_of_hasOnly hreadA
  obtain ⟨s', hs', hname', hspan'⟩ := Site.exists_of_hasOnly hreadX
  have hfirst := (declaration?_bare_name hready (m.site e) (h.mem_sites he) hkind s hs "a"
    (beq_iff_eq.mp hname)).holds (k := 0)
    ((Document.ofLines ["X: constant(bool) = True", "def f(a: bool):", " b: bool = X"]).text ++
      " c: bool = ".toList) "\n".toList (by decide +kernel) (by rw [hspan]; decide +kernel)
      (by decide)
  have hsecond := (declaration?_bare_name hready (m.site e) (h.mem_sites he) hkind s' hs' "X"
    (beq_iff_eq.mp hname')).holds (k := 1)
    ((Document.ofLines ["X: constant(bool) = True", "def f(a: bool):"]).text ++
      " b: bool = ".toList)
    (Document.ofLines ["", " c: bool = a"]).text (by decide +kernel)
    (by rw [hspan']; decide +kernel) (by decide)
  rw [if_neg (Bool.eq_false_iff.mp (htype "a")), if_neg (Bool.eq_false_iff.mp hvariable),
    show binding.positionAt _ = ⟨3, 11⟩ by decide +kernel] at hfirst
  have hparameter := (hfirst (by rw [hspan])).1 b hfind
  obtain ⟨t, ht, hdeclares, hfound⟩ : ∃ t ∈ built.best.sites, t.declaresConstant "X" = true ∧
      built.declaration? binding ⟨2, 12⟩ = some (binding.utf16Range t.range) := by
    rw [if_neg (Bool.eq_false_iff.mp (htype "X")), if_pos,
      show binding.positionAt _ = ⟨2, 12⟩ by decide +kernel] at hsecond
    · exact hsecond
    · rw [Tree.sites_eq, List.any_eq_true]
      obtain ⟨t, ht, hdeclares, -⟩ := Site.exists_of_hasOnly hconstant
      exact ⟨t, ht, hdeclares⟩
  rw [Tree.sites_eq] at ht
  rw [Site.range, hbspan] at hparameter
  rw [Site.range, Site.span_of_hasOnly hconstant ht hdeclares] at hfound
  exact ⟨hready, ⟨m.site e, h.mem_sites he, hkind, ⟨s, hs, beq_iff_eq.mp hname, hspan⟩,
    s', hs', beq_iff_eq.mp hname', hspan'⟩, hparameter.trans (by decide +kernel),
    hfound.trans (by decide +kernel)⟩

/-- An immutable and a loop variable are read in a function. -/
def looping : Document :=
  .ofLines ["X: immutable(uint256)", "def f() -> uint256:", " for i in [1]:", "  return i",
    " return X"]

/-- There are no types, variants and constants, and a function reads two names of which it binds one
in a loop. -/
def loops (m : Module) : Bool :=
  ({ node := .module m } : Site).allBelow (fun s => s.node.typeName?.isNone &&
    s.node.variant?.isNone && !s.declaresConstant "i" && !s.declaresConstant "X") 8 &&
  m.declaresAt "X" ⟨1, 0⟩ (·.modifiers.isImmutable) &&
  m.body.any fun e => (m.site e).kind == .function && (m.site e).node.bound == ["i"] &&
    ((m.site e).below 8).any (fun s => s.node.bareName? == some "i" && s.span.start == ⟨4, 9⟩) &&
    ((m.site e).below 8).any (fun s => s.node.bareName? == some "X" && s.span.start == ⟨5, 8⟩) &&
    (m.site e).allBelow (·.node.boundName?.isNone) 8

/-- Neither an immutable nor a loop variable is found. -/
theorem declaration?_looping :
    let built := (({} : Analysis).build (.builtIn .empty) looping none).1
    built.state = .ready ∧
    (∃ f ∈ built.best.sites, f.kind = .function ∧ "i" ∈ f.node.bound ∧
      ∃ s ∈ f.descendants, s.node.bareName? = some "i" ∧ s.span.start = ⟨4, 9⟩) ∧
    (∃ v ∈ built.best.sites, v.declaresVariable "X" = true) ∧
    built.declaration? looping ⟨3, 9⟩ = none ∧ built.declaration? looping ⟨4, 8⟩ = none := by
  intro built
  obtain ⟨hready, m, h, hq⟩ : built.state = .ready ∧ ∃ m, built.Shows _ m ∧ _ :=
    exists_shows_of_compiles loops 8 (by decide +kernel) (by decide +kernel)
  rw [loops, Bool.and_eq_true, Bool.and_eq_true] at hq
  obtain ⟨⟨hplain, hvar⟩, hfunction⟩ := hq
  obtain ⟨v, hv, hvname, -⟩ := Module.exists_of_declaresAt hvar
  obtain ⟨e, he, hfunction⟩ := List.any_eq_true.mp hfunction
  simp only [Bool.and_eq_true, beq_iff_eq] at hfunction
  obtain ⟨⟨⟨⟨hkind, hlocals⟩, hreadI⟩, hreadX⟩, hunbound⟩ := hfunction
  rw [← h.root_eq] at hplain
  have hsites : ∀ t ∈ built.best.sites, t.node.typeName? = none ∧ t.node.variant? = none ∧
      t.declaresConstant "i" = false ∧ t.declaresConstant "X" = false := by
    intro t ht
    rw [Tree.sites_eq] at ht
    have hsite := Site.forall_of_allBelow hplain t ht
    simp only [Bool.and_eq_true, Option.isNone_iff_eq_none, Bool.not_eq_true', and_assoc] at hsite
    exact hsite
  have hbound : ∀ b ∈ (m.site e).descendants, b.node.boundName? = none := by
    intro b hb
    exact Option.isNone_iff_eq_none.mp (Site.forall_of_allBelow hunbound b hb)
  obtain ⟨s, hs, hname⟩ := List.any_eq_true.mp hreadI
  obtain ⟨s', hs', hname'⟩ := List.any_eq_true.mp hreadX
  rw [Bool.and_eq_true, beq_iff_eq, beq_iff_eq] at hname hname'
  have hs := Site.mem_descendants_of_below hs
  have hs' := Site.mem_descendants_of_below hs'
  have hf := h.mem_sites he
  obtain ⟨c, hc⟩ :=
    (h.onName_bareName (mem_sites_of_mem_descendants hf hs) hname.1).holds (k := 0)
    ((Document.ofLines ["X: immutable(uint256)", "def f() -> uint256:", " for i in [1]:"]).text ++
      "  return ".toList) (Document.ofLines ["", " return X"]).text (by decide +kernel)
    (by rw [hname.2]; decide +kernel) (by decide)
  obtain ⟨c', hc'⟩ :=
    (h.onName_bareName (mem_sites_of_mem_descendants hf hs') hname'.1).holds (k := 0)
    ((Document.ofLines ["X: immutable(uint256)", "def f() -> uint256:", " for i in [1]:",
      "  return i"]).text ++ " return ".toList) "\n".toList (by decide +kernel)
    (by rw [hname'.2]; decide +kernel) (by decide)
  rw [show looping.positionAt _ = ⟨3, 9⟩ by decide +kernel] at hc
  rw [show looping.positionAt _ = ⟨4, 8⟩ by decide +kernel] at hc'
  refine ⟨hready, ⟨m.site e, hf, hkind, by rw [hlocals]; exact List.mem_cons_self, s, hs, hname⟩,
    ⟨m.site (.var v), h.mem_sites hv,
      Module.declaresVariable_site.mpr ⟨v, rfl, hvname ▸ h.tree.target_id hv⟩⟩, ?_, ?_⟩
  · exact h.declaration?_eq_none hc hf hkind hs (by rw [hname.2])
      (fun t ht => ⟨(hsites t ht).1, (hsites t ht).2.1, (hsites t ht).2.2.1⟩) hbound
  · exact h.declaration?_eq_none hc' hf hkind hs' (by rw [hname'.2])
      (fun t ht => ⟨(hsites t ht).1, (hsites t ht).2.1, (hsites t ht).2.2.2⟩) hbound

end Analysis

end Vyper
