import Vyper.Proofs.ReadyDocuments
import Vyper.Proofs.Throughout

/-!
# Members in the tree and in the tables

A struct, a flag or an event is looked for by its name among the declarations of a module, and on
the way a line of a flag is taken for it that adds a variant of the same name. So what is found is
the declaration, unless a flag before it has such a line (`Analysis.member_queries`). Of the
declaration that is found, the fields are those in the table; the variants are if every line of the
flag is a bare name, for the table takes any line with a name for its value.
-/

namespace Vyper

open Annotate Declaration

theorem findSome?_congr {α β : Type} {f g : α → Option β} {l : List α} (h : ∀ a ∈ l, f a = g a) :
    l.findSome? f = l.findSome? g := by
  rw [← List.head?_filterMap, ← List.head?_filterMap, List.filterMap_congr h]

/-- Of two readings, one of which reads some of what the other reads, the lists agree where they do.
-/
theorem filterMap_eq_filterMap_iff {α β : Type} {f g : α → Option β} {l : List α}
    (h : ∀ a ∈ l, f a = none ∨ f a = g a) :
    l.filterMap f = l.filterMap g ↔ ∀ a ∈ l, f a = g a := by
  refine ⟨fun heq => ?_, List.filterMap_congr⟩
  have hsub : ∀ l : List α, (∀ a ∈ l, f a = none ∨ f a = g a) →
      (l.filterMap f).length ≤ (l.filterMap g).length := by
    intro l hl
    induction l with
    | nil => exact le_rfl
    | cons a l ih =>
      obtain ⟨ha, hl⟩ := List.forall_mem_cons.mp hl
      have ih := ih hl
      rw [List.filterMap_cons, List.filterMap_cons]
      rcases ha with ha | ha <;> rw [ha] <;> cases g a <;> simp <;> omega
  induction l with
  | nil => nofun
  | cons a l ih =>
    obtain ⟨ha, hl⟩ := List.forall_mem_cons.mp h
    have hlen := hsub l hl
    rw [List.filterMap_cons, List.filterMap_cons] at heq
    have hfirst : f a = g a := by
      rcases ha with ha | ha
      · rw [ha] at heq ⊢
        cases hg : g a with
        | none => rfl
        | some b =>
          rw [hg] at heq
          have := congrArg List.length heq
          simp at this
          omega
      · exact ha
    refine List.forall_mem_cons.mpr ⟨hfirst, ih hl ?_⟩
    rw [hfirst] at heq
    cases hg : g a <;> simp_all

namespace Node

theorem parts_members (d : MemberDef) :
    (Node.members d).parts = d.body.map fun line => ("body", .stmt line) := by
  simp [parts, fields, partsOf, FieldValue.stmts, Function.comp_def]

end Node

/-! ### Lines of a declaration -/

namespace Module

variable {m : Module} {text : List Char} {d : MemberDef} {name : String}

/-- The site of a line of a struct, a flag or an event. -/
def lineSite (m : Module) (d : MemberDef) (line : Stmt) : Site :=
  { node := .stmt line, field := "body", above := [.members d, .module m] }

theorem members_mem_typed : .members d ∈ (m.typed text).body ↔ .members d ∈ m.body := by
  rw [typed, List.mem_map]
  constructor
  · rintro ⟨e, he, heq⟩
    cases e <;> cases heq
    exact he
  · exact fun hd => ⟨_, hd, rfl⟩

namespace IsTreeOf

variable (h : m.IsTreeOf text)
include h

theorem regular (hd : .members d ∈ m.body) : (Node.members d).Throughout Node.Regular := by
  obtain ⟨parsed, hparse, hbody⟩ := h.body_eq
  have hmem : .members d ∈ parsed.tree.body := by
    rcases hbody with hbody | hbody
    · rwa [← hbody]
    · rw [hbody] at hd
      exact members_mem_typed.mp hd
  exact (regular_of_parse hparse).module _ hmem

theorem children_members (hd : .members d ∈ m.body) :
    (m.site (.members d)).children = d.body.map (m.lineSite d) := by
  have hparts : (m.site (.members d)).parts = d.body.map (m.lineSite d) := by
    change (Node.members d).parts.map _ = _
    rw [Node.parts_members, List.map_map]
    rfl
  rw [Site.children, hparts, List.mergeSort_of_pairwise]
  exact List.pairwise_map.mpr (h.regular hd).self

/-- A line that declares a field names it. -/
theorem named_field (hd : .members d ∈ m.body) {span : Span} {target type : Expr}
    {value : Option Expr} {resolved : Option String}
    (hline : .declare span target type value resolved ∈ d.body) :
    ∃ place id, target = .name place id := by
  exact ((h.regular hd).stmts (List.mem_cons_of_mem _ List.mem_cons_self) _ hline).self.1

/-- What is looked for in a tree and is never below a declaration is found in the body. -/
theorem findSome?_sites {f : Site → Option Site}
    (hf : ∀ c s : Site, c.kind ≠ .module → s ∈ c.descendants → f s = none) :
    (Tree.ofModule m text).sites.findSome? f = m.body.findSome? (f ∘ m.site) := by
  have hsome : ∀ l : List Site, l.findSome? f = ((l.filter (f · |>.isSome)).filterMap f).head? := by
    intro l
    rw [List.filterMap_filter, ← List.head?_filterMap]
    congr 2
    funext s
    cases f s <;> rfl
  rw [hsome, Tree.filter_sites h fun c s hc hs => by rw [hf c s hc hs]; rfl, ← hsome,
    List.findSome?_map]

end IsTreeOf

/-! ### Looking for a declaration -/

/-- The first line of a flag that adds a variant. -/
def variantLine? (d : MemberDef) (name : String) : Option Stmt :=
  d.body.find? fun line => (Node.stmt line).variant? == some name

/-- What a declaration has under a name: itself, or a line of a flag. -/
def found? (m : Module) (name : String) : Declaration → Option Site
  | .members d =>
    if d.name = name then some (m.site (.members d))
    else if d.kind = .flag then (variantLine? d name).map (m.lineSite d) else none
  | _ => none

theorem IsTreeOf.typeDeclaration?_eq (h : m.IsTreeOf text) (name : String) :
    (Tree.ofModule m text).typeDeclaration? name = m.body.findSome? (m.found? name) := by
  refine (h.findSome?_sites fun c s hc hs => ?_).trans (findSome?_congr fun d hd => ?_)
  · have hkind : s.kind ∉ [Kind.module, .interface, .var, .struct, .flag, .event] :=
      (Node.kind_of_isDeclaration (Site.isDeclaration_of_mem_descendants hc hs)).1
    cases hs : s.kind <;> simp_all
  · cases d with
    | members d =>
      have hline : Tree.variantSite? (m.site (.members d)) name =
          (variantLine? d name).map (m.lineSite d) := by
        rw [Tree.variantSite?, h.children_members hd, List.find?_map]
        rfl
      obtain ⟨kind, span, id, body⟩ := d
      cases kind <;> simp [found?, site, Site.kind, Node.kind, MemberKind.toKind, Node.typeName?,
        Declaration.toNode, ← hline]
    | clause c =>
      obtain ⟨kind, span, subject⟩ := c
      cases kind <;> rfl
    | stmt line => cases line <;> rfl
    | _ => rfl

/-- A flag among some declarations adds a variant of a name. -/
def Hides (before : List Declaration) (name : String) : Prop :=
  ∃ d line, .members d ∈ before ∧ d.kind = .flag ∧ line ∈ d.body ∧
    (Node.stmt line).variant? = some name

variable {before after : List Declaration} {d : MemberDef}

/-- What is found under the name of a declaration: a line of a flag before it, or the declaration.
-/
theorem IsTreeOf.typeDeclaration?_cases (h : m.IsTreeOf text)
    (hclaims : (m.body.filterMap (·.claim?)).Nodup)
    (hbody : m.body = before ++ .members d :: after) :
    (¬ Hides before d.name ∧
      (Tree.ofModule m text).typeDeclaration? d.name = some (m.site (.members d))) ∨
    ∃ flag line, Hides before d.name ∧ (Node.stmt line).variant? = some d.name ∧
      (Tree.ofModule m text).typeDeclaration? d.name = some (m.lineSite flag line) := by
  have hd : .members d ∈ m.body := by rw [hbody]; simp
  have hown : m.found? d.name (.members d) = some (m.site (.members d)) := if_pos rfl
  -- No declaration before it has its name.
  have hfound : ∀ e ∈ before, m.found? d.name e =
      (e.members? .flag).bind fun flag => (variantLine? flag d.name).map (m.lineSite flag) := by
    intro e he
    cases e with
    | members e =>
      have hne : e.name ≠ d.name := by
        intro hname
        rw [hbody, List.filterMap_append] at hclaims
        have hfront := (List.nodup_append.mp hclaims).2.2 e.name
          (List.mem_filterMap.mpr ⟨_, he, rfl⟩) d.name
        exact hfront (List.mem_filterMap.mpr ⟨_, List.mem_cons_self, rfl⟩) hname
      by_cases hflag : e.kind = .flag <;> simp [found?, members?, hne, hflag]
    | _ => rfl
  rw [h.typeDeclaration?_eq, hbody, List.findSome?_append, List.findSome?_cons, hown]
  cases hfront : before.findSome? (m.found? d.name) with
  | none =>
    refine .inl ⟨?_, rfl⟩
    rintro ⟨flag, line, hflag, hkind, hline, hvariant⟩
    have hnone := List.findSome?_eq_none_iff.mp hfront _ hflag
    rw [hfound _ hflag] at hnone
    simp [members?, hkind, variantLine?] at hnone
    exact hnone line hline hvariant
  | some site =>
    obtain ⟨e, he, hsite⟩ := List.exists_of_findSome?_eq_some hfront
    rw [hfound e he] at hsite
    obtain ⟨flag, hflag, hsite⟩ := Option.bind_eq_some_iff.mp hsite
    obtain ⟨line, hline, rfl⟩ := Option.map_eq_some_iff.mp hsite
    rw [variantLine?] at hline
    have hmem := List.mem_of_find?_eq_some hline
    have hvariant := List.find?_some hline
    rw [beq_iff_eq] at hvariant
    cases e with
    | members e =>
      rw [members?] at hflag
      split at hflag
      · next hkind =>
        cases hflag
        exact .inr ⟨flag, line, ⟨flag, line, he, hkind, hmem, hvariant⟩, hvariant, rfl⟩
      · cases hflag
    | _ => cases hflag

end Module

/-! ### Members -/

namespace Tree

variable {t : Tree} {name : String}

/-- A line of a flag has no members. -/
theorem members_of_line {s : Site} (h : t.typeDeclaration? name = some s) {id : String}
    (hvariant : s.node.variant? = some id) :
    t.enumVariants name = [] ∧ t.structFields name = [] := by
  have hchild : ∀ c ∈ s.children, ∃ e, c.node = .expr e := by
    intro c hc
    obtain ⟨part, hpart, rfl⟩ := Site.mem_children.mp hc
    obtain ⟨node, field, above⟩ := s
    cases node with
    | stmt line => cases line with
      | eval span value => exact ⟨value, congrArg Prod.snd (List.mem_singleton.mp hpart)⟩
      | _ => cases hvariant
    | _ => cases hvariant
  rw [enumVariants, structFields, h]
  constructor <;> refine List.filterMap_eq_nil_iff.mpr fun c hc => ?_
  · obtain ⟨e, he⟩ := hchild c hc
    rw [he]
    rfl
  · obtain ⟨e, he⟩ := hchild c hc
    rw [he]
    exact ite_self none

end Tree

namespace Module.IsTreeOf

variable {m : Module} {text : List Char} {d : MemberDef} (h : m.IsTreeOf text)
  (hd : .members d ∈ m.body)
  (hfound : (Tree.ofModule m text).typeDeclaration? d.name = some (m.site (.members d)))
include h hd hfound

theorem enumVariants_eq : (Tree.ofModule m text).enumVariants d.name =
    d.body.filterMap fun line => (Node.stmt line).variant? := by
  rw [Tree.enumVariants, hfound, Option.map_some, Option.getD_some, h.children_members hd,
    List.filterMap_map]
  rfl

theorem structFields_eq :
    (Tree.ofModule m text).structFields d.name = (d.fields text).map (·.name) := by
  rw [Tree.structFields, hfound, Option.map_some, Option.getD_some, h.children_members hd,
    List.filterMap_map, MemberDef.fields, List.map_filterMap]
  refine List.filterMap_congr fun line hline => ?_
  cases line with
  | declare span target type value resolved =>
    obtain ⟨place, id, rfl⟩ := h.named_field hd hline
    rfl
  | _ => rfl

end Module.IsTreeOf

namespace Annotate.Lists

variable {importer : Importer} {text : List Char} {body : List Declaration} {tables : ModuleType}
  {d : MemberDef}

/-- In a table without collisions a declaration is found under its name. -/
theorem find?_entry {τ : Type} {kind : MemberKind} {entry : MemberDef → τ} {nameOf : τ → String}
    (hname : ∀ d, nameOf (entry d) = d.name)
    (hnodup : (((body.filterMap (·.members? kind)).map entry).map nameOf).Nodup)
    (hd : .members d ∈ body) (hkind : d.kind = kind) :
    ((body.filterMap (·.members? kind)).map entry).find? (nameOf · == d.name) = some (entry d) := by
  refine find?_eq_some_of_pairwise ((List.pairwise_map.mp hnodup).imp ?_) ?_ ?_
  · simp only [beq_iff_eq]
    rintro x y hne ⟨hx, hy⟩
    exact hne (hx.trans hy.symm)
  · exact List.mem_map_of_mem (List.mem_filterMap.mpr ⟨_, hd, by simp [members?, hkind]⟩)
  · exact beq_iff_eq.mpr (hname d)

variable (h : Lists importer text body tables) (hkeys : tables.keys.Nodup) (hd : .members d ∈ body)
include h hkeys hd

theorem flag?_eq (hkind : d.kind = .flag) : tables.flag? d.name = some ⟨d.name, d.variants⟩ := by
  have hnodup : (tables.flags.map (·.name)).Nodup := by
    refine hkeys.sublist ?_
    simp only [ModuleType.keys, List.append_assoc]
    exact (List.sublist_append_left ..).trans
      ((List.sublist_append_right ..).trans (List.sublist_append_right ..))
  rw [ModuleType.flag?, h.flags]
  rw [h.flags] at hnodup
  exact find?_entry (fun _ => rfl) hnodup hd hkind

theorem struct?_eq (hkind : d.kind = .struct) :
    tables.struct? d.name = some ⟨d.name, d.fields text⟩ := by
  have hnodup : (tables.structs.map (·.name)).Nodup := by
    refine hkeys.sublist ?_
    simp only [ModuleType.keys, List.append_assoc]
    exact (List.sublist_append_left ..).trans ((List.sublist_append_right ..).trans
      ((List.sublist_append_right ..).trans (List.sublist_append_right ..)))
  rw [ModuleType.struct?, h.structs]
  rw [h.structs] at hnodup
  exact find?_entry (fun _ => rfl) hnodup hd hkind

end Annotate.Lists

namespace Analysis

variable {a : Analysis} {files : FileSystem} {d : Document} {workingDirectory : Option Path}

open Vyper.Module (Hides)

/-- A document that is ready shows its module, and the types of the module are in the tables. -/
theorem exists_shows_members
    (hready : (a.build (.builtIn files) d workingDirectory).1.state = .ready) :
    let b := (a.build (.builtIn files) d workingDirectory).1
    ∃ parsed, Module.parse d.text = .ok parsed ∧ b.Shows d.text (parsed.tree.typed d.text) ∧
      ∀ e, .members e ∈ (parsed.tree.typed d.text).body →
        (e.kind = .flag → b.tables.flag? e.name = some ⟨e.name, e.variants⟩) ∧
        (e.kind = .struct → b.tables.struct? e.name = some ⟨e.name, e.fields d.text⟩) := by
  obtain ⟨parsed, tables, folded, hparse, hannotate, -⟩ := state_build_eq_ready.mp hready
  obtain ⟨parsed', hparse', hshows⟩ := exists_shows hready
  cases hparse.symm.trans hparse'
  obtain ⟨hlists, hclaims, -⟩ := Module.drafted_of_annotate hannotate
  have hkeys := Module.keys_nodup hlists hclaims
  obtain ⟨-, -, htables⟩ := build_of_annotate hparse hannotate a
  refine ⟨parsed, hparse, hshows, fun e he => ?_⟩
  rw [htables]
  have he := Module.members_mem_typed.mp he
  exact ⟨hlists.flag?_eq hkeys he, hlists.struct?_eq hkeys he⟩

/-- In a document that is ready, the name of a struct, a flag or an event leads to its declaration,
unless a flag before it has a variant of that name: then it leads to the line of the variant, which
has no members. The variants of a flag are those in its table exactly if its lines are bare names,
and if it is hidden exactly if it has none. The fields of a struct are those in its table, unless it
has some and is hidden. -/
theorem member_queries (hready : (a.build (.builtIn files) d workingDirectory).1.state = .ready) :
    let b := (a.build (.builtIn files) d workingDirectory).1
    ∃ parsed, Module.parse d.text = .ok parsed ∧
      ∀ before e after, (parsed.tree.typed d.text).body = before ++ .members e :: after →
        (b.best.typeDeclaration? e.name = some ((parsed.tree.typed d.text).site (.members e)) ↔
          ¬ Hides before e.name) ∧
        (Hides before e.name →
          (∃ s, b.best.typeDeclaration? e.name = some s ∧ s.node.variant? = some e.name) ∧
          b.best.enumVariants e.name = [] ∧ b.best.structFields e.name = []) ∧
        (e.kind = .flag → b.tables.flag? e.name = some ⟨e.name, e.variants⟩ ∧
          (b.best.enumVariants e.name = e.variants ↔
            (Hides before e.name → e.variants = []) ∧
            (¬ Hides before e.name →
              ∀ line ∈ e.body, (Node.stmt line).variant? = line.value?.bind Expr.id?))) ∧
        (e.kind = .struct → b.tables.struct? e.name = some ⟨e.name, e.fields d.text⟩ ∧
          (b.best.structFields e.name = (e.fields d.text).map (·.name) ↔
            (Hides before e.name → e.fields d.text = []))) := by
  obtain ⟨parsed, hparse, hshows, hentry⟩ := exists_shows_members hready
  refine ⟨parsed, hparse, fun before e after hbody => ?_⟩
  have he : .members e ∈ (parsed.tree.typed d.text).body := by rw [hbody]; simp
  obtain ⟨hflag, hstruct⟩ := hentry e he
  rw [hshows.best]
  rcases hshows.tree.typeDeclaration?_cases hshows.claims hbody with
    ⟨hfree, hfound⟩ | ⟨flag, line, hhides, hvariant, hfound⟩
  · refine ⟨iff_of_true hfound hfree, fun hhides => absurd hhides hfree, ?_, ?_⟩
    · refine fun hkind => ⟨hflag hkind, ?_⟩
      have hread : ∀ line ∈ e.body, (Node.stmt line).variant? = none ∨
          (Node.stmt line).variant? = line.value?.bind Expr.id? := by
        intro line _
        cases line with
        | eval span value => exact .inr rfl
        | _ => exact .inl rfl
      rw [hshows.tree.enumVariants_eq he hfound]
      refine (filterMap_eq_filterMap_iff hread).trans ⟨fun hall => ?_, fun hall => hall.2 hfree⟩
      exact ⟨fun hhides => absurd hhides hfree, fun _ => hall⟩
    · refine fun hkind => ⟨hstruct hkind, ?_⟩
      exact iff_of_true (hshows.tree.structFields_eq he hfound) fun hhides => absurd hhides hfree
  · obtain ⟨hvariants, hfields⟩ := Tree.members_of_line hfound hvariant
    refine ⟨iff_of_false ?_ (not_not_intro hhides),
      fun _ => ⟨⟨_, hfound, hvariant⟩, hvariants, hfields⟩, ?_, ?_⟩
    · rw [hfound]
      intro hsame
      cases congrArg (Option.map Site.node) hsame
    · refine fun hkind => ⟨hflag hkind, ?_⟩
      rw [hvariants, eq_comm]
      exact ⟨fun hnil => ⟨fun _ => hnil, fun hfree => absurd hhides hfree⟩,
        fun hall => hall.1 hhides⟩
    · refine fun hkind => ⟨hstruct hkind, ?_⟩
      rw [hfields, eq_comm, List.map_eq_nil_iff]
      exact ⟨fun hnil _ => hnil, fun hall => hall hhides⟩

/-- A flag with a variant that is named like a struct behind it. -/
def samename : Document :=
  .ofLines ["flag A:", " B", " C", "struct S:", " x: bool", "struct B:", " y: bool"]

/-- The flag and the two structs, with their members. -/
def hasMembers (m : Module) : Bool :=
  match m.body with
  | [.members a, .members s, .members b] =>
    (a.kind == .flag && a.name == "A" && a.variants == ["B", "C"] &&
      a.body.all fun line => (Node.stmt line).variant? == line.value?.bind Expr.id?) &&
    (s.kind == .struct && s.name == "S" && (s.fields samename.text).map (·.name) == ["x"]) &&
    (b.kind == .struct && b.name == "B" && (b.fields samename.text).map (·.name) == ["y"])
  | _ => false

theorem exists_of_hasMembers {m : Module} (h : hasMembers m = true) :
    ∃ a s b, m.body = [.members a, .members s, .members b] ∧
      (a.kind = .flag ∧ a.name = "A" ∧ a.variants = ["B", "C"] ∧
        ∀ line ∈ a.body, (Node.stmt line).variant? = line.value?.bind Expr.id?) ∧
      (s.kind = .struct ∧ s.name = "S" ∧ (s.fields samename.text).map (·.name) = ["x"]) ∧
      b.kind = .struct ∧ b.name = "B" ∧ (b.fields samename.text).map (·.name) = ["y"] := by
  unfold hasMembers at h
  split at h
  · next a s b hbody =>
    simp only [Bool.and_eq_true, beq_iff_eq, List.all_eq_true, and_assoc] at h
    obtain ⟨ha, hA, hvariants, hlines, hs, hS, hx, hb⟩ := h
    exact ⟨a, s, b, hbody, ⟨ha, hA, hvariants, hlines⟩, ⟨hs, hS, hx⟩, hb⟩
  · cases h

theorem member_queries_samename :
    let built := (({} : Analysis).build (.builtIn .empty) samename none).1
    built.state = .ready ∧
    built.best.enumVariants "A" = ["B", "C"] ∧
    (built.tables.flag? "A").map (·.variants) = some ["B", "C"] ∧
    (∃ s, built.best.typeDeclaration? "S" = some s ∧ s.node.typeName? = some "S") := by
  intro built
  have hcompiles :
      Module.compiles samename.text (.fromFiles .empty (samename.searchPaths none)) 4 = true := by
    decide +kernel
  have hready : built.state = .ready := ready_of_compiles hcompiles
  have hreads : Module.reads samename.text hasMembers = true := by decide +kernel
  obtain ⟨parsed, hparse, hqueries⟩ := member_queries hready
  rw [Module.reads, hparse] at hreads
  obtain ⟨a, s, b, hbody, ⟨ha, hA, hvariants, hlines⟩, ⟨hs, hS, hx⟩, -⟩ :=
    exists_of_hasMembers hreads
  obtain ⟨-, -, hflag, -⟩ := hqueries [] a [.members s, .members b] hbody
  obtain ⟨hfound, -⟩ := hqueries [.members a] s [.members b] hbody
  have hfirst : ¬ Hides [] a.name := by
    rintro ⟨_, _, hmem, -⟩
    cases hmem
  have hsecond : ¬ Hides [.members a] s.name := by
    rintro ⟨_, line, hmem, -, hline, hvariant⟩
    cases List.mem_singleton.mp hmem
    have hname : s.name ∈ a.variants := by
      rw [hlines line hline] at hvariant
      exact List.mem_filterMap.mpr ⟨line, hline, hvariant⟩
    rw [hS, hvariants] at hname
    exact absurd hname (by decide)
  obtain ⟨htable, hvariants'⟩ := hflag ha
  rw [hA] at htable hvariants'
  rw [hvariants] at htable
  rw [hS] at hfound hsecond
  refine ⟨hready, (hvariants'.mpr ?_).trans hvariants, ?_, _, hfound.mpr hsecond, congrArg some hS⟩
  · exact ⟨fun hhides => absurd (hA ▸ hhides) hfirst, fun _ => hlines⟩
  · exact congrArg (Option.map (·.variants)) htable

/-- The struct is in the table with its field, but its name leads to the variant, which has none. -/
theorem structFields_samename :
    let built := (({} : Analysis).build (.builtIn .empty) samename none).1
    built.state = .ready ∧
    (built.tables.struct? "B").map (fun entry => entry.fields.map (·.name)) = some ["y"] ∧
    built.best.structFields "B" = [] ∧
    ∃ s, built.best.typeDeclaration? "B" = some s ∧ s.node.variant? = some "B" := by
  intro built
  have hcompiles :
      Module.compiles samename.text (.fromFiles .empty (samename.searchPaths none)) 4 = true := by
    decide +kernel
  have hready : built.state = .ready := ready_of_compiles hcompiles
  have hreads : Module.reads samename.text hasMembers = true := by decide +kernel
  obtain ⟨parsed, hparse, hshows, hentry⟩ := exists_shows_members hready
  rw [Module.reads, hparse] at hreads
  obtain ⟨a, s, b, hbody, ⟨ha, -, hvariants, hlines⟩, -, hb, hB, hy⟩ := exists_of_hasMembers hreads
  have htable := (hentry b (by rw [hbody]; simp)).2 hb
  have hhides : Hides [.members a, .members s] b.name := by
    have hmem : b.name ∈ a.variants := by
      rw [hB, hvariants]
      decide
    obtain ⟨line, hline, hname⟩ := List.mem_filterMap.mp hmem
    exact ⟨a, line, List.mem_cons_self, ha, hline, (hlines line hline).trans hname⟩
  have hsplit : (parsed.tree.typed samename.text).body =
      [.members a, .members s] ++ .members b :: [] := hbody
  rcases hshows.tree.typeDeclaration?_cases hshows.claims hsplit with
    ⟨hfree, -⟩ | ⟨flag, line, -, hvariant, hfound⟩
  · exact absurd hhides hfree
  · rw [hB] at htable hvariant hfound
    have hbest : built.best = _ := hshows.best
    rw [hbest]
    refine ⟨hready, ?_, (Tree.members_of_line hfound hvariant).2, _, hfound, hvariant⟩
    rw [htable, Option.map_some, hy]

end Analysis

end Vyper
