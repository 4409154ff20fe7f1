import Vyper.Proofs.DocumentOrder
import Mathlib.Data.List.Nodup
import Mathlib.Logic.Relation

/-!
# Subtrees

What lies below a site is one stretch of what lies below the root (`Site.exists_block`), and the
enclosing nodes of a site are those it is reached through (`Site.exists_above`). In a tree that was
read from a text no two nodes are the same, so a site lies below another one exactly if it is
enclosed by it (`Site.mem_above_iff`). `Tree.scopedTo_restricts` is the result for questions asked
of a subtree.
-/

namespace Vyper

namespace Site

variable {P : Token → Prop} {r s c d f g : Site}

theorem mem_descendants : d ∈ s.descendants ↔ ∃ c ∈ s.children, d = c ∨ d ∈ c.descendants := by
  rw [descendants_eq, List.mem_flatMap]
  simp only [List.mem_cons]

theorem mem_descendants_of_mem_children (h : c ∈ s.children) : c ∈ s.descendants :=
  mem_descendants.mpr ⟨c, h, .inl rfl⟩

theorem above_of_mem_children (h : c ∈ s.children) : c.above = s.node :: s.above := by
  obtain ⟨part, -, rfl⟩ := mem_children.mp h
  rfl

/-- A site and everything below it stand together. -/
theorem exists_block {r : Site} (h : f ∈ r.descendants) :
    ∃ front back, r.descendants = front ++ (f :: f.descendants ++ back) := by
  obtain ⟨c, hc, hf⟩ := mem_descendants.mp h
  have hlt := sizeOf_node_lt_of_mem_children hc
  obtain ⟨before, after, hchildren⟩ := List.append_of_mem hc
  have hblock : ∃ front back, c :: c.descendants = front ++ (f :: f.descendants ++ back) := by
    rcases hf with rfl | hf
    · exact ⟨[], [], by simp⟩
    · obtain ⟨front, back, hfront⟩ := exists_block hf
      exact ⟨c :: front, back, by rw [hfront]; rfl⟩
  obtain ⟨front, back, hfront⟩ := hblock
  refine ⟨before.flatMap (fun c => c :: c.descendants) ++ front,
    back ++ after.flatMap fun c => c :: c.descendants, ?_⟩
  rw [descendants_eq, hchildren, List.flatMap_append, List.flatMap_cons, hfront]
  simp only [List.append_assoc, List.cons_append]
termination_by sizeOf r.node

theorem descendants_subset (h : f ∈ r.descendants) : f.descendants ⊆ r.descendants := by
  obtain ⟨front, back, hblock⟩ := exists_block h
  intro d hd
  rw [hblock]
  simp [hd]

/-- A site is enclosed by the sites it is reached through, and by those around the first one. -/
theorem exists_above {s : Site} (h : d ∈ s.descendants) :
    ∃ inner, d.above = inner ++ s.node :: s.above ∧
      ∀ n ∈ inner, ∃ g ∈ s.descendants, g.node = n ∧ d ∈ g.descendants := by
  obtain ⟨c, hc, hd⟩ := mem_descendants.mp h
  have hlt := sizeOf_node_lt_of_mem_children hc
  rcases hd with rfl | hd
  · exact ⟨[], above_of_mem_children hc, by simp⟩
  · obtain ⟨inner, habove, hinner⟩ := exists_above hd
    refine ⟨inner ++ [c.node], by rw [habove, above_of_mem_children hc]; simp, fun n hn => ?_⟩
    have hc' := mem_descendants_of_mem_children hc
    rcases List.mem_append.mp hn with hn | hn
    · obtain ⟨g, hg, hnode, hbelow⟩ := hinner n hn
      exact ⟨g, descendants_subset hc' hg, hnode, hbelow⟩
    · exact ⟨c, hc', (List.mem_singleton.mp hn).symm, hd⟩
termination_by sizeOf s.node

/-- No two nodes of a tree are the same. -/
theorem nodup_nodes (h : r.node.WellPlaced P) : ((r :: r.descendants).map (·.node)).Nodup := by
  rw [List.map_cons, List.nodup_cons]
  refine ⟨fun hmem => ?_, nodup_descendants h⟩
  obtain ⟨d, hd, hnode⟩ := List.mem_map.mp hmem
  obtain ⟨i, path, hpath⟩ := exists_cons_path hd
  have hsize := (h.below hpath).1
  rw [hnode] at hsize
  exact Nat.lt_irrefl _ hsize

theorem eq_of_node_eq (h : r.node.WellPlaced P) (hf : f ∈ r :: r.descendants)
    (hg : g ∈ r :: r.descendants) (hnode : f.node = g.node) : f = g :=
  List.inj_on_of_nodup_map (nodup_nodes h) hf hg hnode

/-- A site below the root lies below another one exactly if the other one encloses it. -/
theorem mem_above_iff (h : r.node.WellPlaced P) (hr : r.above = []) (hf : f ∈ r :: r.descendants)
    (hd : d ∈ r.descendants) : f.node ∈ d.above ↔ d ∈ f.descendants := by
  constructor
  · intro hmem
    obtain ⟨inner, habove, hinner⟩ := exists_above hd
    rw [habove, hr, List.mem_append, List.mem_singleton] at hmem
    rcases hmem with hmem | hroot
    · obtain ⟨g, hg, hnode, hbelow⟩ := hinner _ hmem
      rwa [eq_of_node_eq h hf (List.mem_cons_of_mem _ hg) hnode.symm]
    · rwa [eq_of_node_eq h hf List.mem_cons_self hroot]
  · intro hbelow
    obtain ⟨inner, habove, -⟩ := exists_above hbelow
    rw [habove]
    simp

theorem exists_stretch (hf : f ∈ r :: r.descendants) :
    ∃ front back, r.descendants = front ++ (f.descendants ++ back) := by
  rcases List.mem_cons.mp hf with rfl | hf
  · exact ⟨[], [], (List.append_nil _).symm⟩
  · obtain ⟨front, back, hblock⟩ := exists_block hf
    exact ⟨front ++ [f], back, by rw [List.append_assoc]; exact hblock⟩

open Classical in
/-- What lies below a site is what it encloses. -/
theorem filter_descendants (h : r.node.WellPlaced P) (hr : r.above = [])
    (hf : f ∈ r :: r.descendants) :
    r.descendants.filter (fun d => f.node ∈ d.above) = f.descendants := by
  have hnodup := List.Nodup.of_map _ (nodup_descendants h)
  have hiff : ∀ d ∈ r.descendants, decide (f.node ∈ d.above) = true ↔ d ∈ f.descendants :=
    fun d hd => decide_eq_true_iff.trans (mem_above_iff h hr hf hd)
  obtain ⟨front, back, hstretch⟩ := exists_stretch hf
  rw [hstretch] at hnodup hiff ⊢
  obtain ⟨-, hrest, hfront⟩ := List.nodup_append.mp hnodup
  obtain ⟨-, -, hback⟩ := List.nodup_append.mp hrest
  have hbefore : ∀ d ∈ front, ¬decide (f.node ∈ d.above) = true := by
    intro d hd hmem
    have hbelow := (hiff d (by simp [hd])).mp hmem
    exact hfront d hd d (List.mem_append_left _ hbelow) rfl
  have hbehind : ∀ d ∈ back, ¬decide (f.node ∈ d.above) = true := by
    intro d hd hmem
    have hbelow := (hiff d (by simp [hd])).mp hmem
    exact hback d hbelow d hd rfl
  have hinside : ∀ d ∈ f.descendants, decide (f.node ∈ d.above) = true := fun d hd =>
    (hiff d (by simp [hd])).mpr hd
  rw [List.filter_append, List.filter_append, List.filter_eq_nil_iff.mpr hbefore,
    List.filter_eq_nil_iff.mpr hbehind, List.filter_eq_self.mpr hinside, List.nil_append,
    List.append_nil]

end Site

open Classical in
/-- Questions asked of a subtree: the answers are those of the whole tree that the root of the
subtree encloses, in the same order, and what lies below it is one stretch of what lies below the
module. -/
theorem Tree.scopedTo_restricts {m : Module} {text : List Char} (h : m.IsTreeOf text) {f : Site}
    (hf : f ∈ (ofModule m text).root :: (ofModule m text).sites) :
    let whole := ofModule m text
    (∃ front back, whole.sites = front ++ ((whole.scopedTo f).sites ++ back)) ∧
    (whole.scopedTo f).sites = whole.sites.filter (fun s => f.node ∈ s.above) ∧
    (∀ kinds filter, (whole.scopedTo f).select kinds filter =
      (whole.select kinds filter).filter fun s => f.node ∈ s.above) ∧
    ∀ symbol, (whole.scopedTo f).usesOfSymbol symbol =
      (whole.usesOfSymbol symbol).filter fun s => f.node ∈ s.above := by
  have hblock : (ofModule m text).root.descendants.filter (fun s => f.node ∈ s.above) =
      f.descendants :=
    Site.filter_descendants h.wellPlaced rfl hf
  refine ⟨Site.exists_stretch hf, hblock.symm, fun kinds filter => ?_, fun symbol => ?_⟩
  · change f.descendants.filter _ = ((ofModule m text).root.descendants.filter _).filter _
    rw [← hblock, List.filter_comm]
  · change (f.descendants.filter _).filter _ =
      (((ofModule m text).root.descendants.filter _).filter _).filter _
    rw [← hblock]
    simp only [List.filter_filter]
    refine List.filter_congr fun s _ => ?_
    ac_rfl

open Classical in
/-- The names in a function: the module has one more. -/
theorem Tree.scopedTo_restricts_function :
    ∃ parsed, Module.parse "x: A\ndef f(): return y\n".toList = .ok parsed ∧
      let whole := ofModule parsed.tree "x: A\ndef f(): return y\n".toList
      ∃ f ∈ whole.sites, f.kind = .function ∧
        (∃ front back, whole.sites = front ++ ((whole.scopedTo f).sites ++ back)) ∧
        (whole.scopedTo f).select [.name] [] = (whole.select [.name] []).filter fun s =>
          f.node ∈ s.above := by
  have hkind : ((Module.parse "x: A\ndef f(): return y\n".toList).toOption.bind fun parsed =>
      ((Node.module parsed.tree).at? [1]).map Node.kind) = some .function := by decide +kernel
  cases hparse : Module.parse "x: A\ndef f(): return y\n".toList with
  | error e =>
    rw [hparse] at hkind
    cases hkind
  | ok parsed =>
    rw [hparse] at hkind
    obtain ⟨n, hn, hkind⟩ := Option.map_eq_some_iff.mp hkind
    obtain ⟨f, hf, rfl⟩ := Site.exists_mem_descendants
      (r := (ofModule parsed.tree "x: A\ndef f(): return y\n".toList).root) hn (by simp)
    obtain ⟨hstretch, -, hselect, -⟩ :=
      scopedTo_restricts ⟨parsed, hparse, .inl rfl⟩ (List.mem_cons_of_mem _ hf)
    exact ⟨parsed, rfl, f, hf, hkind, hstretch, hselect [.name] []⟩

end Vyper
