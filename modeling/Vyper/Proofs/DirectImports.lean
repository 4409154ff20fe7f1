import Vyper.Compilation
import Vyper.Proofs.SymbolTables

/-!
# Direct imports

Of all files, only those that the imports of a text itself can find make a difference to its
compilation (`Frontend.builtIn_of_sameImports`). An imported file is annotated with its own imports
taken at their word, so no file is opened for them, and two files that import each other are nothing
special.
-/

namespace Vyper

variable {text : List Char} {search : List Path} {files files' : FileSystem}

/-- Two file systems have the same files where the imports of a module look: below each root of an
import, at its dotted name with one of the two extensions. -/
def Module.SameImports (m : Module) (search : List Path) (files files' : FileSystem) : Prop :=
  ∀ d ∈ m.body, ∀ request, d.request? = some request → ∀ root ∈ request.roots search,
    ∀ extension ∈ [".vy", ".vyi"],
      files.read? (root.join (request.relative ++ extension)) =
        files'.read? (root.join (request.relative ++ extension))

/-! ### Two runs -/

theorem foldlM_congr {ε α β : Type} {f g : β → α → Except ε β} {xs : List α}
    (h : ∀ x ∈ xs, ∀ b, f b x = g b x) (b : β) : xs.foldlM f b = xs.foldlM g b := by
  induction xs generalizing b with
  | nil => rfl
  | cons x xs ih =>
    rw [List.foldlM_cons, List.foldlM_cons, h x List.mem_cons_self b]
    congr
    funext next
    exact ih (fun y hy => h y (List.mem_cons_of_mem x hy)) next

theorem Importer.fromFiles_congr {request : ImportRequest}
    (h : ∀ path ∈ request.candidates search, files.read? path = files'.read? path) :
    fromFiles files search request = fromFiles files' search request := by
  have hfound : ∀ paths : List Path, (∀ path ∈ paths, files.read? path = files'.read? path) →
      paths.findSome? (fun path => (files.read? path).map (path, ·)) =
        paths.findSome? (fun path => (files'.read? path).map (path, ·)) := by
    intro paths hpaths
    induction paths with
    | nil => rfl
    | cons path paths ih =>
      rw [List.findSome?_cons, List.findSome?_cons, hpaths path List.mem_cons_self,
        ih fun other hother => hpaths other (List.mem_cons_of_mem path hother)]
  rw [fromFiles, fromFiles, hfound _ h]

namespace Annotate

theorem record_congr {importer importer' : Importer} {d : Declaration}
    (h : ∀ request, d.request? = some request → importer request = importer' request)
    (tables : ModuleType) : record importer text tables d = record importer' text tables d := by
  cases d with
  | importing i | importFrom i => rw [record, record, h i.request rfl]
  | _ => rfl

end Annotate

/-- A module is annotated alike by importers that answer its own imports alike. -/
theorem Module.annotate_congr {m : Module} {importer importer' : Importer}
    (h : ∀ d ∈ m.body, ∀ request, d.request? = some request → importer request = importer' request)
    (path : Option Path) : m.annotate text path importer = m.annotate text path importer' := by
  have hdeclare : ∀ d ∈ m.body, ∀ draft,
      Annotate.declare importer text draft d = Annotate.declare importer' text draft d := by
    intro d hd draft
    rw [Annotate.declare_eq, Annotate.declare_eq]
    congr
    funext claimed
    rw [Annotate.record_congr (h d hd)]
  rw [annotate, annotate, foldlM_congr hdeclare]

/-- The places are the candidates of the imports. -/
theorem Module.sameImports_iff {m : Module} :
    m.SameImports search files files' ↔
      ∀ path ∈ m.importCandidates search, files.read? path = files'.read? path := by
  constructor
  · intro h path hpath
    obtain ⟨request, hrequest, hpath⟩ := List.mem_flatMap.mp hpath
    obtain ⟨d, hd, hrequest⟩ := List.mem_filterMap.mp hrequest
    obtain ⟨root, hroot, hpath⟩ := List.mem_flatMap.mp hpath
    have hfiles := h d hd request hrequest root hroot
    rcases List.mem_cons.mp hpath with rfl | hpath
    · exact hfiles ".vy" (by simp)
    · rw [List.mem_singleton.mp hpath]
      exact hfiles ".vyi" (by simp)
  · intro h d hd request hrequest root hroot extension hextension
    apply h
    refine List.mem_flatMap.mpr ⟨request, List.mem_filterMap.mpr ⟨d, hd, hrequest⟩, ?_⟩
    refine List.mem_flatMap.mpr ⟨root, hroot, ?_⟩
    rcases List.mem_cons.mp hextension with rfl | hextension
    · exact List.mem_cons_self
    · rw [List.mem_singleton.mp hextension]
      exact List.mem_cons_of_mem _ List.mem_cons_self

theorem Module.SameImports.fromFiles_eq {m : Module} (h : m.SameImports search files files')
    {d : Declaration} (hd : d ∈ m.body) {request : ImportRequest}
    (hrequest : d.request? = some request) :
    Importer.fromFiles files search request = Importer.fromFiles files' search request := by
  apply Importer.fromFiles_congr
  intro path hpath
  apply Module.sameImports_iff.mp h
  exact List.mem_flatMap.mpr ⟨request, List.mem_filterMap.mpr ⟨d, hd, hrequest⟩, hpath⟩

/-! ### What imported files import -/

/-- What is imported is what an import was answered with. -/
theorem Annotate.Lists.exists_of_mem_imports {importer : Importer} {body : List Declaration}
    {tables : ModuleType} (h : Lists importer text body tables) {i : String × ModuleType}
    (hi : i ∈ tables.imports) : ∃ request, importer request = .ok i.2 := by
  have hmem : (i.1, .ok i.2) ∈ tables.imports.map fun i =>
      (i.1, (.ok i.2 : Except CompileError ModuleType)) :=
    List.mem_map_of_mem hi
  rw [h.imports] at hmem
  obtain ⟨asked, -, heq⟩ := List.mem_map.mp hmem
  exact ⟨asked.2, (Prod.mk.inj heq).2⟩

/-- A module that is annotated with its imports taken at their word knows no more than their names.
-/
theorem Module.imports_of_annotate_named {m : Module} {path : Option Path} {tables : ModuleType}
    (h : m.annotate text path Importer.named = .ok tables) :
    ∀ i ∈ tables.imports, i.2 = { name := i.2.name } := by
  intro i hi
  obtain ⟨hlists, -, -⟩ := drafted_of_annotate h
  obtain ⟨request, hrequest⟩ := hlists.exists_of_mem_imports hi
  have hmodule : ({ name := request.dotted } : ModuleType) = i.2 := Except.ok.inj hrequest
  rw [← hmodule]

theorem Importer.imports_of_fromFiles {request : ImportRequest} {tables : ModuleType}
    (h : fromFiles files search request = .ok tables) :
    ∀ i ∈ tables.imports, i.2 = { name := i.2.name } := by
  unfold fromFiles at h
  split at h
  · -- A built-in module has no imports.
    cases h
    intro i hi
    cases hi
  split at h
  · next path bytes _ =>
    unfold ImportRequest.load at h
    split at h
    · cases h
    · next source _ =>
      obtain ⟨parsed, -, h⟩ := exists_of_bind_eq_ok h
      cases hannotate : parsed.tree.annotate source.toList (some path) Importer.named with
      | error e =>
        rw [hannotate] at h
        cases h
      | ok imported =>
        rw [hannotate] at h
        cases h
        exact Module.imports_of_annotate_named hannotate
  · cases h

namespace Frontend

theorem annotated_of_builtIn {c : Compilation} (h : builtIn files text search = .ok c) :
    ∃ parsed, Module.parse text = .ok parsed ∧
      c.annotated = parsed.tree.annotate text none (.fromFiles files search) := by
  obtain ⟨parsed, hparse, h⟩ := exists_of_bind_eq_ok h
  cases h
  exact ⟨parsed, hparse, rfl⟩

/-- Compilation reads the direct imports of a text and no other file: two file systems that agree on
where these imports look give the same result, be it a compilation or an error. Of what an imported
file imports in its turn nothing is known but the name. -/
theorem builtIn_of_sameImports
    (h : ∀ parsed, Module.parse text = .ok parsed → parsed.tree.SameImports search files files') :
    builtIn files text search = builtIn files' text search ∧
    ∀ c tables, builtIn files text search = .ok c → c.annotated = .ok tables →
      ∀ i ∈ tables.imports, ∀ j ∈ i.2.imports, j.2 = { name := j.2.name } := by
  constructor
  · rw [builtIn, builtIn]
    cases hparse : Module.parse text with
    | error e => rfl
    | ok parsed =>
      have hannotate : parsed.tree.annotate text none (.fromFiles files search) =
          parsed.tree.annotate text none (.fromFiles files' search) :=
        Module.annotate_congr (fun d hd request => (h parsed hparse).fromFiles_eq hd) none
      simp only [bind, Except.bind, hannotate]
  · intro c tables hc htables i hi
    obtain ⟨parsed, -, hannotated⟩ := annotated_of_builtIn hc
    rw [hannotated] at htables
    obtain ⟨hlists, -, -⟩ := Module.drafted_of_annotate htables
    obtain ⟨request, hrequest⟩ := hlists.exists_of_mem_imports hi
    exact Importer.imports_of_fromFiles hrequest

/-- Two files that import each other, one of them also itself. -/
def mutualImports : FileSystem :=
  .ofTable [(⟨"r/a.vy"⟩, "import b\nimport a\n".toUTF8), (⟨"r/b.vy"⟩, "import a\n".toUTF8)]

/-- The first of the two files, with something that is no module in the place of the other. -/
def brokenImports : FileSystem :=
  .ofTable [(⟨"r/a.vy"⟩, "import b\nimport a\n".toUTF8), (⟨"r/b.vy"⟩, "(".toUTF8)]

theorem builtIn_of_sameImports_mutual :
    builtIn mutualImports "import a\n".toList [⟨"r"⟩] =
      builtIn brokenImports "import a\n".toList [⟨"r"⟩] ∧
    ∃ c tables, builtIn mutualImports "import a\n".toList [⟨"r"⟩] = .ok c ∧
      c.annotated = .ok tables ∧ ∃ i ∈ tables.imports, i.2.imports.map (·.1) = ["b", "a"] ∧
        ∀ j ∈ i.2.imports, j.2 = { name := j.2.name } := by
  have hcandidates : (Module.parse "import a\n".toList).toOption.map
      (·.tree.importCandidates [⟨"r"⟩]) = some [⟨"r/a.vy"⟩, ⟨"r/a.vyi"⟩] := by
    decide +kernel
  have hshown : ((builtIn mutualImports "import a\n".toList [⟨"r"⟩]).toOption.bind fun c =>
      c.annotated.toOption.map fun tables => tables.imports.map fun i => i.2.imports.map (·.1)) =
        some [["b", "a"]] := by
    decide +kernel
  have hsame : ∀ parsed, Module.parse "import a\n".toList = .ok parsed →
      parsed.tree.SameImports [⟨"r"⟩] mutualImports brokenImports := by
    intro parsed hparse
    have hpaths : parsed.tree.importCandidates [⟨"r"⟩] = [⟨"r/a.vy"⟩, ⟨"r/a.vyi"⟩] := by
      rw [hparse] at hcandidates
      exact Option.some.inj hcandidates
    rw [Module.sameImports_iff, hpaths]
    decide
  obtain ⟨hequal, hnamed⟩ := builtIn_of_sameImports hsame
  obtain ⟨c, hc, hannotated⟩ := Option.bind_eq_some_iff.mp hshown
  obtain ⟨tables, htables, himports⟩ := Option.map_eq_some_iff.mp hannotated
  have hc := eq_ok_of_toOption hc
  have htables := eq_ok_of_toOption htables
  have hmem : ["b", "a"] ∈ tables.imports.map fun i => i.2.imports.map (·.1) := by
    rw [himports]
    exact List.mem_cons_self
  obtain ⟨i, hi, hnames⟩ := List.mem_map.mp hmem
  exact ⟨hequal, c, tables, hc, htables, i, hi, hnames, hnamed c tables hc htables i hi⟩

end Frontend

end Vyper
