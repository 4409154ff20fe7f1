import Vyper.Editor.Analysis
import Vyper.Proofs.Placement.Source
import Mathlib.Data.List.Induction

/-!
# What an analysis keeps of its builds

An analysis is a function of the builds that made it: the trees are those of the last build that
parsed, the tables those of the last build that annotated, and the state tells how the last build
went. `Analysis.Reflects` says so field by field, with any front end in each build; one build
preserves it (`Reflects.build`), and so does every history of builds.
-/

namespace Vyper

/-- A call for a build of a document. -/
structure BuildCall where
  frontend : Frontend
  document : Document
  workingDirectory : Option Path

namespace BuildCall

/-- What the front end makes of the document, if it parses. -/
def compilation? (b : BuildCall) : Option Compilation :=
  (b.frontend b.document.text (b.document.searchPaths b.workingDirectory)).toOption

def tables? (b : BuildCall) : Option ModuleType :=
  b.compilation?.bind fun c => c.annotated.toOption

def parses (b : BuildCall) : Bool := b.compilation?.isSome

def annotates (b : BuildCall) : Bool := b.tables?.isSome

def treeOf (b : BuildCall) (m : Module) : Tree := .ofModule m b.document.text

def raw? (b : BuildCall) : Option Tree := b.compilation?.map fun c => b.treeOf c.raw

/-- The annotated tree; none if annotation fails. -/
def annotated? (b : BuildCall) : Option Tree := (b.tables?.bind (·.tree)).map b.treeOf

/-- The folded tree; none if annotation or folding fails. -/
def folded? (b : BuildCall) : Option Tree :=
  (b.tables?.bind fun _ => b.compilation?.bind Compilation.foldedTree?).map b.treeOf

def folds (b : BuildCall) : Bool := b.folded?.isSome

/-- The last of some builds that parses. -/
def lastParsed? (history : List BuildCall) : Option BuildCall := (history.filter parses).getLast?

/-- The last of some builds that annotates. -/
def lastAnnotated? (history : List BuildCall) : Option BuildCall :=
  (history.filter annotates).getLast?

theorem lastParsed?_concat (history : List BuildCall) (b : BuildCall) :
    lastParsed? (history ++ [b]) = if b.parses then some b else lastParsed? history := by
  unfold lastParsed?
  by_cases h : b.parses = true <;> simp [h]

theorem lastAnnotated?_concat (history : List BuildCall) (b : BuildCall) :
    lastAnnotated? (history ++ [b]) = if b.annotates then some b else lastAnnotated? history := by
  unfold lastAnnotated?
  by_cases h : b.annotates = true <;> simp [h]

end BuildCall

namespace Analysis

open BuildCall

variable {a : Analysis} {history : List BuildCall}

/-- Makes a build and leaves its diagnostics aside. -/
def take (a : Analysis) (b : BuildCall) : Analysis :=
  (a.build b.frontend b.document b.workingDirectory).1

/-- The analysis after some builds, the first of them on nothing. -/
def after (history : List BuildCall) : Analysis := history.foldl take {}

theorem after_concat (history : List BuildCall) (b : BuildCall) :
    after (history ++ [b]) = (after history).take b := by
  simp [after]

/-- The trees and tables of an analysis are those of the last builds that made some, and its state
is that of the last build. -/
structure Reflects (a : Analysis) (history : List BuildCall) : Prop where
  raw : a.raw = (lastParsed? history).bind raw?
  annotated : a.annotated = (lastParsed? history).bind annotated?
  folded : a.folded = (lastParsed? history).bind folded?
  tables : a.tables = ((lastAnnotated? history).bind tables?).getD { name := "" }
  empty_iff : a.state = .empty ↔ history = []
  failed_iff : a.state = .failed ↔ ∃ b ∈ history.getLast?, b.parses = false
  ready_iff : a.state = .ready ↔
    ∃ b ∈ history.getLast?, b.annotates = true ∧ b.folds = true
  partiallyReady_iff : a.state = .partiallyReady ↔
    ∃ b ∈ history.getLast?, b.parses = true ∧ ¬(b.annotates = true ∧ b.folds = true)

/-! ### One build -/

variable {b : BuildCall}

theorem take_of_not_parses (h : b.parses = false) (a : Analysis) :
    a.take b = { a with state := .failed } := by
  unfold take build
  dsimp only
  cases hb : b.frontend b.document.text (b.document.searchPaths b.workingDirectory) with
  | ok c =>
    unfold parses compilation? at h
    rw [hb] at h
    cases h
  | error e => rfl

theorem take_of_compilation {c : Compilation} (h : b.compilation? = some c) (a : Analysis) :
    a.take b = a.install b.document.text c := by
  unfold compilation? at h
  unfold take build
  dsimp only
  cases hb : b.frontend b.document.text (b.document.searchPaths b.workingDirectory) with
  | ok c' =>
    rw [hb] at h
    cases h
    rfl
  | error e =>
    rw [hb] at h
    cases h

theorem take_of_not_annotates (hparses : b.parses = true) (h : b.annotates = false) (a : Analysis) :
    a.take b =
      { a with raw := b.raw?, annotated := none, folded := none, state := .partiallyReady } := by
  obtain ⟨c, hc⟩ := Option.isSome_iff_exists.mp hparses
  rw [take_of_compilation hc, install, raw?, hc]
  unfold annotates tables? at h
  rw [hc] at h
  cases hannotated : c.annotated with
  | ok tables =>
    rw [Option.bind_some, hannotated] at h
    cases h
  | error e => rfl

theorem take_of_tables {tables : ModuleType} (h : b.tables? = some tables) (a : Analysis) :
    a.take b =
      ⟨b.raw?, b.annotated?, b.folded?, tables,
        if b.folds then .ready else .partiallyReady⟩ := by
  obtain ⟨c, hc, htables⟩ := Option.bind_eq_some_iff.mp h
  rw [take_of_compilation hc, install, folds, raw?, annotated?, folded?, h, hc]
  cases hannotated : c.annotated with
  | ok tables' =>
    rw [hannotated] at htables
    cases htables
    rfl
  | error e =>
    rw [hannotated] at htables
    cases htables

theorem parses_of_annotates (h : b.annotates = true) : b.parses = true := by
  obtain ⟨tables, htables⟩ := Option.isSome_iff_exists.mp h
  obtain ⟨c, hc, -⟩ := Option.bind_eq_some_iff.mp htables
  exact Option.isSome_iff_exists.mpr ⟨c, hc⟩

theorem Reflects.start : Reflects {} [] := by
  constructor <;> simp [lastParsed?, lastAnnotated?]

theorem Reflects.build_of_annotates (hannotates : b.annotates = true) (a : Analysis)
    (history : List BuildCall) : Reflects (a.take b) (history ++ [b]) := by
  have hparses := parses_of_annotates hannotates
  obtain ⟨tables, htables⟩ := Option.isSome_iff_exists.mp hannotates
  rw [take_of_tables htables]
  by_cases hfolds : b.folds = true
  · constructor <;>
      simp [lastParsed?_concat, lastAnnotated?_concat, hparses, hannotates, htables, hfolds]
  · constructor <;>
      simp [lastParsed?_concat, lastAnnotated?_concat, hparses, hannotates, htables, hfolds]

theorem Reflects.build (h : Reflects a history) (b : BuildCall) :
    Reflects (a.take b) (history ++ [b]) := by
  by_cases hannotates : b.annotates = true
  · exact build_of_annotates hannotates a history
  rw [Bool.not_eq_true] at hannotates
  have htables : b.tables? = none := by simpa [annotates] using hannotates
  by_cases hparses : b.parses = true
  · rw [take_of_not_annotates hparses hannotates]
    constructor <;>
      simp [lastParsed?_concat, lastAnnotated?_concat, annotated?, folded?, hparses, hannotates,
        htables, h.tables]
  · rw [Bool.not_eq_true] at hparses
    rw [take_of_not_parses hparses]
    constructor <;>
      simp [lastParsed?_concat, lastAnnotated?_concat, hparses, hannotates, h.raw, h.annotated,
        h.folded, h.tables]

theorem reflects_after (history : List BuildCall) : Reflects (after history) history := by
  induction history using List.reverseRecOn with
  | nil => exact .start
  | append_singleton history b ih =>
    rw [after_concat]
    exact ih.build b

end Analysis

/-! ### Diagnostics of a build -/

theorem Diagnostic.exists_mem_ofError (e : CompileError) :
    ∃ x ∈ Diagnostic.ofError e, x.severity = .error := by
  unfold ofError
  dsimp only
  split
  · exact ⟨_, List.mem_map_of_mem List.mem_cons_self, rfl⟩
  · next hne =>
    obtain ⟨range, more, hranges⟩ := List.exists_cons_of_ne_nil (mt List.isEmpty_iff.mpr hne)
    rw [hranges]
    exact ⟨_, List.mem_map_of_mem List.mem_cons_self, rfl⟩

theorem Deprecation.severity_diagnostics {warnings : List String} {lines : List (List Char)} :
    ∀ x ∈ Deprecation.diagnostics warnings lines, x.severity = .warning := by
  intro x hx
  unfold diagnostics at hx
  obtain ⟨_, -, hx⟩ := List.mem_flatMap.mp hx
  obtain ⟨d, -, hx⟩ := List.mem_flatMap.mp hx
  obtain ⟨_, -, rfl⟩ := List.mem_map.mp hx
  rfl

/-- Where nothing goes wrong after parsing, there is a folded tree. -/
theorem Frontend.problem?_builtIn {files : FileSystem} {text : List Char} {search : List Path}
    {c : Compilation} (h : Frontend.builtIn files text search = .ok c) :
    c.problem? = none ↔ ∃ tables, c.annotated = .ok tables ∧ c.foldedTree?.isSome = true := by
  obtain ⟨parsed, -, hc⟩ := exists_of_bind_eq_ok h
  cases hc
  unfold Compilation.problem? Compilation.foldedTree?
  cases hannotated : parsed.tree.annotate text none (.fromFiles files search) with
  | error e => simp
  | ok tables =>
    rw [Except.toOption, Option.bind_some, Module.tree_of_annotate hannotated, Option.map_some]
    generalize Module.fold _ = folded
    cases folded with
    | error e => simp [Except.toOption]
    | ok m => simp [Except.toOption]

namespace Analysis

theorem state_install (a : Analysis) (text : List Char) (c : Compilation) :
    (a.install text c).state = .ready ↔
      ∃ tables, c.annotated = .ok tables ∧ c.foldedTree?.isSome = true := by
  unfold install
  cases c.annotated with
  | error e => simp
  | ok tables => simp [Option.isSome_iff_ne_none]

theorem exists_error_builtIn (a : Analysis) (files : FileSystem) (d : Document)
    (workingDirectory : Option Path) :
    (∃ x ∈ (a.build (.builtIn files) d workingDirectory).2, x.severity = .error) ↔
      (a.build (.builtIn files) d workingDirectory).1.state ≠ .ready := by
  unfold build
  dsimp only
  cases hc : Frontend.builtIn files d.text (d.searchPaths workingDirectory) with
  | error e =>
    simpa using Diagnostic.exists_mem_ofError e
  | ok c =>
    dsimp only
    rw [ne_eq, state_install, ← Frontend.problem?_builtIn hc]
    cases c.problem? with
    | none =>
      refine iff_of_false ?_ (by simp)
      rintro ⟨x, hx, herror⟩
      obtain ⟨y, hy, rfl⟩ := List.mem_map.mp hx
      have hwarning : y.severity = .warning := Deprecation.severity_diagnostics y hy
      change y.severity = .error at herror
      rw [hwarning] at herror
      cases herror
    | some e =>
      obtain ⟨x, hx, herror⟩ := Diagnostic.exists_mem_ofError e
      refine iff_of_true ?_ (by simp)
      exact ⟨_, List.mem_map_of_mem (List.mem_append_left _ hx), herror⟩

/-- What a build with the front end of this library leaves when the document annotates. -/
theorem build_of_annotate {files : FileSystem} {d : Document} {workingDirectory : Option Path}
    {parsed : Parsed} {tables : ModuleType} (hparse : Module.parse d.text = .ok parsed)
    (hannotate : parsed.tree.annotate d.text none
      (.fromFiles files (d.searchPaths workingDirectory)) = .ok tables) (a : Analysis) :
    let built := (a.build (.builtIn files) d workingDirectory).1
    built.unfolded = .ofModule parsed.tree d.text ∧
    built.best = .ofModule { parsed.tree with
      body := parsed.tree.body.map (Annotate.typeDeclaration d.text) } d.text ∧
    built.tables = tables := by
  let call : BuildCall := ⟨.builtIn files, d, workingDirectory⟩
  have hcompilation : call.compilation? = some
      { raw := parsed.tree
        annotated := .ok tables
        folded := tables.tree.map Module.fold
        warnings := parsed.notes.map (·.message) } := by
    change (Frontend.builtIn files d.text (d.searchPaths workingDirectory)).toOption = _
    rw [Frontend.builtIn, hparse]
    change Option.some _ = _
    rw [hannotate]
    rfl
  have hbuilt := take_of_compilation hcompilation a
  change (a.build (.builtIn files) d workingDirectory).1 = _ at hbuilt
  rw [hbuilt, install]
  simp [unfolded, best, bestVariant?, TreeVariant.preference, tree?,
    Module.tree_of_annotate hannotate, call]

/-- A document is ready when it has been read, annotated and folded. -/
theorem state_build_eq_ready {files : FileSystem} {d : Document} {workingDirectory : Option Path}
    {a : Analysis} : (a.build (.builtIn files) d workingDirectory).1.state = .ready ↔
      ∃ parsed tables folded, Module.parse d.text = .ok parsed ∧
        parsed.tree.annotate d.text none (.fromFiles files (d.searchPaths workingDirectory)) =
          .ok tables ∧
        Module.fold { parsed.tree with
          body := parsed.tree.body.map (Annotate.typeDeclaration d.text) } = .ok folded := by
  unfold build Frontend.builtIn
  cases Module.parse d.text with
  | error e => simp [bind, Except.bind]
  | ok parsed =>
    change (a.install d.text _).state = .ready ↔ _
    rw [state_install]
    cases hannotate : parsed.tree.annotate d.text none
      (.fromFiles files (d.searchPaths workingDirectory)) with
    | error e => simp [hannotate]
    | ok tables =>
      have htree := Module.tree_of_annotate hannotate
      simp only [Compilation.foldedTree?, Except.toOption, Option.bind_some, htree, Option.map_some]
      cases hfold : Module.fold _ with
      | error e => simp [hannotate, hfold]
      | ok folded => simp [hannotate, hfold]

/-- An analysis is a function of the builds that made it. A build that does not parse changes the
state alone, and the diagnostics of a build with the front end of this library tell of an error
exactly if the state it leaves is not ready. -/
theorem after_reflects_history (history : List BuildCall) :
    Reflects (after history) history ∧
    (∀ b : BuildCall, b.parses = false →
      after (history ++ [b]) = { after history with state := .failed }) ∧
    ∀ (files : FileSystem) (d : Document) (workingDirectory : Option Path),
      let built := (after history).build (.builtIn files) d workingDirectory
      (∃ x ∈ built.2, x.severity = .error) ↔ built.1.state ≠ .ready := by
  refine ⟨reflects_after history, ?_, exists_error_builtIn (after history)⟩
  intro b hb
  rw [after_concat, take_of_not_parses hb]

def editing (text : String) : BuildCall := ⟨.builtIn .empty, ⟨"file:///a.vy", text.toList⟩, none⟩

/-- A document is ready, then a name is declared twice, then a bracket is left open. -/
def edits : List BuildCall := [editing "a: uint256\n", editing "a: uint256\na: bool\n"]

theorem after_reflects_history_edits :
    (edits ++ [editing "a: (\n"]).map (fun b => (b.parses, b.annotates)) =
      [(true, true), (true, false), (false, false)] ∧
    Reflects (after edits) edits ∧
    after (edits ++ [editing "a: (\n"]) = { after edits with state := .failed } :=
  ⟨by decide +kernel, (after_reflects_history edits).1,
    (after_reflects_history edits).2.1 (editing "a: (\n") (by decide +kernel)⟩

end Analysis

end Vyper
