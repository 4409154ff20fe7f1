import Vyper.Editor.Signature
import Vyper.Proofs.CallTexts
import Vyper.Proofs.ReadyDocuments
import Vyper.Proofs.SelfMembers

/-!
# Signature help and the function table

The label of a signature is written parameter by parameter, and each stretch is taken down while it
is written. `LabelDraft.Written` says what has been written so far, and one more parameter keeps it
(`LabelDraft.Written.add`), so the label is the signature of the function and its stretches show the
parameters (`SignatureHelp.of_function`). In a document that is ready the function that is found by
its name is the one in the table (`Analysis.localFunctionHelp?_build`). A call written `self.f(` is
seen from inside unless the text before it runs on into it (`Analysis.signatureHelp?_self_call`).
-/

namespace Vyper

open LineCursor

/-! ### Labels -/

namespace LabelDraft

variable {name : String} {done : List Member} {draft : LabelDraft}

theorem intercalate_concat (sep : String) {items : List String} (hne : items ≠ []) (item : String) :
    sep.intercalate (items ++ [item]) = sep.intercalate items ++ sep ++ item := by
  induction items with
  | nil => exact absurd rfl hne
  | cons first items ih =>
    cases items with
    | nil => simp [String.intercalate_cons_cons]
    | cons second items =>
      rw [List.cons_append, List.cons_append, String.intercalate_cons_cons, ← List.cons_append,
        ih (List.cons_ne_nil _ _), String.intercalate_cons_cons]
      simp only [String.append_assoc]

/-- A label that has been written up to some parameters. -/
structure Written (name : String) (done : List Member) (draft : LabelDraft) : Prop where
  text : draft.text = name ++ "(" ++ ", ".intercalate (done.map (·.text))
  slices : draft.parameters.map (fun s => slice draft.text.toList s.1 s.2) =
    done.map (·.text.toList)
  within : ∀ s ∈ draft.parameters, s.1 < s.2 ∧ s.2 ≤ draft.text.length
  apart : draft.parameters.Pairwise fun s t => s.2 < t.1

theorem Written.eq_nil_iff (h : Written name done draft) : draft.parameters = [] ↔ done = [] := by
  have hlength := congrArg List.length h.slices
  rw [List.length_map, List.length_map] at hlength
  rw [← List.length_eq_zero_iff, hlength, List.length_eq_zero_iff]

/-- What stands in a label stays there when more is written. -/
theorem Written.slices_append (h : Written name done draft) (more : String) :
    draft.parameters.map (fun s => slice (draft.text ++ more).toList s.1 s.2) =
      done.map (·.text.toList) := by
  rw [← h.slices]
  refine List.map_congr_left fun s hs => ?_
  have hle : s.2 ≤ draft.text.toList.length := by
    rw [String.length_toList]
    exact (h.within s hs).2
  rw [slice, String.toList_append, List.take_append_of_le_length hle]
  rfl

/-- A comma stands between two parameters. -/
theorem Written.exists_separator (h : Written name done draft) (m : Member) :
    ∃ sep, draft.add m = ⟨draft.text ++ sep ++ m.text, draft.parameters ++
        [((draft.text ++ sep).length, (draft.text ++ sep ++ m.text).length)]⟩ ∧
      (draft.parameters ≠ [] → 0 < sep.length) ∧
      ", ".intercalate ((done ++ [m]).map (·.text)) =
        ", ".intercalate (done.map (·.text)) ++ sep ++ m.text := by
  by_cases hempty : draft.parameters = []
  · have hdone := h.eq_nil_iff.mp hempty
    exact ⟨"", by simp [LabelDraft.add, hempty], absurd hempty, by simp [hdone]⟩
  · have hdone : done.map (·.text) ≠ [] := by simpa [h.eq_nil_iff] using hempty
    refine ⟨", ", ?_, fun _ => by decide, ?_⟩
    · have hfalse : draft.parameters.isEmpty = false := by simpa using hempty
      simp [LabelDraft.add, hfalse]
    · rw [List.map_append, List.map_singleton, intercalate_concat _ hdone]

theorem length_text_pos (m : Member) : 0 < m.text.length := by
  have hcolon : ": ".length = 2 := by decide
  simp only [Member.text, toString, String.length_append, hcolon]
  omega

theorem Written.add (h : Written name done draft) (m : Member) :
    Written name (done ++ [m]) (draft.add m) := by
  obtain ⟨sep, hadd, hsep, htext⟩ := h.exists_separator m
  have hpos := length_text_pos m
  rw [hadd]
  constructor
  · rw [htext, h.text]
    simp only [String.append_assoc]
  · have hlast : slice (draft.text ++ sep ++ m.text).toList (draft.text ++ sep).length
        (draft.text ++ sep ++ m.text).length = m.text.toList := by
      rw [slice, ← String.length_toList, ← String.length_toList, List.take_length,
        String.toList_append (s := draft.text ++ sep), List.drop_left]
    rw [List.map_append, List.map_append, List.map_singleton, List.map_singleton, hlast]
    simp only [String.append_assoc]
    rw [h.slices_append]
  · intro s hs
    simp only [String.length_append]
    rcases List.mem_append.mp hs with hs | hs
    · have hwithin := h.within s hs
      omega
    · rw [List.mem_singleton.mp hs]
      simp only [String.length_append]
      omega
  · refine List.pairwise_append.mpr ⟨h.apart, List.pairwise_singleton _ _, fun s hs t ht => ?_⟩
    rw [List.mem_singleton.mp ht]
    have hwithin := h.within s hs
    have hsep := hsep (List.ne_nil_of_mem hs)
    simp only [String.length_append]
    omega

theorem written_of (name : String) (params : List Member) :
    Written name params (.of name params) := by
  suffices hfold : ∀ done draft, Written name done draft →
      Written name (done ++ params) (params.foldl LabelDraft.add draft) from
    hfold [] _ ⟨by simp, rfl, by simp, .nil⟩
  induction params with
  | nil => exact fun done draft h => by rwa [List.append_nil]
  | cons m params ih =>
    intro done draft h
    have hrest := ih (done ++ [m]) (draft.add m) (h.add m)
    rwa [List.append_assoc] at hrest

end LabelDraft

/-- The help on a call of a function: its signature, and where each of its parameters stands in it.
-/
structure SignatureHelp.Describes (help : SignatureHelp) (f : FunctionType) : Prop where
  label : help.label = f.signature
  slices : help.parameters.map (fun s => slice help.label.toList s.1 s.2) =
    f.params.map (·.text.toList)
  increasing : ∀ s ∈ help.parameters, s.1 < s.2 ∧ s.2 ≤ help.label.length
  apart : help.parameters.Pairwise fun s t => s.2 < t.1

theorem SignatureHelp.of_function (f : FunctionType) (documentation : Option String)
    (active : Nat) :
    (SignatureHelp.of f.name f.params f.returns documentation active).Describes f := by
  have hwritten := LabelDraft.written_of f.name f.params
  obtain ⟨rest, hrest⟩ :
    ∃ rest, (SignatureHelp.of f.name f.params f.returns documentation active).label =
      (LabelDraft.of f.name f.params).text ++ rest := by
    unfold SignatureHelp.of
    cases f.returns with
    | none => exact ⟨")", rfl⟩
    | some type => exact ⟨")" ++ " -> " ++ type, by simp only [String.append_assoc]⟩
  constructor
  · unfold SignatureHelp.of FunctionType.signature
    cases f.returns with
    | none => simp [hwritten.text, toString]
    | some type => simp [hwritten.text, toString]
  · rw [hrest]
    exact hwritten.slices_append rest
  · intro s hs
    have hwithin := hwritten.within s hs
    rw [hrest, String.length_append]
    omega
  · exact hwritten.apart

/-! ### The table of functions -/

theorem Module.isIdentifier_function {text : List Char} {parsed : Parsed} {f : FunctionDef}
    (hparse : Module.parse text = .ok parsed) (hf : .function f ∈ parsed.tree.body) :
    isIdentifier f.name = true := by
  obtain ⟨stream, -, hstream, -⟩ := exists_of_parse hparse
  obtain ⟨i, hi⟩ := List.mem_iff_getElem?.mp hf
  have hpart : (Node.module parsed.tree).parts[i]? = some ("body", .function f) := by
    simp [Node.parts_module, hi, Declaration.toNode]
  obtain ⟨span, htoken⟩ := functions_of_parse hparse hstream [i] _ (Node.at?_cons hpart []) f rfl
  exact (TokenStream.spelled_of_mem hstream _ htoken rfl).1

namespace Annotate

/-- The table has a function as it is declared. -/
theorem eq_of_functionType {text : List Char} {g : FunctionDef} {f : FunctionType}
    (h : functionType text g = .ok f) :
    f.name = g.name ∧ f.params = g.params.params.map (fun p => ⟨p.name, p.type.typeText text⟩) ∧
      f.returns = g.returns.map (·.typeText text) ∧ f.doc = g.doc.map trimText := by
  obtain ⟨decoration, -, h⟩ := exists_of_bind_eq_ok h
  cases h
  exact ⟨rfl, rfl, rfl, rfl⟩

theorem Lists.exists_of_mem_functions {importer : Importer} {text : List Char}
    {body : List Declaration} {tables : ModuleType} (h : Lists importer text body tables)
    {f : FunctionType} (hf : f ∈ tables.functions) :
    ∃ g, .function g ∈ body ∧ functionType text g = .ok f := by
  have hmem : Except.ok f ∈ (body.filterMap (·.function?)).map (functionType text) := by
    rw [← h.functions]
    exact List.mem_map_of_mem hf
  obtain ⟨g, hg, htype⟩ := List.mem_map.mp hmem
  obtain ⟨d, hd, hfunction⟩ := List.mem_filterMap.mp hg
  cases d with
  | function g' =>
    cases hfunction
    exact ⟨g, hd, htype⟩
  | _ => cases hfunction

end Annotate

namespace Analysis

variable {files : FileSystem} {d : Document} {workingDirectory : Option Path} {parsed : Parsed}
  {tables : ModuleType}

/-- The help on a function is made of what the table has of it. -/
theorem localFunctionHelp?_build (hparse : Module.parse d.text = .ok parsed)
    (hannotate : parsed.tree.annotate d.text none
      (.fromFiles files (d.searchPaths workingDirectory)) = .ok tables) (a : Analysis)
    {f : FunctionType} (hf : f ∈ tables.functions) (active : Nat) :
    (a.build (.builtIn files) d workingDirectory).1.localFunctionHelp? f.name active =
      some (.of f.name f.params f.returns f.doc active) := by
  have htyped : Module.IsTreeOf _ d.text :=
    ⟨parsed, hparse, .inr ⟨none, _, tables, hannotate, Module.tree_of_annotate hannotate⟩⟩
  obtain ⟨hlists, hclaims, -⟩ := Module.drafted_of_annotate hannotate
  obtain ⟨-, hbest, -⟩ := build_of_annotate hparse hannotate a
  obtain ⟨g, hg, htype⟩ := hlists.exists_of_mem_functions hf
  obtain ⟨hname, hparams, hreturns, hdoc⟩ := Annotate.eq_of_functionType htype
  rw [← htyped.filterMap_body hparse (Declaration.claim?_typeDeclaration d.text)] at hclaims
  have hfound := htyped.functionDeclaration?_site hclaims
    (List.mem_map_of_mem (f := Annotate.typeDeclaration d.text) hg)
  change (Tree.ofModule _ d.text).functionDeclaration? g.name = _ at hfound
  have hsame : (Annotate.typeParams d.text g.params).params.map
      (fun p => (⟨p.name, p.type.typeText d.text⟩ : Member)) = f.params := by
    rw [hparams, Annotate.typeParams, List.map_map]
    rfl
  rw [localFunctionHelp?, hbest, hname, hfound, ← hsame, hreturns, hdoc]
  rfl

end Analysis

/-! ### Calls written on `self` -/

namespace LineCursor

variable {name : String}

theorem Callee.append {callee text : List Char} (hcallee : Callee callee)
    (h : ∀ c ∈ text, isExpressionChar c = true) : Callee (callee ++ text) := by
  induction text generalizing callee with
  | nil => rwa [List.append_nil]
  | cons c cs ih =>
    obtain ⟨hc, hcs⟩ := List.forall_mem_cons.mp h
    rw [← List.singleton_append, ← List.append_assoc]
    exact ih (hcallee.char hc) hcs

section Self

variable (hname : isIdentifier name = true)
include hname

theorem isExpressionChar_self : ∀ c ∈ ("self." ++ name).toList, isExpressionChar c = true := by
  rw [String.toList_append]
  refine List.forall_mem_append.mpr ⟨by simp; decide, fun c hc => ?_⟩
  rw [isExpressionChar, Lexeme.isWordChar_of_isIdentifier hname c hc]
  rfl

/-- What is called in `self.name` is the member `name` of `self`. -/
theorem parseCall_self :
    parseCall ("self." ++ name).toList = some ("self".toList, name.toList) := by
  have hword : isWord name.toList = true := by
    obtain ⟨first, others, hchars, -⟩ := Lexeme.eq_cons_of_isIdentifier hname
    rw [isWord, List.all_eq_true.mpr (Lexeme.isWordChar_of_isIdentifier hname), hchars]
    rfl
  rw [String.toList_append]
  exact @parseCall_member "self".toList _ (by decide) (by decide) hword

theorem callee_self : Callee ("self." ++ name).toList :=
  Callee.nil.append (isExpressionChar_self hname)

end Self

end LineCursor

/-- A cursor behind text that stays on its line sees that text behind what its line had before. -/
theorem Document.cursor?_behind {d : Document} {before mid after : List Char}
    (htext : d.text = before ++ mid ++ after) (hne : mid ≠ [])
    (hmid : ∀ c ∈ mid, Lines.isBreak c = false) :
    d.offset (d.positionAt (before ++ mid).length) = .ok (before ++ mid).length ∧
      ∃ row, d.cursor? (d.positionAt (before ++ mid).length) =
          some (row, (Lines.current Lines.isBreak before ++ mid).length) ∧
        row.take (Lines.current Lines.isBreak before ++ mid).length =
          Lines.current Lines.isBreak before ++ mid := by
  obtain ⟨rest, more, hrest⟩ := List.exists_cons_of_ne_nil (Lines.split_ne_nil Lines.isBreak after)
  obtain ⟨hoffset, hcursor⟩ := cursor?_word htext hne hmid hrest le_rfl
  rw [← List.length_append] at hoffset hcursor
  rw [← List.length_append] at hcursor
  exact ⟨hoffset, _, hcursor, List.take_left⟩

namespace Analysis

/-- In a call of a member of `self`, help is on the function of that name. -/
theorem signatureHelp?_self {a : Analysis} {d : Document} {p : Position} {row callee : List Char}
    {index active : Nat} {name : String} (hcursor : d.cursor? p = some (row, index))
    (hcontext : callContext row index = some ⟨callee, active⟩) (hword : isWord callee = false)
    (hcall : parseCall callee = some ("self".toList, name.toList)) :
    a.signatureHelp? d p = a.localFunctionHelp? name active := by
  have hself : String.ofList "self".toList = "self" := String.ofList_toList
  simp only [signatureHelp?, hcursor, hcontext, hword, hcall, Option.bind_eq_bind,
    Option.bind_some, hself, String.ofList_toList, if_true]
  rfl

/-- In a document that is ready, a cursor behind a call written `self.f(`, with no parenthesis
between that is left open, is given the signature of the function and the stretches of its
parameters. The text before `self` must not run on into the callee, as it does behind an opening
bracket. -/
theorem signatureHelp?_self_call {a : Analysis} {files : FileSystem} {d : Document}
    {workingDirectory : Option Path} :
    let built := (a.build (.builtIn files) d workingDirectory).1
    built.state = .ready →
    ∀ f ∈ built.tables.functions, ∀ before blank args after,
      d.text = before ++ (("self." ++ f.name).toList ++ blank ++ '(' :: args) ++ after →
      Detached before → (∀ c ∈ blank, c = ' ') → Matched args →
        (∀ c ∈ args, Lines.isBreak c = false) →
      let offset := (before ++ (("self." ++ f.name).toList ++ blank ++ '(' :: args)).length
      d.offset (d.positionAt offset) = .ok offset ∧
      ∃ help, built.signatureHelp? d (d.positionAt offset) = some help ∧ help.Describes f ∧
        help.documentation = f.doc ∧ help.activeParameter = countCommas 0 args := by
  intro built hready f hf before blank args after htext hbefore hblank hargs hbreaks offset
  obtain ⟨parsed, tables, folded, hparse, hannotate, -⟩ := state_build_eq_ready.mp hready
  obtain ⟨hlists, -, -⟩ := Module.drafted_of_annotate hannotate
  obtain ⟨-, -, htables⟩ := build_of_annotate hparse hannotate a
  rw [show built.tables = tables from htables] at hf
  obtain ⟨g, hg, htype⟩ := hlists.exists_of_mem_functions hf
  have hname : isIdentifier f.name = true := by
    rw [(Annotate.eq_of_functionType htype).1]
    exact Module.isIdentifier_function hparse hg
  have hclean : ∀ c ∈ ("self." ++ f.name).toList ++ blank ++ '(' :: args,
      Lines.isBreak c = false := by
    rw [String.toList_append]
    refine List.forall_mem_append.mpr ⟨List.forall_mem_append.mpr
      ⟨List.forall_mem_append.mpr ⟨?_, ?_⟩, ?_⟩, List.forall_mem_cons.mpr ⟨by decide, hbreaks⟩⟩
    · simp [Lines.isBreak]
    · exact fun c hc => Lines.isBreak_of_isWordPart (Lexeme.isWordPart_of_isIdentifier hname c hc)
    · intro c hc
      rw [hblank c hc]
      decide
  obtain ⟨hoffset, row, hcursor, htake⟩ := Document.cursor?_behind htext (by simp) hclean
  have hdetached : Detached (Lines.current Lines.isBreak before) := fun c hc =>
    hbefore c (Lines.mem_getLast?_of_current hc)
  have hcontext := callContext_append (by rw [htake]; simp only [List.append_assoc]) hdetached
    (callee_self hname) (by simp) hblank hargs
  have hword : isWord ("self." ++ f.name).toList = false := by
    rw [isWord, Bool.and_eq_false_iff, List.all_eq_false]
    exact .inr ⟨'.', by simp, by decide⟩
  refine ⟨hoffset, .of f.name f.params f.returns f.doc (countCommas 0 args), ?_,
    SignatureHelp.of_function f _ _, rfl, rfl⟩
  rw [← localFunctionHelp?_build hparse hannotate a hf]
  exact signatureHelp?_self hcursor hcontext hword (parseCall_self hname)

/-- A function whose call is an argument of its own call, which stands in a subscript. -/
def indexing : Document :=
  .ofLines ["def g(): pass", "def f(x: bool, y: bool): self.g()[self.f(self.f(x, y), y)]"]

def indexed : FunctionType :=
  { name := "g", visibility := .internal, mutability := .nonpayable, params := [],
    returns := none, doc := none }

def indexer : FunctionType :=
  { name := "f", visibility := .internal, mutability := .nonpayable,
    params := [⟨"x", "bool"⟩, ⟨"y", "bool"⟩], returns := none, doc := none }

theorem ready_indexing :
    (({} : Analysis).build (.builtIn .empty) indexing none).1.state = .ready := by
  have hcompiles :
      Module.compiles indexing.text (.fromFiles .empty (indexing.searchPaths none)) 9 = true := by
    decide +kernel
  exact ready_of_compiles hcompiles

theorem exists_annotate_indexing :
    ∃ parsed tables, Module.parse indexing.text = .ok parsed ∧
      parsed.tree.annotate indexing.text none (.fromFiles .empty (indexing.searchPaths none)) =
        .ok tables ∧
      tables.functions = [indexed, indexer] := by
  obtain ⟨parsed, tables, folded, hparse, hannotate, -⟩ := state_build_eq_ready.mp ready_indexing
  obtain ⟨hlists, -, -⟩ := Module.drafted_of_annotate hannotate
  have htypes : (Module.parse indexing.text).toOption.map (fun parsed =>
      (parsed.tree.body.filterMap (·.function?)).map fun g =>
        (Annotate.functionType indexing.text g).toOption) = some [some indexed, some indexer] := by
    decide +kernel
  rw [hparse] at htypes
  have hsame := congrArg (List.map Except.toOption) hlists.functions
  rw [List.map_map, List.map_map] at hsame
  have hfunctions : tables.functions.map some = [some indexed, some indexer] :=
    hsame.trans (Option.some.inj htypes)
  refine ⟨parsed, tables, hparse, hannotate, ?_⟩
  exact List.map_injective_iff.mpr (fun _ _ => Option.some.inj) hfunctions

theorem indexer_mem :
    indexer ∈ (({} : Analysis).build (.builtIn .empty) indexing none).1.tables.functions := by
  obtain ⟨parsed, tables, hparse, hannotate, hfunctions⟩ := exists_annotate_indexing
  obtain ⟨-, -, htables⟩ := build_of_annotate hparse hannotate {}
  rw [htables, hfunctions]
  simp

/-- Inside the inner call the cursor is given the function that is called. -/
theorem signatureHelp?_self_call_inner :
    let built := (({} : Analysis).build (.builtIn .empty) indexing none).1
    built.state = .ready ∧ indexer ∈ built.tables.functions ∧
    ∃ help, built.signatureHelp? indexing ⟨1, 51⟩ = some help ∧ help.Describes indexer ∧
      help.documentation = none ∧ help.activeParameter = 1 := by
  intro built
  obtain ⟨-, help, hhelp, hdescribes, hdoc, hactive⟩ :=
    signatureHelp?_self_call ready_indexing indexer indexer_mem
      ((Document.ofLines ["def g(): pass"]).text ++
        "def f(x: bool, y: bool): self.g()[self.f(".toList) []
      "x, ".toList "y), y)]\n".toList (by decide +kernel) (by decide) (by simp) (by decide)
      (by simp [Lines.isBreak])
  rw [show indexing.positionAt _ = ⟨1, 51⟩ by decide +kernel] at hhelp
  exact ⟨ready_indexing, indexer_mem, help, hhelp, hdescribes, hdoc, hactive.trans (by decide)⟩

/-- Behind the bracket of a subscript the callee begins, for the cursor, where the subscript does:
in the arguments of one function it is given the signature of another. -/
theorem signatureHelp?_subscript :
    let built := (({} : Analysis).build (.builtIn .empty) indexing none).1
    built.state = .ready ∧ indexer ∈ built.tables.functions ∧
    indexing.cursor? ⟨1, 55⟩ =
      some ("def f(x: bool, y: bool): self.g()[self.f(self.f(x, y), y)]".toList, 55) ∧
    ∃ help, built.signatureHelp? indexing ⟨1, 55⟩ = some help ∧ help.label = "g()" ∧
      indexer.signature = "f(x: bool, y: bool)" := by
  intro built
  obtain ⟨parsed, tables, hparse, hannotate, hfunctions⟩ := exists_annotate_indexing
  have hcursor : indexing.cursor? ⟨1, 55⟩ =
      some ("def f(x: bool, y: bool): self.g()[self.f(self.f(x, y), y)]".toList,
        55) := by decide +kernel
  have hcallee : Callee ("self.g".toList ++ "()".toList ++ "[self.f".toList) :=
    ((@Callee.append _ "self.g".toList .nil (by simp; decide)).call .nil).append (by simp; decide)
  have hcontext : callContext "def f(x: bool, y: bool): self.g()[self.f(self.f(x, y), y)]".toList
      55 = some ⟨"self.g()[self.f".toList, 1⟩ :=
    @callContext_append _ _ "def f(x: bool, y: bool): ".toList _ [] "self.f(x, y), ".toList
      (by decide) (by decide) hcallee (by simp) (by simp) (by decide)
  have hcall : parseCall "self.g()[self.f".toList = some ("self".toList, "g".toList) := by decide
  have hmem : indexed ∈ tables.functions := by
    rw [hfunctions]
    simp
  have hhelp := localFunctionHelp?_build hparse hannotate {} hmem 1
  have hword : isWord "self.g()[self.f".toList = false := by decide
  refine ⟨ready_indexing, indexer_mem, hcursor,
    .of indexed.name indexed.params indexed.returns indexed.doc 1, ?_, by decide, by decide⟩
  rw [← hhelp]
  exact signatureHelp?_self hcursor hcontext hword hcall

end Analysis

end Vyper
