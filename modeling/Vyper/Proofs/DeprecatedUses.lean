import Vyper.Proofs.CursorWords
import Vyper.Proofs.DiagnosticRanges
import Vyper.Proofs.RangedEdits
import Vyper.Proofs.Searching
import Vyper.Proofs.WordBoundaries

/-!
# Warnings about deprecated uses

The parser notes an outdated spelling once, the note becomes a sentence, the sentence is read back,
and every line is searched for the spelling. Nothing gets lost on the way
(`Deprecation.ofMessage?_message`, `Search.mem_occurrences_iff`): a warning is shown at every use
that was noted, and a warning is shown only where the spelling is
(`Analysis.deprecated_uses_reported`).
-/

namespace Vyper

/-! ### What is noted -/

/-- The word a flag starts with. -/
def MemberDef.StartsWith (d : MemberDef) (tokens : List Token) (word : String) : Prop :=
  ∃ span, ⟨.name word, span⟩ ∈ tokens ∧ span.start = d.span.start

/-- A call by an old name and a flag under its old word are among the notes. -/
def Node.Noted (tokens : List Token) (notes : List Deprecation) : Node → Prop
  | .expr (.call _ (.name _ id) _ _) => ∀ d ∈ Deprecation.functions, d.old = id → d ∈ notes
  | .members d => d.kind = .flag →
    d.StartsWith tokens "flag" ∨ d.StartsWith tokens "enum" ∧ .enum ∈ notes
  | _ => True

theorem Grammar.Formed.noted {tokens : List Token} {notes : List Deprecation} {n : Node}
    (h : Formed tokens notes n) : n.Noted tokens notes := by
  obtain ⟨items, x, lo, hi, hrule, hx, hof, hstand, -⟩ := h
  have hcovers := hrule.covers hx
  cases hrule with
  | @call k func =>
    cases hx
    have hread := ((hof _ List.mem_cons_self).read rfl _ List.mem_cons_self).self
    cases func with
    | name => exact hread.2
    | _ => trivial
  | @members kind w name row body last a b c hopens =>
    cases hx
    have hstarts : (⟨kind, a.cover last.span, name, body⟩ : MemberDef).StartsWith tokens w :=
      ⟨a, (hof _ List.mem_cons_self).token _ rfl, (hstand.start_eq (hcovers rfl)).symm⟩
    intro hflag
    cases hopens with
    | flag => exact .inl hstarts
    | enum hnoted => exact .inr ⟨hstarts, hnoted⟩
    | _ => cases hflag
  | _ => cases hx; trivial

/-- Every call by an old name and every flag under its old word is among the notes of a module, and
nothing but old names and the old word is. -/
theorem Module.noted_of_parse {text : List Char} {stream : TokenStream} {parsed : Parsed}
    (hparse : Module.parse text = .ok parsed) (hstream : TokenStream.ofText text = .ok stream) :
    (Node.module parsed.tree).Throughout (Node.Noted stream.tokens parsed.notes) ∧
      parsed.notes ⊆ Deprecation.known := by
  obtain ⟨-, -, -, -, -, hknown, -⟩ := derives_of_parse hparse hstream
  exact ⟨throughout_of_parse hparse hstream trivial fun _ => Grammar.Formed.noted, hknown⟩

/-! ### Notes as sentences -/

namespace Deprecation

variable {d : Deprecation}

/-- An outdated spelling that is a word, and whose occurrences do not overlap. -/
structure Plain (d : Deprecation) : Prop where
  word : isIdentifier d.old = true
  unbordered : Search.Unbordered d.old.toList
  new_ne : d.new ≠ ""

theorem plain_of_known : ∀ d ∈ known, d.Plain := by
  intro d hd
  have hall : ∀ d ∈ known, isIdentifier d.old = true ∧ Search.Unbordered d.old.toList ∧
      d.new ≠ "" := by
    decide
  obtain ⟨hword, hunbordered, hnew⟩ := hall d hd
  exact ⟨hword, hunbordered, hnew⟩

theorem Plain.ne_nil (h : d.Plain) : d.old.toList ≠ [] := by
  obtain ⟨first, others, hchars, -⟩ := Lexeme.eq_cons_of_isIdentifier h.word
  rw [hchars]
  exact List.cons_ne_nil first others

/-- The sentence of a note says which note it is. -/
theorem ofMessage?_message (h : d.Plain) : ofMessage? d.message = some d := by
  have hspace : ' ' ∉ d.old.toList := fun hmem =>
    absurd (Lexeme.isWordPart_of_isIdentifier h.word _ hmem) (by decide)
  have hmessage : d.message.toList = (d.old.toList ++
      (" will be deprecated in a future release, use ".toList ++ d.new.toList)) ++
        " instead.".toList := by
    change (d.old ++ " will be deprecated in a future release, use " ++ d.new ++
      " instead.").toList = _
    rw [String.toList_append, String.toList_append, String.toList_append,
      List.append_assoc d.old.toList]
  have hcut : Search.splitOnce " will be deprecated in a future release, use ".toList
      (d.old.toList ++ (" will be deprecated in a future release, use ".toList ++ d.new.toList)) =
      some (d.old.toList, d.new.toList) :=
    Search.splitOnce_of_not_mem rfl hspace
  have hold : d.old.toList.isEmpty = false := List.isEmpty_eq_false_iff.mpr h.ne_nil
  have hnew : d.new.toList.isEmpty = false :=
    List.isEmpty_eq_false_iff.mpr (mt String.toList_eq_nil_iff.mp h.new_ne)
  rw [ofMessage?, hmessage, Search.dropEnd?_append, Option.bind_eq_bind, Option.bind_some, hcut]
  change (if (d.old.toList.isEmpty || d.new.toList.isEmpty) = true then none
    else some (⟨String.ofList d.old.toList, String.ofList d.new.toList⟩ : Deprecation)) = _
  rw [hold, hnew, String.ofList_toList, String.ofList_toList]
  rfl

/-- The warning at an index of a line. -/
def warning (d : Deprecation) (n k : Nat) : Diagnostic where
  range := ⟨⟨n, k⟩, ⟨n, k + d.old.length⟩⟩
  severity := .warning
  message := s!"{d.old} is deprecated. Please use {d.new} instead."

/-- Every occurrence of an outdated spelling on a line has a warning. -/
theorem mem_inLine (h : d.Plain) {n : Nat} {line : List Char} {x : Diagnostic} :
    x ∈ d.inLine n line ↔ ∃ k, d.old.toList <+: line.drop k ∧ x = d.warning n k := by
  change x ∈ (Search.occurrences d.old.toList line).map (d.warning n) ↔ _
  simp only [List.mem_map, Search.mem_occurrences_iff h.ne_nil h.unbordered, eq_comm]

/-- The warnings for a text are those for its lines. -/
theorem mem_diagnostics {warnings : List String} {d : Document} {x : Diagnostic} :
    x ∈ diagnostics warnings d.lines ↔
      ∃ n line, d.line? n = some line ∧ ∃ dep ∈ warnings.filterMap ofMessage?,
        x ∈ dep.inLine n line := by
  have hline : ∀ {n : Nat} {line : List Char}, (line, n) ∈ d.lines.zipIdx ↔
      d.line? n = some line := by
    intro n line
    rw [List.mk_mem_zipIdx_iff_getElem?, Document.lines, List.getElem?_map]
    rfl
  simp only [diagnostics, List.mem_flatMap, Prod.exists, hline]
  rw [exists_comm]

end Deprecation

/-! ### Words on lines -/

namespace Document

variable {d : Document} {n k : Nat} {line word before after : List Char}

theorem offset_of_cursor {p : Position} {index : Nat} (h : d.cursor? p = some (line, index)) :
    d.offset p = .ok (Lines.start d.text p.line + index) := by
  obtain ⟨_, hline, -⟩ := Option.map_eq_some_iff.mp h
  rw [offset, if_neg (Nat.ne_of_lt (lt_lineCount_of_line hline)), h]

/-- A word of a line is where the line counts it. -/
theorem exists_before_of_line (hline : d.line? n = some line) (hk : k ≤ line.length)
    (hword : word <+: line.drop k) :
    ∃ before, before.length = Lines.start d.text n + k ∧ before ++ word <+: d.text := by
  obtain ⟨above, _, below, htext, hstart, hline', -⟩ := exists_line_cut (lt_lineCount_of_line hline)
  obtain rfl := Option.some.inj (hline.symm.trans hline')
  obtain ⟨right, hright⟩ := hword
  refine ⟨above ++ line.take k, ?_, right ++ below, ?_⟩
  · rw [List.length_append, List.length_take_of_le hk, hstart]
  · conv_rhs => rw [htext, ← List.take_append_drop k line, ← hright]
    simp only [List.append_assoc]

/-- A word of a text is on one of its lines. -/
theorem exists_line_of_word (htext : d.text = before ++ word ++ after) (hne : word ≠ [])
    (hclean : ∀ c ∈ word, Lines.isBreak c = false) :
    ∃ n line k, d.line? n = some line ∧ word <+: line.drop k ∧
      Lines.start d.text n + k = before.length := by
  obtain ⟨rest, more, hafter⟩ := List.exists_cons_of_ne_nil (Lines.split_ne_nil Lines.isBreak after)
  obtain ⟨hoffset, hcursor⟩ := cursor?_word htext hne hclean hafter (Nat.zero_le word.length)
  obtain ⟨line, hline, heq⟩ := Option.map_eq_some_iff.mp hcursor
  obtain rfl : line = _ := congrArg Prod.fst heq
  rw [offset_of_cursor hcursor] at hoffset
  refine ⟨_, _, _, hline, ?_, Except.ok.inj hoffset⟩
  rw [List.append_assoc, Nat.add_zero, List.drop_left]
  exact List.prefix_append word _

/-! ### Warnings about words -/

/-- A warning about an outdated spelling that stands behind `before` in the text: its range is the
place of the spelling, and as wide as the spelling is in UTF-16 units. -/
structure Warns (d : Document) (x : Diagnostic) (dep : Deprecation) (before : List Char) :
    Prop where
  severity : x.severity = .warning
  message : x.message = s!"{dep.old} is deprecated. Please use {dep.new} instead."
  occurs : before ++ dep.old.toList <+: d.text
  start : d.offset x.range.start = .ok before.length
  stop : d.offset x.range.stop = .ok (before ++ dep.old.toList).length
  width : x.range.stop = ⟨x.range.start.line, x.range.start.character + Utf16.length dep.old.toList⟩

/-- A diagnostic as it is shown, with its columns in UTF-16 units. -/
def shown (d : Document) (x : Diagnostic) : Diagnostic := { x with range := d.utf16Range x.range }

/-- The warning at a word of a line is about the word of the text. -/
theorem warns_of_line {dep : Deprecation} (hne : dep.old.toList ≠ [])
    (hline : d.line? n = some line) (hword : dep.old.toList <+: line.drop k) :
    ∃ before, before.length = Lines.start d.text n + k ∧
      d.Warns (d.shown (dep.warning n k)) dep before := by
  obtain ⟨right, hright⟩ := hword
  have hk : k ≤ line.length := by
    by_contra hlt
    rw [List.drop_eq_nil_of_le (by omega)] at hright
    exact hne (List.append_eq_nil_iff.mp hright).1
  obtain ⟨before, hlength, hbefore⟩ := exists_before_of_line hline hk ⟨right, hright⟩
  have hstop : k + dep.old.toList.length ≤ line.length := by
    have hrest := congrArg List.length hright
    rw [List.length_append, List.length_drop] at hrest
    omega
  have hlast : Utf16.ofCharIndex line (k + dep.old.toList.length) =
      Utf16.ofCharIndex line k + Utf16.length dep.old.toList := by
    rw [Utf16.ofCharIndex, List.take_add, ← hright, List.take_left, Utf16.length_append,
      Utf16.ofCharIndex]
  refine ⟨before, hlength, rfl, rfl, hbefore, ?_, ?_, ?_⟩
  · change d.offset (d.utf16Position ⟨n, k⟩) = _
    rw [offset_of_cursor (cursor?_utf16Position hline hk), line_utf16Position, hlength]
  · change d.offset (d.utf16Position ⟨n, k + dep.old.length⟩) = _
    rw [← String.length_toList, offset_of_cursor (cursor?_utf16Position hline hstop),
      line_utf16Position, List.length_append, hlength, Nat.add_assoc]
  · change d.utf16Position ⟨n, k + dep.old.length⟩ = ⟨(d.utf16Position ⟨n, k⟩).line,
      (d.utf16Position ⟨n, k⟩).character + Utf16.length dep.old.toList⟩
    have hfirst : d.utf16Position ⟨n, k⟩ = ⟨n, Utf16.ofCharIndex line k⟩ :=
      utf16Position_of_line hline
    rw [hfirst, ← hlast, String.length_toList]
    exact utf16Position_of_line hline

/-- Every occurrence of an outdated spelling has a warning of its own. -/
theorem exists_warns {dep : Deprecation} (hdep : dep.Plain) {notes : List Deprecation}
    (hnote : dep ∈ notes) (htext : d.text = before ++ dep.old.toList ++ after) :
    ∃ x ∈ Deprecation.diagnostics (notes.map (·.message)) d.lines,
      d.Warns (d.shown x) dep before := by
  have hclean : ∀ c ∈ dep.old.toList, Lines.isBreak c = false := fun c hc =>
    Lines.isBreak_of_isWordPart (Lexeme.isWordPart_of_isIdentifier hdep.word c hc)
  obtain ⟨n, line, k, hline, hword, hlength⟩ := exists_line_of_word htext hdep.ne_nil hclean
  have hmem : dep ∈ (notes.map (·.message)).filterMap Deprecation.ofMessage? :=
    List.mem_filterMap.mpr ⟨dep.message, List.mem_map_of_mem hnote,
      Deprecation.ofMessage?_message hdep⟩
  have hfound : dep.warning n k ∈ Deprecation.diagnostics (notes.map (·.message)) d.lines :=
    Deprecation.mem_diagnostics.mpr
      ⟨n, line, hline, dep, hmem, (Deprecation.mem_inLine hdep).mpr ⟨k, hword, rfl⟩⟩
  obtain ⟨before', hlength', hwarns⟩ := warns_of_line hdep.ne_nil hline hword
  -- Both are the front of the text that is as long.
  have hbefore : before' = before := by
    have hfront : before <+: d.text := ⟨dep.old.toList ++ after, by rw [htext, List.append_assoc]⟩
    have hfront' : before' <+: d.text := (List.prefix_append _ _).trans hwarns.occurs
    exact (List.prefix_of_prefix_length_le hfront' hfront (by omega)).eq_of_length (by omega)
  exact ⟨_, hfound, hbefore ▸ hwarns⟩

/-- Every warning is about an occurrence of an outdated spelling. -/
theorem warns_of_mem {notes : List Deprecation} (hnotes : notes ⊆ Deprecation.known)
    {x : Diagnostic} (hx : x ∈ Deprecation.diagnostics (notes.map (·.message)) d.lines) :
    ∃ dep ∈ Deprecation.known, ∃ before, d.Warns (d.shown x) dep before := by
  obtain ⟨n, line, hline, dep, hdep, hx⟩ := Deprecation.mem_diagnostics.mp hx
  obtain ⟨message, hmessage, hread⟩ := List.mem_filterMap.mp hdep
  obtain ⟨note, hnote, rfl⟩ := List.mem_map.mp hmessage
  have hknown := hnotes hnote
  have hplain := Deprecation.plain_of_known note hknown
  rw [Deprecation.ofMessage?_message hplain] at hread
  obtain rfl : note = dep := Option.some.inj hread
  obtain ⟨k, hword, rfl⟩ := (Deprecation.mem_inLine hplain).mp hx
  obtain ⟨before, -, hwarns⟩ := warns_of_line hplain.ne_nil hline hword
  exact ⟨note, hknown, before, hwarns⟩

end Document

/-! ### Warnings of a build -/

namespace Node

variable {n : Node} {place : Span} {id : String}

/-- The name that a call is to, and its place. -/
def callee? : Node → Option (Span × String)
  | .expr (.call _ (.name place id) _ _) => some (place, id)
  | _ => none

theorem eq_of_callee? (h : n.callee? = some (place, id)) :
    ∃ span args keywords, n = .expr (.call span (.name place id) args keywords) := by
  unfold callee? at h
  split at h
  · cases h
    exact ⟨_, _, _, rfl⟩
  · cases h

theorem eq_of_kind_flag (h : n.kind = .flag) : ∃ m, n = .members m ∧ m.kind = .flag := by
  cases n with
  | members m =>
    obtain ⟨kind, span, name, body⟩ := m
    cases kind with
    | flag => exact ⟨_, rfl, rfl⟩
    | _ => cases h
  | clause c =>
    obtain ⟨kind, span, subject⟩ := c
    cases kind <;> cases h
  | stmt s => cases s <;> cases h
  | expr e =>
    cases e with
    | numeral span form text => cases form <;> cases h
    | _ => cases h
  | _ => cases h

end Node

namespace Analysis

theorem diagnostics_build {d : Document} {parsed : Parsed}
    (hparse : Module.parse d.text = .ok parsed) (a : Analysis) (files : FileSystem)
    (workingDirectory : Option Path) :
    ∃ errors, (∀ x ∈ errors, x.severity = .error) ∧
      (a.build (.builtIn files) d workingDirectory).2 =
        (errors ++ Deprecation.diagnostics (parsed.notes.map (·.message)) d.lines).map d.shown := by
  obtain ⟨c, hc, hwarnings⟩ :
    ∃ c, Frontend.builtIn files d.text (d.searchPaths workingDirectory) = .ok c ∧
      c.warnings = parsed.notes.map (·.message) := by
    rw [Frontend.builtIn, hparse]
    exact ⟨_, rfl, rfl⟩
  refine ⟨(c.problem?.map Diagnostic.ofError).getD [], fun x hx => ?_, ?_⟩
  · cases hproblem : c.problem? with
    | none =>
      rw [hproblem] at hx
      cases hx
    | some e =>
      rw [hproblem] at hx
      obtain ⟨range, -, rfl⟩ := List.mem_map.mp hx
      rfl
  · rw [build, hc, ← hwarnings]
    rfl

/-- In a text that parses, every call by an old name and every flag under its old word has a warning
at that very word. Every warning is at an occurrence of the spelling that it is about. -/
theorem deprecated_uses_reported {d : Document} {parsed : Parsed}
    (hparse : Module.parse d.text = .ok parsed) (a : Analysis) (files : FileSystem)
    (workingDirectory : Option Path) :
    let found := (a.build (.builtIn files) d workingDirectory).2
    (∀ path n, (Node.module parsed.tree).at? path = some n →
      (∀ dep ∈ Deprecation.functions, ∀ place, n.callee? = some (place, dep.old) → ∃ before,
        place = ⟨Pos.origin.advance before, Pos.origin.advance (before ++ dep.old.toList)⟩ ∧
        ∃ x ∈ found, d.Warns x dep before) ∧
      (n.kind = .flag → ∃ before, n.span.start = Pos.origin.advance before ∧
        (before ++ "flag".toList <+: d.text ∨ ∃ x ∈ found, d.Warns x .enum before))) ∧
    ∀ x ∈ found, x.severity = .warning →
      ∃ dep ∈ Deprecation.known, ∃ before, d.Warns x dep before := by
  intro found
  obtain ⟨errors, herrors, hfound⟩ := diagnostics_build hparse a files workingDirectory
  change found = _ at hfound
  have htree : parsed.tree.IsTreeOf d.text := ⟨parsed, hparse, .inl rfl⟩
  obtain ⟨stream, hstream⟩ := htree.exists_stream
  obtain ⟨hnoted, hknown⟩ := Module.noted_of_parse hparse hstream
  -- A word that is noted has a warning wherever it stands.
  have hwarns : ∀ {dep : Deprecation} {before after : List Char}, dep ∈ parsed.notes →
      d.text = before ++ dep.old.toList ++ after → ∃ x ∈ found, d.Warns x dep before := by
    intro dep before after hdep htext
    obtain ⟨x, hx, hwarns⟩ := Document.exists_warns (Deprecation.plain_of_known dep (hknown hdep))
      hdep htext
    rw [hfound]
    exact ⟨_, List.mem_map_of_mem (List.mem_append_right errors hx), hwarns⟩
  refine ⟨fun path n hc => ⟨fun dep hdep place hcallee => ?_, fun hflag => ?_⟩, ?_⟩
  · obtain ⟨span, args, keywords, rfl⟩ := Node.eq_of_callee? hcallee
    have hname : (Node.module parsed.tree).at? (path ++ [0]) = some (.expr (.name place dep.old)) :=
      Node.at?_append hc [0]
    have htoken := ((htree.mem_tokens hstream).at? hname).placed.token _ rfl
    obtain ⟨before, after, htext, hplace, -⟩ := TokenStream.exists_name hstream htoken
    exact ⟨before, hplace, hwarns (hnoted path _ hc dep hdep rfl) htext⟩
  · obtain ⟨m, rfl, hkind⟩ := Node.eq_of_kind_flag hflag
    rcases hnoted path _ hc hkind with ⟨place, htoken, hstart⟩ | ⟨⟨place, htoken, hstart⟩, hnote⟩
    all_goals obtain ⟨before, after, htext, rfl, -⟩ := TokenStream.exists_name hstream htoken
    · exact ⟨before, hstart.symm, .inl ⟨after, htext.symm⟩⟩
    · exact ⟨before, hstart.symm, .inr (hwarns hnote htext)⟩
  · intro x hx hseverity
    rw [hfound] at hx
    obtain ⟨y, hy, rfl⟩ := List.mem_map.mp hx
    rcases List.mem_append.mp hy with hy | hy
    · rw [show (d.shown y).severity = y.severity from rfl, herrors y hy] at hseverity
      cases hseverity
    · exact Document.warns_of_mem hknown hy

/-- A flag under its old word, and a call behind a character of two units: its range begins at
column 18, where its place counts 17 characters. The name that is declared twice does not keep the
warnings back. -/
theorem deprecated_uses_reported_pair :
    let d := Document.ofLines ["enum A:", " a", "A: bool = f('😀', _abi_encode(1))"]
    let found := (({} : Analysis).build (.builtIn .empty) d none).2
    (found.filter (·.severity == .warning)).map (·.range) = [⟨⟨0, 0⟩, ⟨0, 4⟩⟩, ⟨⟨2, 18⟩, ⟨2, 29⟩⟩] ∧
      (∃ x ∈ found, ∃ before, d.Warns x .enum before) ∧
      ∃ x ∈ found, ∃ before, Pos.origin.advance before = ⟨3, 17⟩ ∧
        d.Warns x ⟨"_abi_encode", "abi_encode"⟩ before := by
  intro d found
  have hnodes : ((Module.parse d.text).toOption.bind fun parsed =>
      ((Node.module parsed.tree).at? [0]).bind fun flag =>
        ((Node.module parsed.tree).at? [1, 2, 2]).map fun call => (flag.kind, call.callee?)) =
      some (.flag, some (⟨⟨3, 17⟩, ⟨3, 28⟩⟩, "_abi_encode")) := by
    decide +kernel
  obtain ⟨parsed, hparse, hnodes⟩ := Option.bind_eq_some_iff.mp hnodes
  obtain ⟨flag, hflag, hnodes⟩ := Option.bind_eq_some_iff.mp hnodes
  obtain ⟨call, hcall, hnodes⟩ := Option.map_eq_some_iff.mp hnodes
  obtain ⟨hkind, hcallee⟩ := Prod.mk.inj hnodes
  obtain ⟨hreported, -⟩ := deprecated_uses_reported (eq_ok_of_toOption hparse) {} .empty none
  refine ⟨by decide +kernel, ?_, ?_⟩
  · obtain ⟨before, -, hword | ⟨x, hx, hwarns⟩⟩ := (hreported _ _ hflag).2 hkind
    · have hmem : 'g' ∈ d.text := hword.subset (List.mem_append_right before (by decide))
      exact absurd hmem (by decide +kernel)
    · exact ⟨x, hx, before, hwarns⟩
  · obtain ⟨before, hplace, x, hx, hwarns⟩ :=
      (hreported _ _ hcall).1 ⟨"_abi_encode", "abi_encode"⟩ (by decide) _ hcallee
    exact ⟨x, hx, before, (congrArg Span.start hplace).symm, hwarns⟩

end Analysis

end Vyper
