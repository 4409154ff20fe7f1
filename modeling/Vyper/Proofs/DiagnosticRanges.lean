import Vyper.Editor.Analysis
import Vyper.Proofs.Columns
import Vyper.Proofs.Containment
import Vyper.Proofs.ReadyDocuments

/-!
# Ranges of diagnostics

Every diagnostic of a build has a range that an editor can show (`Document.Shows`): its ends are on
lines of the document, not past the ends of these lines, and in order. The errors of the front end
are about spans inside the text; a document has at least as many lines as its text has rows, and
measuring columns in UTF-16 units keeps the order on a line. Deprecations are found on the lines
themselves.
-/

namespace Vyper

/-- The start of a range is not behind its end. -/
def Range.Ordered (r : Range) : Prop :=
  r.start.line < r.stop.line ∨ r.start.line = r.stop.line ∧ r.start.character ≤ r.stop.character

namespace Document

variable {d : Document} {r : Range}

/-- A position on a line of the document, at the end of the line or before it. -/
def Reaches (d : Document) (p : Position) : Prop :=
  p.line < d.lineCount ∧ ∃ line, d.line? p.line = some line ∧ p.character ≤ Utf16.length line

/-- A range of the document, with columns in UTF-16 units. -/
structure Shows (d : Document) (r : Range) : Prop where
  ordered : r.Ordered
  start : d.Reaches r.start
  stop : d.Reaches r.stop

/-- A range on lines of the document, in order; its columns need not be on the lines. -/
structure Spans (d : Document) (r : Range) : Prop where
  ordered : r.Ordered
  stop_lt : r.stop.line < d.lineCount

theorem reaches_utf16Position {p : Position} (h : p.line < d.lineCount) :
    d.Reaches (d.utf16Position p) := by
  obtain ⟨line, hline⟩ := exists_line h
  rw [utf16Position_of_line hline]
  exact ⟨h, line, hline, Utf16.ofCharIndex_le line p.character⟩

theorem ordered_utf16Range (h : r.Ordered) : (d.utf16Range r).Ordered := by
  unfold Range.Ordered utf16Range
  dsimp only
  rw [line_utf16Position, line_utf16Position]
  rcases h with h | ⟨hline, h⟩
  · exact .inl h
  · refine .inr ⟨hline, ?_⟩
    unfold utf16Position
    rw [hline]
    -- Both ends are on one line, or on none, where the columns stay as they are.
    cases d.line? r.stop.line with
    | none => exact h
    | some line => exact Utf16.ofCharIndex_mono line h

theorem Spans.shows_utf16Range (h : d.Spans r) : d.Shows (d.utf16Range r) := by
  have hstart : r.start.line < d.lineCount := by
    have hordered := h.ordered
    have hstop := h.stop_lt
    unfold Range.Ordered at hordered
    omega
  exact ⟨ordered_utf16Range h.ordered, reaches_utf16Position hstart,
    reaches_utf16Position h.stop_lt⟩

theorem lineCount_pos (d : Document) : 0 < d.lineCount := by
  rw [lineCount_eq, Rows.count_eq]
  omega

/-- The end of the text is on a line of the document, rows counted from one. -/
theorem line_advance_origin_le (d : Document) : (Pos.origin.advance d.text).line ≤ d.lineCount := by
  rw [lineCount_eq, line_advance_origin]
  exact Nat.le_add_right _ _

theorem spans_ofSpan {s : Span} (h : s.Within .origin (Pos.origin.advance d.text)) :
    d.Spans (.ofSpan s) := by
  have hstart := (Pos.le_iff _ _).mp h.le_start
  have hordered := (Pos.le_iff _ _).mp h.start_le_stop
  have hstop := (Pos.le_iff _ _).mp h.stop_le
  have hend := d.line_advance_origin_le
  have horigin : Pos.origin.line = 1 := rfl
  -- Rows count from one, so taking one off keeps two rows apart.
  constructor
  · unfold Range.Ordered Range.ofSpan
    dsimp only
    omega
  · unfold Range.ofSpan
    dsimp only
    omega

theorem spans_ofError {e : CompileError} (h : e.Within .origin (Pos.origin.advance d.text)) :
    ∀ x ∈ Diagnostic.ofError e, d.Spans x.range := by
  intro x hx
  unfold Diagnostic.ofError at hx
  obtain ⟨range, hrange, rfl⟩ := List.mem_map.mp hx
  split at hrange
  · obtain rfl := List.mem_singleton.mp hrange
    exact ⟨.inr ⟨rfl, Nat.le_refl _⟩, d.lineCount_pos⟩
  · obtain ⟨s, hs, rfl⟩ := List.mem_map.mp hrange
    exact spans_ofSpan (h s hs)

theorem spans_deprecation {warnings : List String} :
    ∀ x ∈ Deprecation.diagnostics warnings d.lines, d.Spans x.range := by
  intro x hx
  unfold Deprecation.diagnostics at hx
  obtain ⟨⟨line, number⟩, hline, hx⟩ := List.mem_flatMap.mp hx
  obtain ⟨deprecation, -, hx⟩ := List.mem_flatMap.mp hx
  obtain ⟨start, -, rfl⟩ := List.mem_map.mp hx
  have hnumber : number < d.lines.length := List.snd_lt_of_mem_zipIdx hline
  rw [lines, List.length_map] at hnumber
  exact ⟨.inr ⟨rfl, Nat.le_add_right _ _⟩, hnumber⟩

end Document

namespace Analysis

/-- Every diagnostic of a build can be shown in the document, whatever the files hold. -/
theorem shows_of_mem_build (a : Analysis) (files : FileSystem) (d : Document)
    (workingDirectory : Option Path) :
    ∀ x ∈ (a.build (.builtIn files) d workingDirectory).2, d.Shows x.range := by
  intro x hx
  unfold build at hx
  obtain ⟨y, hy, rfl⟩ := List.mem_map.mp hx
  apply Document.Spans.shows_utf16Range
  cases hc : Frontend.builtIn files d.text (d.searchPaths workingDirectory) with
  | error e =>
    rw [hc] at hy
    exact Document.spans_ofError (Frontend.within_of_error hc) y hy
  | ok c =>
    rw [hc] at hy
    rcases List.mem_append.mp hy with hy | hy
    · cases hproblem : c.problem? with
      | none =>
        rw [hproblem] at hy
        cases hy
      | some e =>
        rw [hproblem] at hy
        exact Document.spans_ofError (Frontend.within_of_problem hc hproblem) y hy
    · exact Document.spans_deprecation y hy

/-- A variable with the name of an enum, whose last member stands before a comment with a character
of two units: the two declarations, and the outdated spelling in code and in the comment. -/
theorem shows_of_mem_build_collision :
    let d := Document.ofLines ["enum A:", " a #𝐱 enum", "A: bool"]
    let ranges : List Range :=
      [⟨⟨2, 0⟩, ⟨2, 7⟩⟩, ⟨⟨0, 0⟩, ⟨1, 2⟩⟩, ⟨⟨0, 0⟩, ⟨0, 4⟩⟩, ⟨⟨1, 7⟩, ⟨1, 11⟩⟩]
    (({} : Analysis).build (.builtIn .empty) d none).2.map (·.range) = ranges ∧
      ∀ range ∈ ranges, d.Shows range := by
  intro d ranges
  have hranges : (({} : Analysis).build (.builtIn .empty) d none).2.map (·.range) = ranges := by
    decide +kernel
  refine ⟨hranges, ?_⟩
  intro range hrange
  rw [← hranges] at hrange
  obtain ⟨x, hx, rfl⟩ := List.mem_map.mp hrange
  exact shows_of_mem_build {} .empty d none x hx

end Analysis

end Vyper
