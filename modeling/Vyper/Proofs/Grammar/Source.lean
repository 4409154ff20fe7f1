import Vyper.Proofs.Grammar.Declaration
import Vyper.Proofs.LineStructure

/-!
# Derivations of a source text

The tokens of a text that parses are read to the declarations of its module, and its notes are those
the rules ask for (`Module.derives_of_parse`).
-/

namespace Vyper

/-- The tokens of a text close every block they open. -/
theorem ParseState.sound_ofStream {text : List Char} {stream : TokenStream}
    (h : TokenStream.ofText text = .ok stream) : (ParseState.ofStream stream).Sound := by
  have hbracketed := TokenStream.wellBracketed_ofText h
  constructor
  case no_eof =>
    have hlast := hbracketed.eof_last
    rw [TokenStream.kinds, List.dropLast_concat] at hlast
    intro t ht heof
    exact hlast (heof ▸ List.mem_map_of_mem ht)
  case fronts =>
    intro front hfront
    refine hbracketed.fronts front (hfront.trans ?_)
    exact List.prefix_append _ _
  case total =>
    simpa [TokenStream.kinds, ParseState.ofStream] using hbracketed.total

namespace Module

/-- What a text that parses was read from. -/
theorem exists_of_parse {text : List Char} {parsed : Parsed} (h : Module.parse text = .ok parsed) :
    ∃ stream state, TokenStream.ofText text = .ok stream ∧
      Parser.wholeModule (.ofStream stream) = .ok (parsed.tree, state) ∧
      ∀ d, d ∈ parsed.notes ↔ d ∈ state.notes := by
  obtain ⟨stream, hstream, h⟩ := exists_of_bind_eq_ok h
  obtain ⟨⟨tree, state⟩, hread, h⟩ := exists_of_bind_eq_ok h
  cases h
  exact ⟨stream, state, hstream, hread, fun d => List.mem_eraseDups.trans List.mem_reverse⟩

open Grammar in
/-- The tokens of a text are read to the declarations of its module. -/
theorem derives_of_parse {text : List Char} {stream : TokenStream} {parsed : Parsed}
    (hparse : Module.parse text = .ok parsed) (hstream : TokenStream.ofText text = .ok stream) :
    ∃ front row, nodes front = [] ∧ Filled row (parsed.tree.body.map (·.toNode)) ∧
      Derives parsed.notes (front ++ row) stream.tokens ∧ parsed.notes ⊆ Deprecation.known ∧
      parsed.tree.span = ⟨.origin, stream.eof.stop⟩ := by
  obtain ⟨stream', state, hstream', hread, hnotes⟩ := exists_of_parse hparse
  cases hstream.symm.trans hstream'
  obtain ⟨hspan, hdone, front, row, hfront, hrow, hreached⟩ :=
    (yields_wholeModule (ParseState.sound_ofStream hstream) le_rfl (List.nil_subset _)).1 _
      state hread
  obtain ⟨us, hus, -, hderives⟩ := hreached.derives
  rw [hdone, List.append_nil] at hus
  refine ⟨front, row, hfront, hrow, ?_, fun d hd => hreached.known ((hnotes d).mp hd), hspan⟩
  rw [show stream.tokens = us from hus]
  exact hderives _ fun d hd => (hnotes d).mpr hd

end Module

end Vyper
