import Vyper.Editor.Navigation
import Vyper.Proofs.Margins

/-!
# Bare names

A cursor anywhere on a bare name sees the name and nothing longer, and never takes it for a member
of `self` (`CursorContext.exists_bare`). That holds of the names that are read in a tree and of
those that a parameter, a local or a variable binds (`Module.IsTreeOf.exists_bareName`,
`Module.IsTreeOf.exists_binding`).
-/

namespace Vyper

open LineCursor

namespace LineCursor

variable {left word right : List Char} {k : Nat}

theorem isSelfMember_bare (hword : ∀ c ∈ word, isWordChar c = true)
    (hleft : ∀ c ∈ left.getLast?, Lexeme.parts c = true) (hk : k ≤ word.length) :
    isSelfMember (left ++ word ++ right) (left.length + k) = false := by
  have hbefore : (left ++ word.take k).reverse.dropWhile isWordChar = left.reverse := by
    rw [List.reverse_append, Lexeme.dropWhile_append_of_stop (forall_mem_take_reverse hword k)]
    intro c hc
    rw [List.head?_reverse] at hc
    exact Lexeme.isWordChar_of_parts (hleft c hc)
  -- The dot of `self.` would be the last character before the word.
  have hdot : "self.".toList.reverse.isPrefixOf left.reverse = false := by
    rw [← Bool.not_eq_true, List.isPrefixOf_iff_prefix, List.reverse_prefix]
    rintro ⟨front, rfl⟩
    have hparts := hleft '.' (by rw [List.getLast?_append]; rfl)
    exact absurd hparts (by decide)
  simp only [isSelfMember]
  rw [take_word left right hk, drop_word left right hk, hbefore, hdot, Bool.and_false,
    Bool.false_and]

end LineCursor

theorem CursorContext.line?_eq {d : Document} {p : Position} {c : CursorContext}
    (h : CursorContext.at? d p = some c) : d.line? p.line = some c.line := by
  obtain ⟨cursor, hcursor, rfl⟩ := Option.map_eq_some_iff.mp h
  obtain ⟨line, hline, rfl⟩ := Option.map_eq_some_iff.mp hcursor
  exact hline

/-- A cursor anywhere on a name sees the name, whatever leads up to it on its line. -/
theorem Document.cursor?_name {d : Document} {before lead after : List Char} {name : String}
    (htext : d.text = before ++ (lead ++ name.toList) ++ after) (hname : isIdentifier name = true)
    (hlead : ∀ c ∈ lead, Lines.isBreak c = false)
    (hbefore : ∀ c ∈ (before ++ lead).getLast?, isWordChar c = false)
    (hafter : ∀ c ∈ after.head?, isWordChar c = false) {k : Nat} (hk : k ≤ name.length) :
    let left := Lines.current Lines.isBreak before ++ lead
    let offset := (before ++ lead).length + k
    d.offset (d.positionAt offset) = .ok offset ∧ ∃ right, (∀ c ∈ right.head?, c ∈ after.head?) ∧
      d.cursor? (d.positionAt offset) = some (left ++ name.toList ++ right, left.length + k) ∧
      String.ofList (wordAt (left ++ name.toList ++ right) (left.length + k)) = name := by
  intro left offset
  rw [← String.length_toList] at hk
  have hclean : ∀ c ∈ lead ++ name.toList, Lines.isBreak c = false := List.forall_mem_append.mpr
    ⟨hlead, fun c hc => Lines.isBreak_of_isWordPart (Lexeme.isWordPart_of_isIdentifier hname c hc)⟩
  have hne : lead ++ name.toList ≠ [] := by
    obtain ⟨first, others, hchars, -⟩ := Lexeme.eq_cons_of_isIdentifier hname
    simp [hchars]
  obtain ⟨line, more, hline⟩ := List.exists_cons_of_ne_nil (Lines.split_ne_nil Lines.isBreak after)
  have hcursor := cursor?_word htext hne hclean hline
    (List.length_append ▸ Nat.add_le_add_left hk lead.length)
  rw [← Nat.add_assoc, ← Nat.add_assoc, ← List.length_append, ← List.length_append,
    ← List.append_assoc] at hcursor
  have hright : ∀ c ∈ (Lines.content line).head?, c ∈ after.head? :=
    fun c hc => Lines.mem_head?_of_content hline hc
  have hleft : ∀ c ∈ left.getLast?, isWordChar c = false := by
    intro c hc
    refine hbefore c ?_
    rw [List.getLast?_append] at hc ⊢
    cases hlast : lead.getLast? with
    | none => exact Lines.mem_getLast?_of_current (by simpa [hlast] using hc)
    | some x => simpa [hlast] using hc
  refine ⟨hcursor.1, _, hright, hcursor.2, ?_⟩
  rw [wordAt_word (Lexeme.isWordChar_of_isIdentifier hname) hleft
    (fun c hc => hafter c (hright c hc)) hk, String.ofList_toList]

/-- A cursor anywhere on a bare name sees the name, and no member of `self`. -/
theorem CursorContext.exists_bare {d : Document} {place : Pos} {name : String}
    {before after : List Char} (h : BareName d.text place name before after) {k : Nat}
    (hk : k ≤ name.length) :
    let p := d.positionAt (before.length + k)
    d.offset p = .ok (before.length + k) ∧
      ∃ c, CursorContext.at? d p = some c ∧ c.word = name ∧ c.isSelfAccess = false ∧
        ∃ rest, c.line = Lines.current Lines.isBreak before ++ name.toList ++ rest := by
  have hbefore : ∀ c ∈ (before ++ []).getLast?, isWordChar c = false := by
    rw [List.append_nil]
    exact fun c hc => Lexeme.isWordChar_of_parts (h.apart_before c hc)
  obtain ⟨hoffset, right, -, hcursor, hword⟩ :=
    @Document.cursor?_name d before [] after name h.text_eq h.identifier (by simp) hbefore
      h.apart_after k hk
  simp only [List.append_nil] at hoffset hcursor hword
  refine ⟨hoffset, _, by rw [CursorContext.at?, hcursor, Option.map_some], hword, ?_, right, rfl⟩
  exact isSelfMember_bare (Lexeme.isWordChar_of_isIdentifier h.identifier)
    (fun c hc => h.apart_before c (Lines.mem_getLast?_of_current hc)) hk

/-! ### Names of a tree -/

/-- Where a declaration writes the name it binds. -/
def Node.bindingPlace : Node → Pos
  | .stmt (.declare _ target ..) => target.span.start
  | .var v => v.target.span.start
  | n => n.span.start

theorem Expr.eq_of_id? {e : Expr} {name : String} (h : e.id? = some name) :
    ∃ span, e = .name span name := by
  cases e with
  | name span id =>
    cases h
    exact ⟨span, rfl⟩
  | _ => cases h

namespace Module.IsTreeOf

variable {m : Module} {text : List Char} {stream : TokenStream} {path : List Nat} {c : Node}
  {name : String} (h : m.IsTreeOf text)
include h

theorem headed_binding (hstream : TokenStream.ofText text = .ok stream)
    (hc : (Node.module m).at? path = some c) (hname : c.boundName? = some name) :
    ∃ span, span.start = c.bindingPlace ∧ Token.Headed stream.tokens ⟨.name name, span⟩ := by
  -- The target of a declaration is its first part.
  have htarget : ∀ {target : Expr}, target.id? = some name → c.at? [0] = some (.expr target) →
      target.span.start = c.bindingPlace →
      ∃ span, span.start = c.bindingPlace ∧ Token.Headed stream.tokens ⟨.name name, span⟩ := by
    intro target hid hat hplace
    obtain ⟨span, rfl⟩ := Expr.eq_of_id? hid
    exact ⟨span, hplace, h.heads hstream ((Node.at?_append hc [0]).trans hat)⟩
  cases c with
  | param p =>
    cases hname
    exact h.heads hstream hc
  | var v => exact htarget hname rfl rfl
  | stmt s =>
    cases s with
    | declare span target type value resolved => exact htarget hname rfl rfl
    | _ => cases hname
  | _ => cases hname

/-- A parameter, a local or a variable is written under its name. -/
theorem exists_binding (hc : (Node.module m).at? path = some c) (hname : c.boundName? = some name) :
    ∃ before after, BareName text c.bindingPlace name before after := by
  obtain ⟨stream, hstream⟩ := h.exists_stream
  obtain ⟨span, hplace, hheaded⟩ := h.headed_binding hstream hc hname
  rw [← hplace]
  exact hheaded.bareName hstream

/-- A variable is written at the margin. -/
theorem exists_margin {v : VariableDef} (hv : .var v ∈ m.body) :
    ∃ before after, BareName text (Node.var v).bindingPlace v.name before after ∧
      Lines.current Lines.isBreak before = [] := by
  obtain ⟨stream, hstream⟩ := h.exists_stream
  obtain ⟨t, hbegins, hmark, ⟨id, htarget, hkind⟩, -⟩ := (h.opens hstream).1 _ hv
  obtain ⟨kind, span⟩ := t
  cases hkind
  obtain ⟨before, after, hbare⟩ := hbegins.headed.bareName hstream
  obtain ⟨before', rest, htext, hstart, hcurrent⟩ := hbegins.current_eq_nil hstream hmark
  have hsame : before = before' := by
    refine Pos.eq_of_advance .origin (b := id.toList ++ after) (e := rest) ?_
      (hbare.place_eq.trans hstart)
    rw [← List.append_assoc, ← hbare.text_eq, htext]
  have hname : v.name = id := by
    rw [VariableDef.name, htarget]
    rfl
  have hplace : (Node.var v).bindingPlace = span.start := congrArg (·.span.start) htarget
  rw [hname, hplace]
  exact ⟨before, after, hbare, hsame ▸ hcurrent⟩

theorem exists_bareName (hc : (Node.module m).at? path = some c) (hname : c.bareName? = some name) :
    ∃ before after, BareName text c.span.start name before after := by
  obtain ⟨stream, hstream⟩ := h.exists_stream
  cases c with
  | expr e =>
    obtain ⟨span, rfl⟩ := Expr.eq_of_id? hname
    have hheaded : Token.Headed stream.tokens ⟨.name name, span⟩ := h.heads hstream hc
    exact hheaded.bareName hstream
  | _ => cases hname

end Module.IsTreeOf

end Vyper
