import Vyper.Editor.Hover
import Vyper.Proofs.BareDeclarations
import Vyper.Proofs.MemberQueries
import Vyper.Proofs.Searching
import Vyper.Proofs.WordStability

/-!
# Dotted accesses

A cursor on the member of an access `A.m` looks at the expression around it. Inside parentheses that
are closed on the line this is the whole call, and else it is the stretch of names, dots and
brackets that the cursor touches. So an access that stands free shows itself, and its flag or its
module is found; one in parentheses shows the call it stands in, and the answer is about the call.
-/

namespace Vyper

open LineCursor

/-! ### The text around an access -/

namespace Lexeme

variable {c : Char}

theorem isAlphabetic_of_isWordStart (h : isWordStart c = true) :
    (CharClass.isAlphabetic c || c == '_') = true := by
  rw [CharClass.isAlphabetic, if_pos (toNat_lt_of_isWordStart h)]
  exact h

end Lexeme

namespace LineCursor

variable {left word right : List Char} {k : Nat} {p : Char → Bool}

/-- Some balanced parentheses of a line are around an index. -/
def Enclosed (line : List Char) (index : Nat) : Prop :=
  ∃ left, unmatchedOpen line index = some left ∧ (matchingClose line left).isSome = true

instance (line : List Char) (index : Nat) : Decidable (Enclosed line index) :=
  decidable_of_iff ((unmatchedOpen line index).any fun left => (matchingClose line left).isSome)
    (Option.any_eq_true _ _)

/-- What is around a place in a stretch that begins there is the stretch and its continuation. -/
theorem around_stretch (hword : ∀ c ∈ word, p c = true) (hleft : ∀ c ∈ left.getLast?, p c = false)
    (hk : k ≤ word.length) :
    around p (left ++ word ++ right) (left.length + k) = word ++ right.takeWhile p := by
  have hfront : left.reverse.takeWhile p = [] := by
    rw [← List.head?_reverse] at hleft
    exact Lexeme.takeWhile_append_of_stop (List.forall_mem_nil _) hleft
  rw [around_word hword hk, hfront]
  rfl

theorem expressionAt_of_not_enclosed {line : List Char} {index : Nat} (h : ¬ Enclosed line index) :
    expressionAt line index = around isExpressionChar line index := by
  unfold expressionAt
  split
  · next hopen =>
    split
    · next hclose => exact absurd ⟨_, hopen, by rw [hclose]; rfl⟩ h
    · rfl
  · rfl

theorem eq_append_of_beforeOpen {depth : Nat} {cs before : List Char}
    (h : beforeOpen depth cs = some before) : ∃ front, cs = front ++ '(' :: before := by
  fun_induction beforeOpen depth cs with
  | case1 => cases h
  | case2 depth cs ih =>
    obtain ⟨front, rfl⟩ := ih h
    exact ⟨')' :: front, rfl⟩
  | case3 cs hc =>
    cases h
    exact ⟨[], rfl⟩
  | case4 cs depth hc ih =>
    obtain ⟨front, rfl⟩ := ih h
    exact ⟨'(' :: front, rfl⟩
  | case5 depth c cs hclose hopen ih =>
    obtain ⟨front, rfl⟩ := ih h
    exact ⟨c :: front, rfl⟩

/-- In parentheses that no callee stands before, the expression is what they hold. -/
theorem expressionAt_group {line : List Char} {index left : Nat}
    (hopen : unmatchedOpen line index = some left)
    (hclose : (matchingClose line left).isSome = true)
    (hcallee : calleeStart line left = none) : ∃ rest, expressionAt line index = '(' :: rest := by
  obtain ⟨right, hright⟩ := Option.isSome_iff_exists.mp hclose
  obtain ⟨before, hbefore, rfl⟩ := Option.map_eq_some_iff.mp hopen
  obtain ⟨front, hfront⟩ := eq_append_of_beforeOpen hbefore
  have hline : line = before.reverse ++ '(' :: (front.reverse ++ line.drop index) := by
    have htake := congrArg List.reverse hfront
    rw [List.reverse_reverse, List.reverse_append, List.reverse_cons] at htake
    conv_lhs => rw [← List.take_append_drop index line, htake]
    simp
  have hlt : before.length < right + 1 := by
    obtain ⟨distance, -, rfl⟩ := Option.map_eq_some_iff.mp hright
    omega
  have hslice : expressionAt line index = slice line before.length (right + 1) := by
    rw [expressionAt, hopen]
    dsimp only
    rw [hright]
    dsimp only
    rw [hcallee, Option.getD_none]
  rw [hslice, slice, List.drop_take, hline, ← List.length_reverse, List.drop_left]
  rw [List.length_reverse]
  obtain ⟨n, hn⟩ : ∃ n, right + 1 - before.length = n + 1 := ⟨right - before.length, by omega⟩
  rw [hn]
  exact ⟨_, rfl⟩

theorem isSelfMember_dotted {base : List Char} (hbase : ∀ c ∈ base, isWordChar c = true)
    (hne : base ≠ "self".toList) (hword : ∀ c ∈ word, isWordChar c = true)
    (hleft : ∀ c ∈ left.getLast?, isWordChar c = false) (hk : k ≤ word.length) :
    isSelfMember (left ++ (base ++ ['.']) ++ word ++ right)
      ((left ++ (base ++ ['.'])).length + k) = false := by
  have hbefore : (left ++ (base ++ ['.']) ++ word.take k).reverse.dropWhile isWordChar =
      '.' :: (base.reverse ++ left.reverse) := by
    rw [List.reverse_append, Lexeme.dropWhile_append_of_stop (forall_mem_take_reverse hword k)]
    · simp
    · rw [List.head?_reverse, ← List.append_assoc, List.getLast?_concat]
      rintro _ ⟨⟩
      decide
  have hbaseWord : (base.reverse ++ left.reverse).takeWhile isWordChar = base.reverse := by
    refine Lexeme.takeWhile_append_of_stop (fun c hc => hbase c (List.mem_reverse.mp hc)) ?_
    rwa [List.head?_reverse]
  refine Bool.eq_false_iff.mpr fun hself => hne ?_
  simp only [isSelfMember] at hself
  rw [take_word _ right hk, drop_word _ right hk, hbefore, Bool.and_eq_true, Bool.and_eq_true,
    List.isPrefixOf_iff_prefix] at hself
  obtain ⟨⟨-, front, hfront⟩, hapart⟩ := hself
  have hsplit : "self".toList.reverse ++ front = base.reverse ++ left.reverse :=
    (List.cons.inj hfront).2
  -- The word before the dot is `self`, for no longer word ends there.
  have hstop : ∀ c ∈ front.head?, isWordChar c = false := by
    intro c hc
    rw [← hsplit] at hapart
    have hdrop : ('.' :: ("self".toList.reverse ++ front)).drop 5 = front := rfl
    rw [hdrop, Option.mem_def.mp hc] at hapart
    simpa using hapart
  have hself : ("self".toList.reverse ++ front).takeWhile isWordChar = "self".toList.reverse :=
    Lexeme.takeWhile_append_of_stop (List.all_eq_true.mp (by decide)) hstop
  rw [hsplit, hbaseWord] at hself
  exact List.reverse_injective hself

end LineCursor

/-! ### The two names of an access -/

theorem splitIdentifier_append {name : String} {rest : List Char} (hname : isIdentifier name = true)
    (hrest : ∀ c ∈ rest.head?, isWordChar c = false) :
    splitIdentifier (name.toList ++ rest) = some (name.toList, rest) := by
  obtain ⟨first, others, hchars, hfirst, hothers⟩ := Lexeme.eq_cons_of_isIdentifier hname
  have hword := Lexeme.isWordChar_of_isIdentifier hname
  have htake := Lexeme.takeWhile_append_of_stop hword hrest
  have hdrop := Lexeme.dropWhile_append_of_stop hword hrest
  rw [hchars] at htake hdrop ⊢
  rw [splitIdentifier.eq_def]
  dsimp only [List.cons_append] at htake hdrop ⊢
  rw [if_pos (Lexeme.isAlphabetic_of_isWordStart hfirst), htake, hdrop]

theorem variantParts_dotted {base attr : String} {rest : List Char}
    (hbase : isIdentifier base = true) (hattr : isIdentifier attr = true)
    (hrest : ∀ c ∈ rest.head?, isWordChar c = false) :
    variantParts (base.toList ++ '.' :: (attr.toList ++ rest)) = some (base, attr) := by
  have hdot : ∀ c ∈ ('.' :: (attr.toList ++ rest)).head?, isWordChar c = false := by
    rintro _ ⟨⟩
    decide
  have hfront : Search.dropFront? ['.'] ('.' :: (attr.toList ++ rest)) =
      some (attr.toList ++ rest) := rfl
  rw [variantParts, splitIdentifier_append hbase hdot]
  change ((Search.dropFront? ['.'] ('.' :: (attr.toList ++ rest))).bind fun text =>
    (splitIdentifier text).bind fun r => some (String.ofList base.toList, String.ofList r.1)) = _
  rw [hfront, Option.bind_some, splitIdentifier_append hattr hrest, Option.bind_some,
    String.ofList_toList, String.ofList_toList]

/-! ### Cursors on members -/

/-- Some balanced parentheses of its line are around a position. -/
def Document.EnclosedAt (d : Document) (p : Position) : Prop :=
  ∃ cursor, d.cursor? p = some cursor ∧ Enclosed cursor.1 cursor.2

instance (d : Document) (p : Position) : Decidable (d.EnclosedAt p) :=
  decidable_of_iff ((d.cursor? p).any fun cursor => Enclosed cursor.1 cursor.2) <| by
    simp [Document.EnclosedAt, Option.any_eq_true]

theorem CursorContext.Sees.expression_eq {d : Document} {p : Position} {name : String}
    {c : CursorContext} (h : c.Sees d p name) {line : List Char} {index : Nat}
    (hcursor : d.cursor? p = some (line, index)) : c.expression = expressionAt line index := by
  have hat := h.at?_eq
  rw [CursorContext.at?, hcursor] at hat
  cases hat
  rfl

/-- A cursor on the member of an access sees its name, and the access if that stands free. -/
structure CursorContext.SeesMember (d : Document) (p : Position) (base attr : String)
    (before after : List Char) (c : CursorContext) : Prop extends c.Sees d p attr where
  free : ¬ d.EnclosedAt p → (∀ x ∈ before.getLast?, isExpressionChar x = false) →
    ∃ rest, c.expression = base.toList ++ '.' :: (attr.toList ++ rest) ∧
      (∀ x ∈ rest.head?, isWordChar x = false) ∧
      ((∀ x ∈ after.head?, isExpressionChar x = false) → rest = [])

theorem Dotted.sees {d : Document} {base attr : String} {before after : List Char}
    (h : Dotted d.text base attr before after) (hself : base ≠ "self") {k : Nat}
    (hk : k ≤ attr.length) :
    let offset := (before ++ (base ++ ".").toList).length + k
    d.offset (d.positionAt offset) = .ok offset ∧
      ∃ c, CursorContext.SeesMember d (d.positionAt offset) base attr before after c := by
  have hbase := Lexeme.isWordChar_of_isIdentifier h.base
  have hattr := Lexeme.isWordChar_of_isIdentifier h.attr
  have hlead : (base ++ ".").toList = base.toList ++ ['.'] := by simp
  have htext : d.text = before ++ ((base ++ ".").toList ++ attr.toList) ++ after := by
    rw [← String.toList_append]
    exact h.text_eq
  have hclean : ∀ c ∈ (base ++ ".").toList, Lines.isBreak c = false := by
    rw [hlead]
    refine List.forall_mem_append.mpr ⟨fun c hc => ?_, List.forall_mem_singleton.mpr rfl⟩
    exact Lines.isBreak_of_isWordPart (Lexeme.isWordPart_of_isIdentifier h.base c hc)
  have hdot : ∀ c ∈ (before ++ (base ++ ".").toList).getLast?, isWordChar c = false := by
    rw [hlead, ← List.append_assoc, List.getLast?_concat]
    rintro _ ⟨⟩
    decide
  obtain ⟨hoffset, right, hright, hcursor, hword⟩ :=
    d.cursor?_name htext h.attr hclean hdot h.apart_after hk
  have hleft : ∀ c ∈ (Lines.current Lines.isBreak before).getLast?, c ∈ before.getLast? :=
    fun c hc => Lines.mem_getLast?_of_current hc
  generalize Lines.current Lines.isBreak before = left at hcursor hleft hword
  have hrightWord : ∀ c ∈ right.head?, isWordChar c = false := fun c hc =>
    h.apart_after c (hright c hc)
  rw [← String.length_toList] at hk
  intro offset
  refine ⟨hoffset, _, ⟨⟨by rw [CursorContext.at?, hcursor, Option.map_some], hword, ?_,
    Lexeme.isEmpty_of_isIdentifier h.attr⟩, ?_⟩⟩
  · change isSelfMember _ _ = false
    rw [hlead]
    refine isSelfMember_dotted hbase (fun heq => hself (String.toList_injective heq)) hattr
      (fun c hc => ?_) hk
    exact Lexeme.isWordChar_of_parts (h.apart_before c (hleft c hc))
  · intro hfree hbefore
    have hexpression : ∀ c ∈ (base ++ ".").toList ++ attr.toList, isExpressionChar c = true := by
      rw [hlead]
      refine List.forall_mem_append.mpr
        ⟨List.forall_mem_append.mpr ⟨?_, List.forall_mem_singleton.mpr rfl⟩, ?_⟩
      · exact fun c hc => by simp [isExpressionChar, hbase c hc]
      · exact fun c hc => by simp [isExpressionChar, hattr c hc]
    refine ⟨right.takeWhile isExpressionChar, ?_, ?_, fun hafter => ?_⟩
    · change expressionAt _ _ = _
      rw [expressionAt_of_not_enclosed fun henclosed => hfree ⟨_, hcursor, henclosed⟩,
        List.append_assoc left,
        List.length_append, Nat.add_assoc, around_stretch hexpression
          (fun c hc => hbefore c (hleft c hc))
          (List.length_append ▸ Nat.add_le_add_left hk _), hlead]
      simp
    · intro c hc
      cases right with
      | nil => cases hc
      | cons x right =>
        rw [List.takeWhile_cons] at hc
        split at hc
        · cases hc
          exact hrightWord _ rfl
        · cases hc
    · cases right with
      | nil => rfl
      | cons x right =>
        rw [List.takeWhile_cons, if_neg]
        rw [hafter x (hright x rfl)]
        exact Bool.false_ne_true

/-! ### Answers -/

/-- A flag that its name leads to, and one of its variants. -/
structure Module.Offers (m : Module) (e : MemberDef) (base attr : String) : Prop where
  kind : e.kind = .flag
  name : e.name = base
  variant : ∃ line ∈ e.body, (Node.stmt line).variant? = some attr
  seen : ∃ above below, m.body = above ++ .members e :: below ∧ ¬ Module.Hides above base

namespace Analysis

variable {a : Analysis} {d : Document} {p : Position} {c : CursorContext} {base attr : String}

/-- A name that is no type and no constant, and that a function does not bind. -/
structure Unclaimed (a : Analysis) (f : Site) (name : String) : Prop where
  type : a.best.sites.any (·.node.typeName? == some name) = false
  constant : a.best.sites.any (·.declaresConstant name) = false
  bound : f.descendants.any (·.node.boundName? == some name) = false

/-- On such a name in a function, the flag that the expression begins with is found, but not in an
interface. -/
theorem Shows.declaration?_unclaimed {m : Module} {f s : Site} {name : String}
    (h : a.Shows d.text m) (hc : c.Sees d p name) (hname : a.Unclaimed f name)
    (hf : f ∈ a.best.sites) (hkind : f.kind = .function) (hs : s ∈ f.descendants)
    (hline : p.line + 1 = s.span.start.line) :
    a.declaration? d p = if f.parent?.any (·.kind == .interface) then none else
      (a.variantOwner? c.expression).map fun t => d.utf16Range t.range := by
  have hfind : f.descendants.find? (·.node.boundName? == some name) = none :=
    List.find?_eq_none.mpr (List.any_eq_false.mp hname.bound)
  rw [h.declaration?_scope hc hname.type hf hkind hs hline hname.constant, hfind, Option.none_or]

theorem variantOwner?_of_parts {expression : List Char} {s : Site}
    (hparts : variantParts expression = some (base, attr)) (henum : base ∈ a.enums)
    (hvariant : attr ∈ a.best.enumVariants base) (hfound : a.best.typeDeclaration? base = some s) :
    a.variantOwner? expression = some s := by
  rw [variantOwner?, hparts]
  change (if a.enums.contains base && (a.best.enumVariants base).contains attr then
    a.best.typeDeclaration? base else none) = _
  rw [if_pos, hfound]
  exact Bool.and_eq_true_iff.mpr
    ⟨List.contains_iff_mem.mpr henum, List.contains_iff_mem.mpr hvariant⟩

/-- What a flag offers is found under its name. -/
theorem Shows.offers {m : Module} {e : MemberDef} (h : a.Shows d.text m)
    (hentry : ∀ e, .members e ∈ m.body →
      (e.kind = .flag → a.tables.flag? e.name = some ⟨e.name, e.variants⟩) ∧
      (e.kind = .struct → a.tables.struct? e.name = some ⟨e.name, e.fields d.text⟩))
    (he : m.Offers e base attr) : base ∈ a.enums ∧ attr ∈ a.best.enumVariants base ∧
      a.best.typeDeclaration? base = some (m.site (.members e)) := by
  obtain ⟨hkind, rfl, ⟨line, hline, hvariant⟩, above, below, hbody, hseen⟩ := he
  have hmem : .members e ∈ m.body := by rw [hbody]; simp
  have hflag := (hentry e hmem).1 hkind
  have hfound : (Tree.ofModule m d.text).typeDeclaration? e.name = some (m.site (.members e)) := by
    rcases h.tree.typeDeclaration?_cases h.claims hbody with ⟨-, hfound⟩ | ⟨_, _, hhides, -⟩
    · exact hfound
    · exact absurd hhides hseen
  refine ⟨List.mem_map.mpr ⟨_, List.mem_of_find?_eq_some hflag, rfl⟩, ?_, ?_⟩
  · rw [h.best, h.tree.enumVariants_eq hmem hfound]
    exact List.mem_filterMap.mpr ⟨line, hline, hvariant⟩
  · rw [h.best, hfound]

theorem variantOwner?_paren (rest : List Char) : a.variantOwner? ('(' :: rest) = none := rfl

/-- What an imported module offers is shown where an access to it stands alone. -/
theorem hover?_module {imported : ModuleType} (hc : c.Sees d p attr)
    (hexpression : c.expression = base.toList ++ '.' :: attr.toList)
    (hbase : '.' ∉ base.toList) (hattr : '.' ∉ attr.toList)
    (himport : a.tables.import? base = some imported) :
    a.hover? d p =
      (if (imported.function? attr).isSome then some s!"(Module Function) **{base}.{attr}**"
      else if (imported.var? attr).isSome then some s!"(Module Variable) **{base}.{attr}**"
      else none).or (a.describe? c) := by
  have hmember : attr.toList.contains '.' = false := by simpa using hattr
  have hmodule : a.moduleMember? c.expression =
      if (imported.function? attr).isSome then some s!"(Module Function) **{base}.{attr}**"
      else if (imported.var? attr).isSome then some s!"(Module Variable) **{base}.{attr}**"
      else none := by
    have hcut : Search.splitOnce ['.'] (base.toList ++ '.' :: attr.toList) =
        some (base.toList, attr.toList) :=
      Search.splitOnce_of_not_mem rfl hbase
    rw [hexpression, moduleMember?, hcut]
    change (if attr.toList.contains '.' then none else _) = _
    rw [hmember, if_neg Bool.false_ne_true, String.ofList_toList, String.ofList_toList, himport]
    rfl
  rw [← hmodule, hover?, hc.at?_eq]
  change (if c.word.isEmpty then none else if c.isSelfAccess then a.describe? c
    else (a.moduleMember? c.expression).or (a.describe? c)) = _
  rw [hc.word_eq, hc.isEmpty_eq, hc.isSelfAccess_eq, if_neg Bool.false_ne_true,
    if_neg Bool.false_ne_true]

theorem eq_of_memberOf? {n : Node} (h : n.memberOf? = some (base, attr)) :
    ∃ span place, n = .expr (.member span (.name place base) attr) := by
  cases n with
  | expr e =>
    cases e with
    | member span value attr' =>
      obtain ⟨id, hid, heq⟩ := Option.map_eq_some_iff.mp h
      cases heq
      obtain ⟨place, rfl⟩ := Expr.eq_of_id? hid
      exact ⟨span, place, rfl⟩
    | _ => cases h
  | _ => cases h

theorem Shows.seesMember {m : Module} (h : a.Shows d.text m) {s : Site} (hs : s ∈ a.best.sites)
    (hmember : s.node.memberOf? = some (base, attr)) (before after : List Char)
    (htext : d.text = before ++ (base ++ "." ++ attr).toList ++ after)
    (hspan : s.span = ⟨Pos.origin.advance before,
      Pos.origin.advance (before ++ (base ++ "." ++ attr).toList)⟩)
    (hself : base ≠ "self") {k : Nat} (hk : k ≤ attr.length) :
    let offset := (before ++ (base ++ ".").toList).length + k
    Dotted d.text base attr before after ∧ d.offset (d.positionAt offset) = .ok offset ∧
      ∃ c, CursorContext.SeesMember d (d.positionAt offset) base attr before after c := by
  obtain ⟨span, place, hnode⟩ := eq_of_memberOf? hmember
  obtain ⟨path, hpath⟩ := h.exists_at? hs
  rw [hnode] at hpath
  have hdotted : Dotted d.text base attr before after := by
    refine h.tree.dotted hpath htext ?_
    rw [← hspan, Site.span, hnode]
    rfl
  exact ⟨hdotted, hdotted.sees hself hk⟩

/-- In a document that is ready, take an access to a member of a name other than `self`, written
without gaps, and a position anywhere on the member. Outside parentheses that are closed on the line
and with no bracket right before it, a variant leads to the declaration of its flag, if the access
is in a function and the variant is no type, no constant and not bound there; and a function or a
variable of an imported module is shown, if no bracket or dot is behind it. In parentheses that are
closed on the line and belong to no call, and anywhere in a function of an interface, a variant
leads nowhere. -/
theorem dotted_access {a : Analysis} {files : FileSystem} {d : Document}
    {workingDirectory : Option Path} :
    let built := (a.build (.builtIn files) d workingDirectory).1
    built.state = .ready →
    ∃ parsed, Module.parse d.text = .ok parsed ∧
    ∀ s ∈ built.best.sites, ∀ base attr, s.node.memberOf? = some (base, attr) → base ≠ "self" →
    ∀ before after, d.text = before ++ (base ++ "." ++ attr).toList ++ after →
      s.span = ⟨Pos.origin.advance before,
        Pos.origin.advance (before ++ (base ++ "." ++ attr).toList)⟩ →
      ∀ k ≤ attr.length,
        let offset := (before ++ (base ++ ".").toList).length + k
        let p := d.positionAt offset
        d.offset p = .ok offset ∧
        (∀ f ∈ built.best.sites, f.kind = .function → s ∈ f.descendants →
          p.line + 1 = s.span.start.line → built.Unclaimed f attr →
          if f.parent?.any (·.kind == .interface) then built.declaration? d p = none
          else
            (∀ e, (parsed.tree.typed d.text).Offers e base attr → ¬ d.EnclosedAt p →
              (∀ x ∈ before.getLast?, isExpressionChar x = false) →
              built.declaration? d p =
                some (d.utf16Range ((parsed.tree.typed d.text).site (.members e)).range)) ∧
            ∀ line index left, d.cursor? p = some (line, index) →
              unmatchedOpen line index = some left → (matchingClose line left).isSome = true →
              calleeStart line left = none → built.declaration? d p = none) ∧
        ∀ imported, built.tables.import? base = some imported → ¬ d.EnclosedAt p →
          (∀ x ∈ before.getLast?, isExpressionChar x = false) →
          (∀ x ∈ after.head?, isExpressionChar x = false) →
          ((imported.function? attr).isSome = true →
            built.hover? d p = some s!"(Module Function) **{base}.{attr}**") ∧
          ((imported.function? attr).isSome = false → (imported.var? attr).isSome = true →
            built.hover? d p = some s!"(Module Variable) **{base}.{attr}**") := by
  intro built hready
  obtain ⟨parsed, hparse, h, hentry⟩ := exists_shows_members hready
  refine ⟨parsed, hparse, fun s hs base attr hmember hself before after htext hspan k hk => ?_⟩
  obtain ⟨hdotted, hoffset, c, hc⟩ := h.seesMember hs hmember before after htext hspan hself hk
  intro offset p
  refine ⟨hoffset, ?_, ?_⟩
  · intro f hf hkind hbelow hline hname
    have hanswer := h.declaration?_unclaimed hc.toSees hname hf hkind hbelow hline
    cases hparent : f.parent?.any (·.kind == .interface) with
    | true =>
      rw [if_pos rfl]
      rw [hparent, if_pos rfl] at hanswer
      exact hanswer
    | false =>
      rw [if_neg Bool.false_ne_true]
      rw [hparent, if_neg Bool.false_ne_true] at hanswer
      constructor
      · intro e he hfree hbefore
        obtain ⟨rest, hexpression, hrest, -⟩ := hc.free hfree hbefore
        have hparts : variantParts c.expression = some (base, attr) := by
          rw [hexpression]
          exact variantParts_dotted hdotted.base hdotted.attr hrest
        obtain ⟨henum, hvariant, hfound⟩ := h.offers hentry he
        rw [hanswer, variantOwner?_of_parts hparts henum hvariant hfound]
        rfl
      · intro line index left hcursor hopen hclose hcallee
        obtain ⟨rest, hrest⟩ := expressionAt_group hopen hclose hcallee
        rw [hanswer, hc.expression_eq hcursor, hrest, variantOwner?_paren]
        rfl
  · intro imported himport hfree hbefore hafter
    obtain ⟨rest, hexpression, -, hrest⟩ := hc.free hfree hbefore
    rw [hrest hafter, List.append_nil] at hexpression
    have hdot : ∀ name : String, isIdentifier name = true → '.' ∉ name.toList := by
      intro name hidentifier hmem
      exact absurd (Lexeme.isWordPart_of_isIdentifier hidentifier _ hmem) (by decide)
    have hhover := hover?_module (a := built) hc.toSees hexpression (hdot base hdotted.base)
      (hdot attr hdotted.attr) himport
    refine ⟨fun hfunction => ?_, fun hfunction hvar => ?_⟩
    · rw [hhover, if_pos hfunction]
      rfl
    · rw [hhover, if_neg (by rw [hfunction]; exact Bool.false_ne_true), if_pos hvar]
      rfl

/-- In an unsaved document, a variable is bound to a variant, one to a variable of another module,
and one to the variant in parentheses. -/
def colouring : Document :=
  { Document.ofLines ["import m", "flag F:", " A", "def f():", " x: F = F.A", " y: bool = m.v",
    "def g():", " x: F = (F.A)"] with uri := "" }

/-- The other module. -/
def besideColouring : FileSystem := .ofTable [(⟨"r/m.vy"⟩, "v: bool\n".toUTF8)]

/-- The flag and the two functions, and nothing else that is named like the variant. -/
def coloursVariable (m : Module) : Bool :=
  match m.body with
  | [.importing _, .members e, .function f, .function g] =>
    (e.kind == .flag && e.name == "F" && e.span == ⟨⟨2, 0⟩, ⟨3, 2⟩⟩ &&
      e.body.any fun line => (Node.stmt line).variant? == some "A") &&
    ({ node := .module m } : Site).allBelow (fun s => !(s.node.typeName? == some "A") &&
      !s.declaresConstant "A" && !(s.node.boundName? == some "A")) 8 &&
    (m.site (.function f)).hasOnly (·.node.memberOf? == some ("F", "A")) ⟨⟨5, 8⟩, ⟨5, 11⟩⟩ 8 &&
    (m.site (.function f)).hasOnly (·.node.memberOf? == some ("m", "v")) ⟨⟨6, 11⟩, ⟨6, 14⟩⟩ 8 &&
    (m.site (.function g)).hasOnly (·.node.memberOf? == some ("F", "A")) ⟨⟨8, 9⟩, ⟨8, 12⟩⟩ 8
  | _ => false

/-- The document, in the directory of the other module. -/
def coloured : Analysis :=
  (({} : Analysis).build (.builtIn besideColouring) colouring (some ⟨"r"⟩)).1

theorem ready_coloured : coloured.state = .ready := by
  have hcompiles : Module.compiles colouring.text
      (.fromFiles besideColouring [⟨"r"⟩]) 8 = true := by
    decide +kernel
  exact ready_of_compiles hcompiles

/-- A function of a document that accesses a variant of a flag. -/
structure Accesses (a : Analysis) (m : Module) (g : FunctionDef) (base attr : String)
    (span : Span) : Prop where
  function : .function g ∈ m.body
  unclaimed : a.Unclaimed (m.site (.function g)) attr
  access : ∃ s ∈ (m.site (.function g)).descendants,
    s.node.memberOf? = some (base, attr) ∧ s.span = span

theorem Shows.accesses_of_coloursVariable {m : Module} {text : List Char} (hshows : a.Shows text m)
    (h : coloursVariable m = true) :
    (∃ e f g, m.Offers e "F" "A" ∧ e.span = ⟨⟨2, 0⟩, ⟨3, 2⟩⟩ ∧
      a.Accesses m f "F" "A" ⟨⟨5, 8⟩, ⟨5, 11⟩⟩ ∧ a.Accesses m g "F" "A" ⟨⟨8, 9⟩, ⟨8, 12⟩⟩) ∧
    ∃ s ∈ a.best.sites, s.node.memberOf? = some ("m", "v") ∧ s.span = ⟨⟨6, 11⟩, ⟨6, 14⟩⟩ := by
  unfold coloursVariable at h
  split at h
  · next e f g hbody =>
    simp only [Bool.and_eq_true, beq_iff_eq, List.any_eq_true, and_assoc] at h
    obtain ⟨hkind, hname, hspan, hvariant, hplain, hfirst, hmodule, hsecond⟩ := h
    rw [← hshows.root_eq] at hplain
    have hsites : ∀ s ∈ a.best.sites, s.node.typeName? ≠ some "A" ∧ s.declaresConstant "A" = false ∧
        s.node.boundName? ≠ some "A" := by
      intro s hs
      rw [Tree.sites_eq] at hs
      simpa [and_assoc] using Site.forall_of_allBelow hplain s hs
    have hunclaimed : ∀ g, .function g ∈ m.body → a.Unclaimed (m.site (.function g)) "A" := by
      intro g hg
      refine ⟨List.any_eq_false.mpr fun s hs => ?_, List.any_eq_false.mpr fun s hs => ?_,
        List.any_eq_false.mpr fun s hs => ?_⟩
      · exact fun htype => (hsites s hs).1 (beq_iff_eq.mp htype)
      · exact Bool.eq_false_iff.mp (hsites s hs).2.1
      · have hs := mem_sites_of_mem_descendants (hshows.mem_sites hg) hs
        exact fun hbound => (hsites s hs).2.2 (beq_iff_eq.mp hbound)
    have haccess : ∀ g span, .function g ∈ m.body →
        (m.site (.function g)).hasOnly (·.node.memberOf? == some ("F", "A")) span 8 = true →
        a.Accesses m g "F" "A" span := by
      intro g span hg honly
      obtain ⟨s, hs, hmember, hplace⟩ := Site.exists_of_hasOnly honly
      exact ⟨hg, hunclaimed g hg, s, hs, beq_iff_eq.mp hmember, hplace⟩
    have hf : .function f ∈ m.body := by rw [hbody]; simp
    obtain ⟨s, hs, hmember, hplace⟩ := Site.exists_of_hasOnly hmodule
    refine ⟨⟨e, f, g, ⟨hkind, hname, hvariant, [_], _, hbody, ?_⟩, hspan, haccess f _ hf hfirst,
      haccess g _ (by rw [hbody]; simp) hsecond⟩,
      s, mem_sites_of_mem_descendants (hshows.mem_sites hf) hs, beq_iff_eq.mp hmember, hplace⟩
    rintro ⟨_, _, hmem, -⟩
    simp at hmem
  · cases h

/-- The module that `m` stands for has a variable `v`. -/
theorem import?_coloured : ∃ imported, coloured.tables.import? "m" = some imported ∧
    (imported.function? "v").isSome = false ∧ (imported.var? "v").isSome = true := by
  let offered (imported : ModuleType) : Bool × Bool :=
    ((imported.function? "v").isSome, (imported.var? "v").isSome)
  obtain ⟨parsed, tables, -, hparse, hannotate, -⟩ := state_build_eq_ready.mp ready_coloured
  obtain ⟨-, -, htables⟩ := build_of_annotate hparse hannotate {}
  have hread : (Module.parse colouring.text).toOption.map (fun parsed =>
      (parsed.tree.body.filterMap (·.import?)).map fun i => (i.1,
        (Importer.fromFiles besideColouring [⟨"r"⟩] i.2).toOption.map offered)) =
      some [("m", some (false, true))] := by
    decide +kernel
  rw [hparse] at hread
  have hlisted := congrArg (List.map fun i : String × Except CompileError ModuleType =>
    (i.1, i.2.toOption.map offered)) (Module.drafted_of_annotate hannotate).1.imports
  rw [List.map_map, List.map_map] at hlisted
  obtain ⟨⟨name, imported⟩, himports, himport⟩ :=
    List.map_eq_singleton_iff.mp (hlisted.trans (Option.some.inj hread))
  obtain ⟨rfl, hoffered⟩ := Prod.mk.inj himport
  obtain ⟨hfunction, hvar⟩ := Prod.mk.inj (Option.some.inj hoffered)
  refine ⟨imported, ?_, hfunction, hvar⟩
  rw [show coloured.tables = tables from htables, ModuleType.import?, himports]
  rfl

/-- The variant leads to its flag, and the variable of the other module is shown. -/
theorem dotted_access_coloured :
    coloured.state = .ready ∧
    (∃ s ∈ coloured.best.sites, s.node.memberOf? = some ("F", "A") ∧ s.span = ⟨⟨5, 8⟩, ⟨5, 11⟩⟩) ∧
    coloured.declaration? colouring ⟨4, 10⟩ = some ⟨⟨1, 0⟩, ⟨2, 2⟩⟩ ∧
    coloured.declaration? colouring ⟨4, 11⟩ = some ⟨⟨1, 0⟩, ⟨2, 2⟩⟩ ∧
    coloured.hover? colouring ⟨5, 13⟩ = some "(Module Variable) **m.v**" := by
  have hreads : Module.reads colouring.text coloursVariable = true := by decide +kernel
  obtain ⟨parsed, hparse, hshows, -⟩ := exists_shows_members ready_coloured
  obtain ⟨parsed', hparse', haccess⟩ := dotted_access ready_coloured
  cases hparse.symm.trans hparse'
  rw [Module.reads, hparse] at hreads
  obtain ⟨⟨e, f, g, hoffers, hplace, haccesses, -⟩, v, hv, hvm, hvs⟩ :=
    hshows.accesses_of_coloursVariable hreads
  obtain ⟨hf, hunclaimed, s, hs, hmember, hspan⟩ := haccesses
  have hfs := hshows.mem_sites hf
  have hedge : ∀ {edge : Option Char} (c : Char), edge = some c → isExpressionChar c = false →
      ∀ x ∈ edge, isExpressionChar x = false := by
    rintro _ c rfl hc x ⟨⟩
    exact hc
  have hfound := haccess s (mem_sites_of_mem_descendants hfs hs) "F" "A" hmember (by decide)
    ((Document.ofLines ["import m", "flag F:", " A", "def f():"]).text ++ " x: F = ".toList)
    (Document.ofLines ["", " y: bool = m.v", "def g():", " x: F = (F.A)"]).text (by decide +kernel)
    (by rw [hspan]; decide +kernel)
  have hshown := haccess v hv "m" "v" hvm (by decide)
    ((Document.ofLines ["import m", "flag F:", " A", "def f():", " x: F = F.A"]).text ++
      " y: bool = ".toList)
    (Document.ofLines ["", "def g():", " x: F = (F.A)"]).text (by decide +kernel)
    (by rw [hvs]; decide +kernel)
  have hrange : colouring.utf16Range
      ((parsed.tree.typed colouring.text).site (.members e)).range = ⟨⟨1, 0⟩, ⟨2, 2⟩⟩ := by
    have hspan : ((parsed.tree.typed colouring.text).site (.members e)).span = _ := hplace
    rw [Site.range, hspan]
    decide +kernel
  obtain ⟨imported, himport, hfunction, hvar⟩ := import?_coloured
  dsimp only at hfound hshown
  rw [hspan] at hfound
  have hfirst := (hfound 0 (by decide)).2.1 _ hfs rfl hs (by decide +kernel) hunclaimed
  have hsecond := (hfound 1 (by decide)).2.1 _ hfs rfl hs (by decide +kernel) hunclaimed
  have hthird := (hshown 0 (by decide)).2.2 imported himport
  rw [show colouring.positionAt _ = ⟨4, 10⟩ by decide +kernel] at hfirst
  rw [show colouring.positionAt _ = ⟨4, 11⟩ by decide +kernel] at hsecond
  rw [show colouring.positionAt _ = ⟨5, 13⟩ by decide +kernel] at hthird
  refine ⟨ready_coloured, ⟨s, mem_sites_of_mem_descendants hfs hs, hmember, hspan⟩, ?_, ?_, ?_⟩
  · exact (hfirst.1 e hoffers (by decide +kernel) (hedge ' ' (by decide +kernel) rfl)).trans
      (congrArg some hrange)
  · exact (hsecond.1 e hoffers (by decide +kernel) (hedge ' ' (by decide +kernel) rfl)).trans
      (congrArg some hrange)
  · exact (hthird (by decide +kernel) (hedge ' ' (by decide +kernel) rfl)
      (hedge '\n' (by decide +kernel) rfl)).2 hfunction hvar

/-- In parentheses the same variant leads nowhere. -/
theorem declaration?_coloured :
    coloured.state = .ready ∧ "F" ∈ coloured.enums ∧ "A" ∈ coloured.best.enumVariants "F" ∧
    (∃ f ∈ coloured.best.sites, f.kind = .function ∧ coloured.Unclaimed f "A" ∧
      ∃ s ∈ f.descendants, s.node.memberOf? = some ("F", "A") ∧ s.span = ⟨⟨8, 9⟩, ⟨8, 12⟩⟩) ∧
    coloured.declaration? colouring ⟨7, 11⟩ = none := by
  have hreads : Module.reads colouring.text coloursVariable = true := by decide +kernel
  obtain ⟨parsed, hparse, hshows, hentry⟩ := exists_shows_members ready_coloured
  rw [Module.reads, hparse] at hreads
  obtain ⟨⟨e, f, g, hoffers, -, -, hg, hunclaimed, s, hs, hmember, hspan⟩, -⟩ :=
    hshows.accesses_of_coloursVariable hreads
  obtain ⟨henum, hvariant, -⟩ := hshows.offers hentry hoffers
  have hgs := hshows.mem_sites hg
  obtain ⟨-, -, c, hc⟩ := hshows.seesMember (mem_sites_of_mem_descendants hgs hs) hmember
    ((Document.ofLines ["import m", "flag F:", " A", "def f():", " x: F = F.A", " y: bool = m.v",
      "def g():"]).text ++ " x: F = (".toList) ")\n".toList (by decide +kernel)
    (by rw [hspan]; decide +kernel) (by decide) (k := 0) (by decide)
  rw [show colouring.positionAt _ = ⟨7, 11⟩ by decide +kernel] at hc
  have hcursor : colouring.cursor? ⟨7, 11⟩ = some (" x: F = (F.A)".toList, 11) := by decide +kernel
  have hanswer := hshows.declaration?_unclaimed hc.toSees hunclaimed hgs rfl hs (by rw [hspan])
  refine ⟨ready_coloured, henum, hvariant,
    ⟨_, hgs, rfl, hunclaimed, s, hs, hmember, hspan⟩, hanswer.trans ?_⟩
  have hcallee : calleeStart " x: F = (F.A)".toList 8 = none := by
    rw [calleeStart, show List.dropWhile _ _ = "= F :x ".toList by decide]
    unfold beforeCallee
    decide
  have hopen : unmatchedOpen " x: F = (F.A)".toList 11 = some 8 := by decide
  obtain ⟨rest, hrest⟩ := expressionAt_group hopen (by decide) hcallee
  rw [hc.expression_eq hcursor, hrest, variantOwner?_paren]
  rfl

end Analysis

end Vyper
