import Vyper.Proofs.Precedence

/-!
# Operands without an operator

How the parser reads what stands at the tightest level: names, literals and brackets, and the
trailers after them. Whatever stands between brackets is read by the parser of the next depth, about
which nothing is assumed but that it reads these tokens (`ReadsInside`).
-/

namespace Vyper

namespace Parser

variable {inner : Parser Expr} {ks ls rest : List TokenKind} {e : Expr} {span : Span}

/-- Between brackets the tokens are read as the expression. -/
def ReadsInside (inner : Parser Expr) (ks : List TokenKind) (e : Expr) : Prop :=
  ∀ rest, EndsAt 0 rest → Reads inner ks rest e.Like

theorem endsAt_of_operatorLevel {l : Nat} (h : operatorLevel rest = none) : EndsAt l rest := by
  intro m hm
  rw [h] at hm
  cases hm

/-! ### Atoms -/

theorem reachesAt_of_atom (h : ∀ rest, Reads (atom inner) ks rest e.Like) :
    ReachesAt inner 11 ks e :=
  fun rest _ => (h rest).reaches

theorem reads_nameAtom (id : String) (place : Span) (rest : List TokenKind) :
    Reads (nameAtom id place) [] rest (Expr.name span id).Like := by
  unfold nameAtom
  dsimp only
  split
  · refine (reads_note _ _).look ?_
    intro _ _
    split
    · refine (reads_note _ _).look ?_
      intro _ _
      exact reads_pure (by rfl) rest
    · exact reads_pure (by rfl) rest
  · split
    · refine (reads_note _ _).look ?_
      intro _ _
      exact reads_pure (by rfl) rest
    · exact reads_pure (by rfl) rest

theorem reads_atom_name_of_ne {id : String} (htrue : id ≠ "True") (hfalse : id ≠ "False")
    (rest : List TokenKind) : Reads (atom inner) [.name id] rest (Expr.name span id).Like := by
  refine reads_peek_cons fun place => ?_
  refine (reads_advance (.name id) rest).finish ?_
  intro t _
  rw [if_neg htrue, if_neg hfalse]
  exact reads_nameAtom id place rest

theorem reads_atom_truth (value : Bool) (rest : List TokenKind) :
    Reads (atom inner) [.name (if value then "True" else "False")] rest
      (Expr.truth span value).Like := by
  refine reads_peek_cons fun place => ?_
  refine (reads_advance _ rest).finish ?_
  intro t _
  cases value <;> exact reads_pure (by rfl) rest

theorem reads_atom_numeral (form : Numeral) (text : String) (rest : List TokenKind) :
    Reads (atom inner) [.numeral form text] rest (Expr.numeral span form text).Like := by
  refine reads_peek_cons fun place => ?_
  refine (reads_advance _ rest).finish ?_
  intro t _
  exact reads_pure (by rfl) rest

theorem reads_atom_str {k : TokenKind} {value : String} (h : k = .str value ∨ k = .bytes value)
    (rest : List TokenKind) : Reads (atom inner) [k] rest (Expr.str span value).Like := by
  refine reads_peek_cons fun place => ?_
  rcases h with rfl | rfl
  · refine (reads_advance _ rest).finish ?_
    intro t _
    exact reads_pure (by rfl) rest
  · refine (reads_advance _ rest).finish ?_
    intro t _
    exact reads_pure (by rfl) rest

theorem reads_atom_group (h : ReadsInside inner ks e) (hstart : StartsAt 0 ks)
    (rest : List TokenKind) :
    Reads (atom inner) (.punct .openParen :: (ks ++ [.punct .closeParen])) rest e.Like := by
  refine reads_peek_cons fun place => ?_
  refine (reads_advance (.punct .openParen) _).cons ?_
  intro t _
  have hnext : next (ks ++ [.punct .closeParen] ++ rest) ≠ .punct .closeParen := by
    rw [List.append_assoc, next_append hstart.ne_nil]
    exact hstart.next_ne rfl
  refine (reads_accept_none hnext).look ?_
  rintro _ rfl
  refine (h _ (endsAt_of_operatorLevel rfl)).bind ?_
  intro first hfirst
  refine (reads_accept (.punct .closeParen) rest).finish ?_
  rintro _ ⟨stop, rfl⟩
  exact reads_pure (by exact hfirst) rest

section Lists

variable {es : List Expr}

theorem follow_of_operatorLevel (h : operatorLevel rest = none) (hne : next rest ≠ .punct .comma) :
    Follow (EndsAt 0) rest :=
  ⟨fun _ => endsAt_of_operatorLevel rfl, endsAt_of_operatorLevel h, hne⟩

/-- Whatever stands between the brackets, it is the elements of a list. -/
theorem reads_atom_list_of_bracketed
    (h : Reads (bracketed .closeBracket inner) ks rest fun r =>
      r.1.map Expr.unplaced = es.map Expr.unplaced) :
    Reads (atom inner) (.punct .openBracket :: ks) rest (Expr.list span es).Like := by
  refine reads_peek_cons fun place => ?_
  refine (reads_advance _ _).cons ?_
  intro t _
  refine h.finish ?_
  rintro ⟨elements, stop⟩ helements
  refine reads_pure ?_ rest
  change Expr.list _ (Expr.unplacedAll elements) = Expr.list _ (Expr.unplacedAll es)
  rw [Expr.unplacedAll_eq, Expr.unplacedAll_eq, helements]

theorem reads_atom_unit (rest : List TokenKind) :
    Reads (atom inner) [.punct .openParen, .punct .closeParen] rest (Expr.tuple span []).Like := by
  refine reads_peek_cons fun place => ?_
  refine (reads_advance _ _).cons ?_
  intro t _
  refine (reads_accept (.punct .closeParen) rest).finish ?_
  rintro _ ⟨stop, rfl⟩
  exact reads_pure (by rfl) rest

/-- A tuple in parentheses: a comma after its first element, and then what is left of it. -/
theorem reads_atom_tuple_of_commaList {first : Expr} (hstart : StartsAt 0 ks)
    (hfirst : ReadsInside inner ks first)
    (hmore : Reads (commaList (· == .punct .closeParen) inner) ls (.punct .closeParen :: rest)
      fun as => as.map Expr.unplaced = es.map Expr.unplaced) :
    Reads (atom inner) (.punct .openParen ::
      (ks ++ (.punct .comma :: (ls ++ [.punct .closeParen]))))
      rest (Expr.tuple span (first :: es)).Like := by
  refine reads_peek_cons fun place => ?_
  refine (reads_advance _ _).cons ?_
  intro t _
  have hnext : ∀ more, next (ks ++ more) ≠ .punct .closeParen := by
    intro more
    rw [next_append hstart.ne_nil]
    exact hstart.next_ne rfl
  refine (reads_accept_none (by rw [List.append_assoc]; exact hnext _)).look ?_
  rintro _ rfl
  refine (hfirst _ (endsAt_of_operatorLevel rfl)).bind ?_
  intro a ha
  refine (reads_accept_none (next_cons_ne (by decide) _)).look ?_
  rintro _ rfl
  refine (reads_accept (.punct .comma) _).cons ?_
  rintro _ ⟨comma, rfl⟩
  refine hmore.bind ?_
  intro more hmore
  refine (reads_expect (.punct .closeParen) _ rest).finish ?_
  intro stop _
  refine reads_pure ?_ rest
  change Expr.tuple _ (Expr.unplacedAll (a :: more)) = Expr.tuple _ (Expr.unplacedAll (first :: es))
  rw [Expr.unplacedAll_eq, Expr.unplacedAll_eq, List.map_cons, hmore, ha]
  rfl

theorem reads_entry {key value : Expr} (hkey : ReadsInside inner ks key)
    (hvalue : ReadsInside inner ls value) (hrest : EndsAt 0 rest) :
    Reads (entry inner) (ks ++ (.punct .colon :: ls)) rest
      fun r => r.unplaced = (Entry.mk key value).unplaced := by
  refine (hkey _ (endsAt_of_operatorLevel rfl)).bind ?_
  intro k hk
  refine (reads_expect (.punct .colon) _ _).cons ?_
  intro colon _
  refine (hvalue rest hrest).finish ?_
  intro v hv
  refine reads_pure ?_ rest
  change Entry.mk k.unplaced v.unplaced = Entry.mk key.unplaced value.unplaced
  rw [hk, hv]

theorem reads_atom_dict_of_bracketed {entries : List Entry}
    (h : Reads (bracketed .closeBrace (entry inner)) ks rest fun r =>
      r.1.map Entry.unplaced = entries.map Entry.unplaced) :
    Reads (atom inner) (.punct .openBrace :: ks) rest (Expr.dict span entries).Like := by
  refine reads_peek_cons fun place => ?_
  refine (reads_advance _ _).cons ?_
  intro t _
  refine h.finish ?_
  rintro ⟨found, stop⟩ hfound
  refine reads_pure ?_ rest
  change Expr.dict _ (Entry.unplacedAll found) = Expr.dict _ (Entry.unplacedAll entries)
  rw [Entry.unplacedAll_eq, Entry.unplacedAll_eq, hfound]

end Lists

/-! ### Trailers -/

/-- Every operator is followed by a trailer. -/
theorem endsAt_trailer (rest : List TokenKind) : EndsAt 12 rest := by
  intro m hm
  unfold operatorLevel at hm
  split at hm
  case h_4 => split at hm <;> cases hm; decide
  case h_6 => next op _ => cases hm; cases op <;> decide
  all_goals
    cases hm
    try decide

/-- One trailer is read in one round of the loop over them. -/
theorem ReachesAt.trailer {value longer : Expr} (h : ReachesAt inner 11 ks value) (hne : ls ≠ [])
    (htrailer : ∀ a rest, value.Like a →
      Reads (trailer inner a) ls rest fun o => ∃ b, o = some b ∧ longer.Like b) :
    ReachesAt inner 11 (ks ++ ls) longer := by
  intro rest _
  refine (h _ (endsAt_trailer _)).step ?_
  intro n a hn ha s hs hlen
  have hpos := List.length_pos_iff.2 hne
  rw [List.length_append] at hn
  obtain ⟨m, rfl⟩ : ∃ m, n = m + 1 := ⟨n - 1, by omega⟩
  obtain ⟨_, t, htr, ht, hlimit, b, rfl, hb⟩ := htrailer a rest ha s hs hlen
  exact ⟨b, t, m, bind_eq_of_ok htr, ht, hlimit, by omega, hb⟩

theorem reads_trailer_member {value a : Expr} (ha : value.Like a) (attr : String)
    (rest : List TokenKind) :
    Reads (trailer inner a) [.punct .dot, .name attr] rest
      fun o => ∃ b, o = some b ∧ (Expr.member span value attr).Like b := by
  refine reads_peekKind_cons ?_
  refine (reads_advance _ _).cons ?_
  intro t _
  refine (reads_identifier attr rest).finish ?_
  rintro ⟨found, stop⟩ hfound
  refine reads_pure ⟨_, rfl, ?_⟩ rest
  change Expr.member _ a.unplaced found = Expr.member _ value.unplaced attr
  rw [ha, show found = attr from hfound]

/-- What may follow an argument of a call. -/
def EndsArgument (rest : List TokenKind) : Prop := EndsAt 0 rest ∧ next rest ≠ .punct .assign

theorem next_tail_append {ks rest : List TokenKind} {k : TokenKind} (hne : ks ≠ [])
    (hks : next ks.tail ≠ k) (hrest : next rest ≠ k) : next (ks ++ rest).tail ≠ k := by
  rcases ks with _ | ⟨k, _ | ⟨k', ks⟩⟩
  · exact absurd rfl hne
  · exact hrest
  · exact hks

/-- An argument without its places. -/
def argumentView : Expr ⊕ Keyword → Expr ⊕ Keyword := Sum.map Expr.unplaced Keyword.unplaced

theorem reads_argument_positional (hstart : StartsAt 0 ks) (h : ReadsInside inner ks e)
    (hrest : EndsArgument rest) :
    Reads (argument inner) ks rest fun r => argumentView r = .inl e.unplaced := by
  have hassign : next (ks ++ rest).tail ≠ .punct .assign :=
    next_tail_append hstart.ne_nil hstart.second hrest.2
  refine (reads_peekKind _).look ?_
  rintro _ rfl
  refine (reads_peekSecond _).look ?_
  rintro _ rfl
  split
  · next heq => exact absurd heq hassign
  · refine (h rest hrest.1).finish ?_
    intro a ha
    exact reads_pure (by exact congrArg Sum.inl ha) rest

theorem reads_argument_keyword {value : Expr} (name : String) (h : ReadsInside inner ks value)
    (hrest : EndsArgument rest) :
    Reads (argument inner) (.name name :: .punct .assign :: ks) rest
      fun r => argumentView r = .inr (Keyword.mk span name value).unplaced := by
  refine reads_peekKind_cons ?_
  refine (reads_peekSecond _).look ?_
  rintro _ rfl
  refine (reads_identifier name _).cons ?_
  rintro ⟨found, place⟩ hfound
  refine (reads_advance (.punct .assign) _).cons ?_
  intro t _
  refine (h rest hrest.1).finish ?_
  intro a ha
  refine reads_pure ?_ rest
  change Sum.inr (Keyword.mk _ found a.unplaced) = Sum.inr (Keyword.mk _ name value.unplaced)
  rw [ha, show found = name from hfound]

/-! A call lists its positional arguments first, then the named ones. -/

section Call

variable {args : List Expr} {keywords : List Keyword}

theorem filterMap_getLeft_view (as : List (Expr ⊕ Keyword)) :
    (as.map argumentView).filterMap Sum.getLeft? =
      (as.filterMap Sum.getLeft?).map Expr.unplaced := by
  rw [List.filterMap_map, List.map_filterMap]
  congr 1
  funext a
  cases a <;> rfl

theorem filterMap_getRight_view (as : List (Expr ⊕ Keyword)) :
    (as.map argumentView).filterMap Sum.getRight? =
      (as.filterMap Sum.getRight?).map Keyword.unplaced := by
  rw [List.filterMap_map, List.map_filterMap]
  congr 1
  funext a
  cases a <;> rfl

/-- The arguments of a call in the order they are written. -/
def argumentsOf (args : List Expr) (keywords : List Keyword) : List (Expr ⊕ Keyword) :=
  args.map .inl ++ keywords.map .inr

theorem getLeft_argumentsOf : (argumentsOf args keywords).filterMap Sum.getLeft? = args := by
  have hargs : (args.map (Sum.inl : Expr → Expr ⊕ Keyword)).filterMap Sum.getLeft? = args := by
    rw [List.filterMap_map]
    exact List.filterMap_some
  have hkeywords :
      (keywords.map (Sum.inr : Keyword → Expr ⊕ Keyword)).filterMap Sum.getLeft? = [] := by
    rw [List.filterMap_map]
    exact List.filterMap_eq_nil_iff.2 fun _ _ => rfl
  rw [argumentsOf, List.filterMap_append, hargs, hkeywords, List.append_nil]

theorem getRight_argumentsOf : (argumentsOf args keywords).filterMap Sum.getRight? = keywords := by
  have hargs : (args.map (Sum.inl : Expr → Expr ⊕ Keyword)).filterMap Sum.getRight? = [] := by
    rw [List.filterMap_map]
    exact List.filterMap_eq_nil_iff.2 fun _ _ => rfl
  have hkeywords :
      (keywords.map (Sum.inr : Keyword → Expr ⊕ Keyword)).filterMap Sum.getRight? = keywords := by
    rw [List.filterMap_map]
    exact List.filterMap_some
  rw [argumentsOf, List.filterMap_append, hargs, hkeywords, List.nil_append]

/-- Whatever stands between the parentheses, it is the arguments of a call. -/
theorem reads_trailer_call_of_bracketed {func a : Expr} {arguments : List (Expr ⊕ Keyword)}
    (ha : func.Like a)
    (h : Reads (bracketed .closeParen (argument inner)) ks rest fun r =>
      r.1.map argumentView = arguments.map argumentView) :
    Reads (trailer inner a) (.punct .openParen :: ks) rest
      fun o => ∃ b, o = some b ∧ (Expr.call span func (arguments.filterMap Sum.getLeft?)
        (arguments.filterMap Sum.getRight?)).Like b := by
  refine reads_peekKind_cons ?_
  refine (reads_advance _ _).cons ?_
  intro t _
  refine h.finish ?_
  rintro ⟨found, stop⟩ hfound
  have hleft := congrArg (List.filterMap Sum.getLeft?) hfound
  have hright := congrArg (List.filterMap Sum.getRight?) hfound
  rw [filterMap_getLeft_view, filterMap_getLeft_view] at hleft
  rw [filterMap_getRight_view, filterMap_getRight_view] at hright
  refine reads_pure ⟨_, rfl, ?_⟩ rest
  change Expr.call _ a.unplaced (Expr.unplacedAll _) (Keyword.unplacedAll _) =
    Expr.call _ func.unplaced (Expr.unplacedAll _) (Keyword.unplacedAll _)
  rw [Expr.unplacedAll_eq, Expr.unplacedAll_eq, Keyword.unplacedAll_eq, Keyword.unplacedAll_eq,
    hleft, hright, ha]

/-- What may follow an argument, a comma and a closing bracket may. -/
theorem endsArgument_punct {p : Punct} (hlevel : operatorLevel (.punct p :: ks) = none)
    (hp : p ≠ .assign) : EndsArgument (.punct p :: ks) :=
  ⟨endsAt_of_operatorLevel hlevel, next_cons_ne (fun heq => hp (by cases heq; rfl)) ks⟩

end Call

/-- What stands between the brackets of a subscript is read up to the closing one. -/
theorem reads_trailer_subscript {value slice a : Expr} (ha : value.Like a)
    (h : ∀ rest, Reads (expressionList inner) ks (.punct .closeBracket :: rest) slice.Like)
    (rest : List TokenKind) :
    Reads (trailer inner a) (.punct .openBracket :: (ks ++ [.punct .closeBracket])) rest
      fun o => ∃ b, o = some b ∧ (Expr.subscript span value slice).Like b := by
  refine reads_peekKind_cons ?_
  refine (reads_advance _ _).cons ?_
  intro t _
  refine (h rest).bind ?_
  intro found hfound
  refine (reads_expect (.punct .closeBracket) _ rest).finish ?_
  intro stop _
  refine reads_pure ⟨_, rfl, ?_⟩ rest
  change Expr.subscript _ a.unplaced found.unplaced =
    Expr.subscript _ value.unplaced slice.unplaced
  rw [ha, hfound]

theorem reads_expressionList_one (h : ReadsInside inner ks e) (hlevel : operatorLevel rest = none)
    (hnext : next rest ≠ .punct .comma) : Reads (expressionList inner) ks rest e.Like := by
  refine (h rest (endsAt_of_operatorLevel hlevel)).finish ?_
  intro a ha
  refine (reads_accept_none hnext).finish ?_
  rintro _ rfl
  exact reads_pure (by exact ha) rest

/-- Elements without brackets around them are a tuple. -/
theorem reads_expressionList_of_commaList {first : Expr} {es : List Expr}
    (hfirst : ReadsInside inner ks first)
    (hmore : Reads (commaList (fun kind => kind.endsLine || kind == .punct .assign) inner) ls rest
      fun as => as.map Expr.unplaced = es.map Expr.unplaced) :
    Reads (expressionList inner) (ks ++ (.punct .comma :: ls)) rest
      (Expr.tuple span (first :: es)).Like := by
  refine (hfirst _ (endsAt_of_operatorLevel rfl)).bind ?_
  intro a ha
  refine (reads_accept (.punct .comma) _).cons ?_
  rintro _ ⟨comma, rfl⟩
  refine hmore.finish ?_
  intro more hmore
  refine reads_pure ?_ rest
  change Expr.tuple _ (Expr.unplacedAll (a :: more)) = Expr.tuple _ (Expr.unplacedAll (first :: es))
  rw [Expr.unplacedAll_eq, Expr.unplacedAll_eq, List.map_cons, hmore, ha]
  rfl

theorem endsLine_of_opens {k : TokenKind} (h : opensExpression k = true) :
    (k.endsLine || k == .punct .assign) = false := by
  cases k <;> simp_all [TokenKind.endsLine, opensExpression]
  rintro rfl
  simp at h

/-! ### How tokens begin -/

section Starts

variable {l : Nat}

theorem StartsAt.next_ne_assign (h : StartsAt l ks) : next ks ≠ .punct .assign := h.next_ne rfl

theorem StartsAt.append (h : StartsAt l ks) (hls : next ls ≠ .punct .assign) :
    StartsAt l (ks ++ ls) := by
  have hnext := next_append h.ne_nil ls
  refine ⟨?_, next_tail_append h.ne_nil h.second hls, ?_, ?_⟩
  · rw [hnext]
    exact h.opens
  · rw [hnext]
    exact h.not
  · rw [hnext]
    exact h.sign

theorem startsAt_open {p : Punct} (hp : p ∈ [.openParen, .openBracket, .openBrace])
    (hks : next ks ≠ .punct .assign) : StartsAt l (.punct p :: ks) := by
  refine ⟨?_, hks, nofun, fun _ => ?_⟩
  · revert hp
    simp only [List.mem_cons, List.not_mem_nil, or_false]
    rintro (rfl | rfl | rfl) <;> rfl
  · revert hp
    simp only [List.mem_cons, List.not_mem_nil, or_false]
    rintro (rfl | rfl | rfl) <;> rfl

end Starts

end Parser

end Vyper
