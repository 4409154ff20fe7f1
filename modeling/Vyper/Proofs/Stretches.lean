import Vyper.Proofs.Brackets
import Vyper.Proofs.WordBoundaries

/-!
# A stretch of a text on its own

Where a lexeme ends can depend on the characters behind it, but only on whether they belong to it.
So a stretch of a text that ends with a token is cut in the same way when a closing parenthesis or
nothing comes behind it (`Lexeme.Cuts.swap`). Between brackets the line feeds in it leave no trace
(`Layout.tokens_cuts`).
-/

namespace Vyper

namespace Lexeme

/-- A text that ends every token before it. -/
def Ending (text : List Char) : Prop := ∀ c ∈ text.head?, c = ')'

theorem ending_nil : Ending [] := by
  rintro _ ⟨⟩

theorem ending_paren (more : List Char) : Ending (')' :: more) := by
  rintro _ ⟨⟩
  rfl

variable {c : Char} {cs cs' v after after' : List Char}

/-! ### What comes behind a lexeme -/

theorem Ending.stops {p : Char → Bool} (h : Ending after') (hp : p ')' = false) :
    ∀ d ∈ after'.head?, p d = false := by
  intro d hd
  rw [h d hd, hp]

theorem run_swap {first : List Char} {p : Char → Bool} {make : List Char → Lexeme}
    (hrest : (run first p cs make).rest = v ++ after)
    (hcs : first ++ cs' = (run first p cs make).text ++ (v ++ after'))
    (hstop : v = [] → ∀ d ∈ after'.head?, p d = false) :
    run first p cs' make = { run first p cs make with rest := v ++ after' } := by
  obtain rfl : cs' = cs.takeWhile p ++ (v ++ after') := by
    rw [run, List.append_assoc] at hcs
    exact List.append_cancel_left hcs
  refine run_append_of_stop first make (List.all_eq_true.mp List.all_takeWhile) ?_
  cases v with
  | nil => exact hstop rfl
  | cons d v =>
    have hhead := List.head?_dropWhile_not p cs
    change cs.dropWhile p = d :: (v ++ after) at hrest
    rw [hrest] at hhead
    simpa using hhead

theorem continuationCut_swap (hrest : (continuationCut cs).rest = v ++ after)
    (hcs : '\\' :: cs' = (continuationCut cs).text ++ (v ++ after'))
    (hgood : ∀ fault, (continuationCut cs).lexeme ≠ .bad fault) :
    continuationCut cs' = { continuationCut cs with rest := v ++ after' } := by
  revert hrest hcs hgood
  fun_cases continuationCut cs with
  | case1 rest =>
    rintro - ⟨⟩ -
    rfl
  | case2 rest =>
    rintro - ⟨⟩ -
    rfl
  | case3 => exact fun _ _ hgood => absurd rfl (hgood _)

section Quotes

open StringLiteral (quotes splitBody)

variable {opener body rest : List Char} {q : Char} {make : String → TokenKind} {triple : Bool}

theorem quotedCut_of_splitBody (htriple : [q, q].isPrefixOf cs = triple)
    (h : splitBody triple (quotes triple q) (cs.drop (quotes triple q).tail.length) =
      some (body, rest)) :
    quotedCut opener q cs make = ⟨.token (make (String.ofList (StringLiteral.unescape body))),
      opener ++ (quotes triple q).tail ++ body ++ quotes triple q, rest⟩ := by
  subst htriple
  unfold quotedCut
  cases htriple : [q, q].isPrefixOf cs with
  | false =>
    simp only [htriple, quotes, Bool.false_eq_true, if_false, List.tail_cons] at h ⊢
    rw [h]
  | true =>
    simp only [htriple, quotes, if_true, List.tail_cons] at h ⊢
    rw [h]

theorem exists_of_quotedCut (hgood : ∀ fault, (quotedCut opener q cs make).lexeme ≠ .bad fault) :
    ∃ triple body rest, [q, q].isPrefixOf cs = triple ∧
      splitBody triple (quotes triple q) (cs.drop (quotes triple q).tail.length) =
        some (body, rest) := by
  cases hbody : splitBody ([q, q].isPrefixOf cs) (quotes ([q, q].isPrefixOf cs) q)
      (cs.drop (quotes ([q, q].isPrefixOf cs) q).tail.length) with
  | some r => exact ⟨_, r.1, r.2, rfl, hbody⟩
  | none =>
    refine absurd ?_ (hgood .unterminatedString)
    unfold quotedCut
    cases htriple : [q, q].isPrefixOf cs with
    | false =>
      simp only [htriple, quotes, Bool.false_eq_true, if_false, List.tail_cons] at hbody ⊢
      rw [hbody]
    | true =>
      simp only [htriple, quotes, if_true, List.tail_cons] at hbody ⊢
      rw [hbody]

/-- Whether a literal has three quotes shows before its end, or right behind it. -/
theorem isPrefixOf_swap (hq : isQuote q = true) (hend : Ending after')
    (h : [q, q].isPrefixOf (body ++ q :: (v ++ after)) = false) :
    [q, q].isPrefixOf (body ++ q :: (v ++ after')) = false := by
  rcases body with _ | ⟨b, _ | ⟨b', body⟩⟩
  · cases v with
    | nil =>
      cases after' with
      | nil => simp [List.isPrefixOf]
      | cons d more =>
        obtain rfl : d = ')' := hend d rfl
        simpa [List.isPrefixOf] using fun h : q = ')' => absurd hq (by rw [h]; decide)
    | cons d v => simpa [List.isPrefixOf] using h
  · simpa [List.isPrefixOf] using h
  · simpa [List.isPrefixOf] using h

theorem quotedCut_swap (hq : isQuote q = true)
    (hrest : (quotedCut opener q cs make).rest = v ++ after)
    (hcs : opener ++ cs' = (quotedCut opener q cs make).text ++ (v ++ after'))
    (hend : Ending after') (hgood : ∀ fault, (quotedCut opener q cs make).lexeme ≠ .bad fault) :
    quotedCut opener q cs' make = { quotedCut opener q cs make with rest := v ++ after' } := by
  obtain ⟨triple, body, rest, htriple, hbody⟩ := exists_of_quotedCut hgood
  rw [quotedCut_of_splitBody htriple hbody] at hrest hcs ⊢
  obtain rfl : rest = v ++ after := hrest
  obtain rfl : cs' = (quotes triple q).tail ++ body ++ quotes triple q ++ (v ++ after') := by
    simpa using hcs
  have hsplit := StringLiteral.splitBody_append_append hq hbody (v ++ after')
  refine quotedCut_of_splitBody ?_ ?_
  · cases triple with
    | true => simp [quotes]
    | false =>
      have hown := StringLiteral.append_of_splitBody hbody
      simp only [quotes, Bool.false_eq_true, if_false, List.tail_cons, List.length_nil,
        List.drop_zero] at hown
      rw [← hown] at htriple
      simpa [quotes] using isPrefixOf_swap hq hend (by simpa using htriple)
  · rwa [List.append_assoc, List.append_assoc, List.drop_left, ← List.append_assoc]

end Quotes

theorem decimalCut_int {w rest : List Char} (hw : ∀ x ∈ w, isDigitOrBar x = true)
    (hrest : ∀ x ∈ rest.head?, isDigitOrBar x = false)
    (hpoint : ∀ d ds, rest = '.' :: d :: ds → d.isDigit = false) :
    decimalCut c (w ++ rest) = ⟨numeralToken .int (c :: w), c :: w, rest⟩ := by
  rw [decimalCut]
  simp only [takeWhile_append_of_stop hw hrest, dropWhile_append_of_stop hw hrest]
  split
  · next d ds => rw [hpoint d ds rfl, if_neg Bool.false_ne_true]
  · rfl

theorem decimalCut_swap (hrest : (decimalCut c cs).rest = v ++ after)
    (hcs : c :: cs' = (decimalCut c cs).text ++ (v ++ after')) (hend : Ending after') :
    decimalCut c cs' = { decimalCut c cs with rest := v ++ after' } := by
  have hdigits : ∀ x ∈ cs.takeWhile isDigitOrBar, isDigitOrBar x = true :=
    List.all_eq_true.mp List.all_takeWhile
  have hint : cs.dropWhile isDigitOrBar = v ++ after →
      c :: cs' = c :: cs.takeWhile isDigitOrBar ++ (v ++ after') →
      (∀ d ds, v ++ after = '.' :: d :: ds → d.isDigit = false) →
      decimalCut c cs' = ⟨numeralToken .int (c :: cs.takeWhile isDigitOrBar),
        c :: cs.takeWhile isDigitOrBar, v ++ after'⟩ := by
    intro hrest hcs hpoint
    obtain rfl : cs' = cs.takeWhile isDigitOrBar ++ (v ++ after') := by simpa using hcs
    refine decimalCut_int hdigits ?_ ?_
    · cases v with
      | nil => exact hend.stops (by decide)
      | cons d v =>
        have hhead := List.head?_dropWhile_not isDigitOrBar cs
        rw [hrest] at hhead
        simpa using hhead
    · intro d ds hds
      rcases v with _ | ⟨x, _ | ⟨y, v⟩⟩
      · rw [List.nil_append] at hds
        cases hend '.' (by rw [hds]; rfl)
      · rw [List.cons_append, List.nil_append] at hds
        obtain ⟨-, hafter⟩ := List.cons.inj hds
        rw [hend d (by rw [hafter]; rfl)]
        decide
      · obtain ⟨rfl, hmore⟩ := List.cons.inj hds
        obtain ⟨rfl, -⟩ := List.cons.inj hmore
        exact hpoint y (v ++ after) rfl
  revert hrest hcs
  fun_cases decimalCut c cs with
  | case1 whole rest d ds hpoint hd =>
    intro hrest hcs
    have hpart : ∀ x ∈ ('.' :: d :: (ds.takeWhile isDigitOrBar ++ (v ++ after'))).head?,
        isDigitOrBar x = false := by
      rintro x ⟨⟩
      decide
    obtain rfl : cs' = cs.takeWhile isDigitOrBar ++
        '.' :: d :: (ds.takeWhile isDigitOrBar ++ (v ++ after')) := by
      simpa [run, whole] using hcs
    rw [decimalCut]
    simp only [takeWhile_append_of_stop hdigits hpart, dropWhile_append_of_stop hdigits hpart,
      hd, if_true]
    exact run_swap hrest (by simp [run]) fun _ => hend.stops (by decide)
  | case2 whole rest d ds hpoint hd =>
    intro hrest hcs
    refine hint hrest hcs fun e es hes => ?_
    rw [← hrest, hpoint] at hes
    cases hes
    simpa using hd
  | case3 whole rest hpoint =>
    intro hrest hcs
    refine hint hrest hcs fun e es hes => ?_
    rw [← hrest] at hes
    exact absurd hes (hpoint e es)

/-- Behind its first digit a decimal number goes on with a digit or a point. -/
theorem tail_decimalCut (c : Char) (cs : List Char) :
    ∃ tail, (decimalCut c cs).text = c :: tail ∧
      ∀ d ∈ tail.head?, isDigitOrBar d = true ∨ d = '.' := by
  have hwhole : ∀ d ∈ (cs.takeWhile isDigitOrBar).head?, isDigitOrBar d = true ∨ d = '.' :=
    fun d hd => .inl (List.all_eq_true.mp List.all_takeWhile d (List.mem_of_mem_head? hd))
  have hdigits : ∀ {more : List Char}, (∀ d ∈ more.head?, d = '.') →
      ∀ d ∈ (cs.takeWhile isDigitOrBar ++ more).head?, isDigitOrBar d = true ∨ d = '.' := by
    intro more hmore d hd
    rw [List.head?_append, Option.mem_def, Option.or_eq_some_iff] at hd
    rcases hd with hd | ⟨-, hd⟩
    · exact hwhole d hd
    · exact .inr (hmore d hd)
  fun_cases decimalCut c cs with
  | case1 whole rest d ds hpoint hd =>
    refine ⟨cs.takeWhile isDigitOrBar ++ '.' :: d ::
      ds.takeWhile isDigitOrBar, by simp [run, whole], hdigits ?_⟩
    rintro d ⟨⟩
    rfl
  | case2 whole => exact ⟨_, rfl, hwhole⟩
  | case3 whole => exact ⟨_, rfl, hwhole⟩

theorem numberCut_eq (h : ∀ x y ys, cs = x :: y :: ys →
      (c == '0' && (x == 'x' || x == 'X') && isHexOrBar y) = false) :
    numberCut c cs = decimalCut c cs := by
  unfold numberCut
  split
  · next x y ys => rw [h x y ys rfl, if_neg Bool.false_ne_true]
  · rfl

theorem numberCut_swap (hrest : (numberCut c cs).rest = v ++ after)
    (hcs : c :: cs' = (numberCut c cs).text ++ (v ++ after')) (hend : Ending after') :
    numberCut c cs' = { numberCut c cs with rest := v ++ after' } := by
  by_cases hhex : ∃ x y ys, cs = x :: y :: ys ∧
      (c == '0' && (x == 'x' || x == 'X') && isHexOrBar y) = true
  · obtain ⟨x, y, ys, rfl, hhex⟩ := hhex
    simp only [numberCut, hhex, if_true] at hrest hcs ⊢
    obtain ⟨ys', rfl⟩ : ∃ ys', cs' = x :: y :: ys' := by
      simp only [run, List.cons_append, List.cons.injEq, true_and] at hcs
      exact ⟨_, hcs⟩
    simp only [hhex, if_true]
    exact run_swap hrest hcs fun _ => hend.stops (by decide)
  · have hdecimal : ∀ x y ys, cs = x :: y :: ys →
        (c == '0' && (x == 'x' || x == 'X') && isHexOrBar y) = false := by
      intro x y ys hxs
      rw [← Bool.not_eq_true]
      exact fun h => hhex ⟨x, y, ys, hxs, h⟩
    rw [numberCut_eq hdecimal] at hrest hcs ⊢
    rw [numberCut_eq, decimalCut_swap hrest hcs hend]
    rintro x y ys rfl
    rw [← Bool.not_eq_true]
    intro hcond
    have hx : x = 'x' ∨ x = 'X' := by
      simp only [Bool.and_eq_true, Bool.or_eq_true, beq_iff_eq] at hcond
      exact hcond.1.2
    obtain ⟨tail, htext, htail⟩ := tail_decimalCut c cs
    have happend := decimalCut_append c cs
    rw [htext, hrest] at happend
    rw [htext] at hcs
    cases tail with
    | cons d tail =>
      obtain ⟨rfl, -⟩ := List.cons.inj (List.cons.inj hcs).2
      rcases htail x rfl with h | h <;> rcases hx with rfl | rfl <;> revert h <;> decide
    | nil =>
      have hnew : x :: y :: ys = v ++ after' := (List.cons.inj hcs).2
      have hold : v ++ after = cs := (List.cons.inj happend).2
      rcases v with _ | ⟨a, _ | ⟨b, v⟩⟩
      · rw [List.nil_append] at hnew
        have hclose := hend x (by rw [← hnew]; rfl)
        rcases hx with rfl | rfl <;> cases hclose
      · obtain ⟨-, hmore : y :: ys = after'⟩ := List.cons.inj hnew
        obtain rfl := hend y (by rw [← hmore]; rfl)
        simp [show isHexOrBar ')' = false by decide] at hcond
      · obtain ⟨rfl, hmore⟩ := List.cons.inj hnew
        obtain ⟨rfl, -⟩ := List.cons.inj hmore
        rw [hdecimal x y (v ++ after) hold.symm] at hcond
        cases hcond

theorem prefix_quotedCut (opener : List Char) (q : Char) (cs : List Char)
    (make : String → TokenKind) : opener <+: (quotedCut opener q cs make).text := by
  unfold quotedCut
  dsimp only
  split
  · simp
  · exact List.prefix_refl opener

theorem isQuote_eq_false_of_isWordPart (h : isWordPart c = true) : isQuote c = false := by
  have hne : ∀ d, isWordPart d = false → (c == d) = false := fun d => beq_eq_false_of_class h
  simp [isQuote, hne '"' (by decide), hne '\'' (by decide)]

theorem wordCut_swap (hrest : (wordCut c cs).rest = v ++ after)
    (hcs : c :: cs' = (wordCut c cs).text ++ (v ++ after')) (hend : Ending after')
    (hgood : ∀ fault, (wordCut c cs).lexeme ≠ .bad fault) :
    wordCut c cs' = { wordCut c cs with rest := v ++ after' } := by
  revert hrest hcs hgood
  fun_cases wordCut c cs with
  | case1 q rest hq =>
    intro hrest hcs hgood
    obtain ⟨more, hmore⟩ := prefix_quotedCut [c, q] q rest .bytes
    obtain ⟨rest', rfl⟩ : ∃ rest', cs' = q :: rest' := by
      rw [← hmore] at hcs
      exact ⟨_, (List.cons.inj hcs).2⟩
    rw [wordCut, if_pos hq]
    exact quotedCut_swap (Bool.and_eq_true _ _ ▸ hq).2 hrest hcs hend hgood
  | case2 q rest hq =>
    intro hrest hcs _
    have hrun := run_swap hrest hcs fun _ => hend.stops (by decide)
    cases cs' with
    | nil => exact hrun
    | cons q' rest' =>
      have hquote : ¬((c == 'b' || c == 'x') && isQuote q') = true := by
        rw [run, List.cons_append, List.nil_append] at hcs
        have hnew := (List.cons.inj hcs).2
        cases hword : (q :: rest).takeWhile isWordPart with
        | cons d word =>
          rw [hword] at hnew
          obtain ⟨rfl, -⟩ := List.cons.inj hnew
          have hd : isWordPart q' = true :=
            List.all_eq_true.mp List.all_takeWhile q' (by rw [hword]; exact List.mem_cons_self)
          have hno := isQuote_eq_false_of_isWordPart hd
          simp [hno]
        | nil =>
          have hold : q :: rest = v ++ after := by
            have happend := List.takeWhile_append_dropWhile (p := isWordPart) (l := q :: rest)
            rw [hword, List.nil_append] at happend
            exact happend.symm.trans hrest
          rw [hword] at hnew
          have hnew : q' :: rest' = v ++ after' := hnew
          cases v with
          | nil =>
            rw [List.nil_append] at hnew
            obtain rfl := hend q' (by rw [← hnew]; rfl)
            simp [show isQuote ')' = false by decide]
          | cons d v =>
            obtain ⟨rfl, -⟩ := List.cons.inj hold
            obtain ⟨rfl, -⟩ := List.cons.inj hnew
            exact hq
      rw [wordCut, if_neg hquote, hrun]
  | case3 =>
    intro hrest hcs _
    obtain ⟨rfl, -⟩ := List.append_eq_nil_iff.mp hrest.symm
    obtain rfl : cs' = after' := by simpa using hcs
    cases cs' with
    | nil => rfl
    | cons d more =>
      obtain rfl := hend d rfl
      rw [wordCut, if_neg (by simp [show isQuote ')' = false by decide])]
      simp [run, show isWordPart ')' = false by decide]

end Lexeme

/-- What is longer than a symbol and begins with it goes on into the text behind it. -/
theorem Punct.scan_swap {p : Punct} {v after after' : List Char}
    (h : scan (p.text.toList ++ (v ++ after)) = some (p, v ++ after))
    (hend : Lexeme.Ending after') :
    scan (p.text.toList ++ (v ++ after')) = some (p, v ++ after') := by
  obtain ⟨before, q, others, hsplit, hq, hbefore⟩ := List.findSome?_eq_some_iff.1 h
  obtain rfl : q = p := by
    split at hq
    · exact congrArg Prod.fst (Option.some.inj hq)
    · cases hq
  refine List.findSome?_eq_some_iff.2 ⟨before, q, others, hsplit, by simp, fun r hr => ?_⟩
  have hold : ¬ r.text.toList <+: q.text.toList ++ (v ++ after) := by
    intro hpre
    have hnone := hbefore r hr
    rw [if_pos ( List.isPrefixOf_iff_prefix.2 hpre)] at hnone
    cases hnone
  rw [if_neg]
  rw [List.isPrefixOf_iff_prefix]
  intro hnew
  rw [← List.append_assoc] at hold hnew
  by_cases hlen : r.text.toList.length ≤ (q.text.toList ++ v).length
  · exact hold ((List.prefix_of_prefix_length_le hnew (List.prefix_append _ _) hlen).trans
      (List.prefix_append _ _))
  · -- The first character behind the stretch would be one of those that symbols go on with.
    obtain ⟨more, hmore⟩ : q.text.toList ++ v <+: r.text.toList :=
      List.prefix_of_prefix_length_le (List.prefix_append _ _) hnew (by omega)
    rw [← hmore, List.prefix_append_right_inj] at hnew
    cases more with
    | nil =>
      rw [← hmore] at hlen
      simp at hlen
    | cons d more =>
      obtain ⟨tail, rfl⟩ := hnew
      obtain rfl := hend d rfl
      have hmem : ')' ∈ r.text.toList.tail := by
        rw [← hmore, List.append_assoc, List.tail_append_of_ne_nil (toList_text_ne_nil q)]
        simp
      exact absurd (tail_text_extends (mem_symbols r) hmem) (by decide)

namespace Lexeme

variable {c : Char} {cs cs' v after after' : List Char}

theorem symbolCut_swap (hrest : (symbolCut c cs).rest = v ++ after)
    (hcs : c :: cs' = (symbolCut c cs).text ++ (v ++ after')) (hend : Ending after')
    (hgood : ∀ fault, (symbolCut c cs).lexeme ≠ .bad fault) :
    symbolCut c cs' = { symbolCut c cs with rest := v ++ after' } := by
  have happend := symbolCut_append c cs
  revert hrest hcs hgood happend
  fun_cases symbolCut c cs with
  | case1 p rest hscan =>
    rintro (rfl : rest = _) hcs - happend
    rw [← happend] at hscan
    rw [symbolCut, hcs, Punct.scan_swap hscan hend]
  | case2 => exact fun _ _ hgood => absurd rfl (hgood _)

/-- A lexeme that is good and does not touch the end of its stretch, or is a token, is the same with
another text behind the stretch. -/
theorem cut_swap (hrest : (cut c cs).rest = v ++ after)
    (hcs : c :: cs' = (cut c cs).text ++ (v ++ after')) (hend : Ending after')
    (hgood : ∀ fault, (cut c cs).lexeme ≠ .bad fault) (hgap : v = [] → (cut c cs).lexeme ≠ .gap) :
    cut c cs' = { cut c cs with rest := v ++ after' } := by
  by_cases hblank : isBlank c = true
  · simp only [cut, hblank, if_true] at hrest hcs hgap ⊢
    exact run_swap hrest hcs fun hv => absurd rfl (hgap hv)
  by_cases hcomment : (c == '#') = true
  · simp only [cut, hblank, hcomment, Bool.false_eq_true, if_true, if_false] at hrest hcs hgap ⊢
    exact run_swap hrest hcs fun hv => absurd rfl (hgap hv)
  by_cases hslash : (c == '\\') = true
  · simp only [cut, hblank, hcomment, hslash, Bool.false_eq_true, if_true, if_false]
      at hrest hcs hgood ⊢
    exact continuationCut_swap hrest (by rwa [eq_of_beq hslash] at hcs) hgood
  by_cases hfeed : (c == '\n') = true
  · simp only [cut, hblank, hcomment, hslash, hfeed, Bool.false_eq_true, if_true,
      if_false] at hrest hcs ⊢
    obtain rfl : cs' = v ++ after' := (List.cons.inj hcs).2
    rfl
  by_cases hquote : isQuote c = true
  · simp only [cut, hblank, hcomment, hslash, hfeed, hquote, Bool.false_eq_true, if_true,
      if_false] at hrest hcs hgood ⊢
    exact quotedCut_swap hquote hrest hcs hend hgood
  by_cases hdigit : c.isDigit = true
  · simp only [cut, hblank, hcomment, hslash, hfeed, hquote, hdigit, Bool.false_eq_true, if_true,
      if_false] at hrest hcs ⊢
    exact numberCut_swap hrest hcs hend
  by_cases hword : isWordStart c = true
  · simp only [cut, hblank, hcomment, hslash, hfeed, hquote, hdigit, hword, Bool.false_eq_true,
      if_true, if_false] at hrest hcs hgood ⊢
    exact wordCut_swap hrest hcs hend hgood
  · simp only [cut, hblank, hcomment, hslash, hfeed, hquote, hdigit, hword, Bool.false_eq_true,
      if_false] at hrest hcs hgood ⊢
    exact symbolCut_swap hrest hcs hend hgood

/-! ### Stretches -/

/-- The lexemes of a stretch, with a text behind it. -/
inductive Cuts (after : List Char) : List Char → List Lexeme → Prop where
  | nil : Cuts after [] []
  | cons {c : Char} {cs v : List Char} {ls : List Lexeme} :
    c :: cs = (cut c (cs ++ after)).text ++ v → Cuts after v ls →
      Cuts after (c :: cs) ((cut c (cs ++ after)).lexeme :: ls)

variable {src : List Char} {ls : List Lexeme} {m : Mark}

theorem rest_of_cuts (h : c :: cs = (cut c (cs ++ after)).text ++ v) :
    (cut c (cs ++ after)).rest = v ++ after := by
  have happend := cut_append c (cs ++ after)
  rw [← List.cons_append, h, List.append_assoc] at happend
  exact List.append_cancel_left happend

/-- A stretch that ends with no gap is cut in the same way before an ending. -/
theorem Cuts.swap (h : Cuts after src ls) (hgood : ∀ l ∈ ls, ∀ fault, l ≠ .bad fault)
    (hlast : ∀ l ∈ ls.getLast?, l ≠ .gap) (hend : Ending after') : Cuts after' src ls := by
  induction h with
  | nil => exact .nil
  | @cons c cs v ls hcut hmore ih =>
    obtain ⟨hbad, hgood⟩ := List.forall_mem_cons.mp hgood
    have hgap : v = [] → (cut c (cs ++ after)).lexeme ≠ .gap := by
      rintro rfl
      cases hmore
      exact hlast _ rfl
    have hsame : cut c (cs ++ after') = { cut c (cs ++ after) with rest := v ++ after' } := by
      refine cut_swap (rest_of_cuts hcut) ?_ hend hbad hgap
      rw [← List.append_assoc, ← hcut]
      rfl
    have hrest : ∀ l ∈ ls.getLast?, l ≠ .gap := by
      intro l hl
      refine hlast l ?_
      rw [List.getLast?_cons, Option.mem_def.mp hl]
      rfl
    have hlexeme : (cut c (cs ++ after')).lexeme = (cut c (cs ++ after)).lexeme := by rw [hsame]
    rw [← hlexeme]
    exact .cons (by rw [hsame, ← hcut]) (ih hgood hrest)

/-- The lexemes of a stretch are read in a row. -/
theorem Cuts.exists_scan (h : Cuts after src ls) (m : Mark) :
    ∃ ps, scan m (src ++ after) = ps ++ scan (m.advance src) after ∧ ps.map (·.lexeme) = ls := by
  induction h generalizing m with
  | nil => exact ⟨[], rfl, rfl⟩
  | @cons c cs v ls hcut hmore ih =>
    obtain ⟨ps, hscan, hps⟩ := ih (m.advance (cut c (cs ++ after)).text)
    refine ⟨⟨(cut c (cs ++ after)).lexeme, ⟨m.pos, (m.advance (cut c (cs ++ after)).text).pos⟩,
      m.width⟩ :: ps, ?_, by simp [hps]⟩
    have hmark : m.advance (c :: cs) = (m.advance (cut c (cs ++ after)).text).advance v := by
      rw [hcut]
      exact List.foldl_append
    rw [List.cons_append, scan, rest_of_cuts hcut, hscan, hmark]
    rfl

/-- Lexemes in a row are the lexemes of a stretch. -/
theorem exists_cuts {text : List Char} {ps qs : List Placed} (h : scan m text = ps ++ qs) :
    ∃ src after, text = src ++ after ∧ Cuts after src (ps.map (·.lexeme)) ∧
      (∀ p ∈ ps.head?, p.span.start = m.pos) ∧
        ∀ p ∈ ps.getLast?, p.span.stop = m.pos.advance src := by
  induction ps generalizing m text with
  | nil => exact ⟨[], text, rfl, .nil, nofun, nofun⟩
  | cons p ps ih =>
    obtain ⟨c, cs, rfl, hlexeme, hspan, hps⟩ := scan_cons_eq h
    obtain ⟨v, after, hrest, hcuts, -, hstop⟩ := ih hps.symm
    have happend := cut_append c cs
    obtain ⟨d, text, htext⟩ := List.exists_cons_of_ne_nil (cut_text_ne_nil c cs)
    rw [hrest, htext] at happend
    rw [← List.append_assoc] at happend
    obtain ⟨rfl, hcs⟩ : d = c ∧ text ++ v ++ after = cs := List.cons.inj happend
    have hcut : d :: (text ++ v) = (cut d (text ++ v ++ after)).text ++ v := by
      rw [hcs, htext]
      rfl
    refine ⟨d :: (text ++ v), after, by rw [← hcs]; rfl, ?_, ?_, ?_⟩
    · rw [List.map_cons, hlexeme, ← hcs]
      exact .cons hcut hcuts
    · rintro _ ⟨⟩
      rw [hspan]
    · intro q hq
      cases ps with
      | nil =>
        obtain rfl : p = q := Option.some.inj hq
        obtain rfl : v = [] := by
          cases hcuts
          rfl
        rw [hspan, htext, List.append_nil]
      | cons r ps =>
        have hq := hstop q hq
        rw [Mark.pos_advance, ← Pos.advance_append, htext] at hq
        exact hq

theorem Cuts.exists_head {k : TokenKind} (h : Cuts after src ls) (hk : ls.head? = some (.token k)) :
    ∃ u w, src = u ++ w ∧ k.Spells u := by
  cases h with
  | nil => cases hk
  | cons hcut hmore => exact ⟨_, _, hcut, spells_of_cut (Option.some.inj hk)⟩

theorem Cuts.exists_last {k : TokenKind} (h : Cuts after src ls)
    (hk : ls.getLast? = some (.token k)) : ∃ w u, src = w ++ u ∧ k.Spells u := by
  induction h with
  | nil => cases hk
  | @cons c cs v ls hcut hmore ih =>
    cases ls with
    | nil =>
      obtain rfl : v = [] := by
        cases hmore
        rfl
      rw [List.append_nil] at hcut
      exact ⟨[], c :: cs, rfl, hcut ▸ spells_of_cut (Option.some.inj hk)⟩
    | cons l ls =>
      obtain ⟨w, u, rfl, hu⟩ := ih hk
      exact ⟨_, u, hcut.trans (List.append_assoc ..).symm, hu⟩

/-- The token that a lexeme is, if it is one. -/
def kind? : Lexeme → Option TokenKind
  | .token kind => some kind
  | _ => none

/-- How many brackets are open behind some lexemes, if no bracket is closed that was not open and no
line ends outside brackets. -/
def openAfter (depth : Nat) : List Lexeme → Option Nat
  | [] => some depth
  | .token k :: ls =>
    if k.closes && depth == 0 then none else openAfter (Layout.depthAfter depth k) ls
  | .lineFeed :: ls => if depth = 0 then none else openAfter depth ls
  | _ :: ls => openAfter depth ls

/-- Brackets that are open all along change nothing. -/
theorem openAfter_add {d e : Nat} (h : openAfter d ls = some e) (c : Nat) :
    openAfter (d + c) ls = some (e + c) := by
  fun_induction openAfter d ls with
  | case1 d =>
    cases h
    rfl
  | case2 => cases h
  | case3 d k ls hk ih =>
    rw [openAfter, TokenKind.depthAfter_add hk, if_neg, ih h]
    intro hzero
    simp only [Bool.and_eq_true, beq_iff_eq] at hk hzero
    exact hk ⟨hzero.1, by omega⟩
  | case4 => cases h
  | case5 d ls hd ih => rw [openAfter, if_neg (by omega), ih h]
  | case6 d l ls htoken hfeed ih =>
    cases l with
    | token k => exact absurd rfl (htoken k)
    | lineFeed => exact absurd rfl hfeed
    | gap => exact ih h
    | bad fault => exact ih h

theorem openAfter_kinds {d e : Nat} (h : openAfter d ls = some e) :
    TokenKind.openAfter d (ls.filterMap kind?) = some e := by
  fun_induction openAfter d ls with
  | case1 d => exact h
  | case2 => cases h
  | case3 d k ls hk ih =>
    change TokenKind.openAfter d (k :: ls.filterMap kind?) = some e
    rw [TokenKind.openAfter, if_neg hk, ih h]
  | case4 => cases h
  | case5 d ls hd ih => exact ih h
  | case6 d l ls htoken hfeed ih =>
    cases l with
    | token k => exact absurd rfl (htoken k)
    | lineFeed => exact absurd rfl hfeed
    | gap => exact ih h
    | bad fault => exact ih h

/-- The lexemes of a text. -/
def ofText (text : List Char) : List Lexeme := (scan .origin text).map (·.lexeme)

/-- With nothing behind it, the lexemes of a stretch are those of its text. -/
theorem Cuts.ofText_eq (h : Cuts [] src ls) : ofText src = ls := by
  obtain ⟨ps, hscan, hps⟩ := h.exists_scan .origin
  have hnil : scan (Mark.origin.advance src) [] = [] := by rw [scan]
  rw [List.append_nil, hnil, List.append_nil] at hscan
  rw [ofText, hscan, hps]

theorem kinds_tokens (ps : List Placed) :
    (ps.filterMap Placed.token?).map Token.kind = (ps.map (·.lexeme)).filterMap kind? := by
  rw [List.map_filterMap, List.filterMap_map]
  congr 1
  funext p
  obtain ⟨lexeme, span, width⟩ := p
  cases lexeme <;> rfl

end Lexeme

/-- Lexemes within brackets add their tokens and nothing else. -/
theorem Layout.tokens_inside {ps qs : List Placed} {s : Layout} {eof : Span} {depth : Nat}
    (hgood : ∀ p ∈ ps, ∀ fault, p.lexeme ≠ .bad fault) (hs : s.fresh = false)
    (hin : s.inLine = true) (hopen : Lexeme.openAfter s.depth (ps.map (·.lexeme)) = some depth) :
    s.tokens eof (ps ++ qs) =
      (ps.filterMap Placed.token? ++ ·) <$> ({ s with depth } : Layout).tokens eof qs := by
  induction ps generalizing s with
  | nil =>
    obtain rfl : s.depth = depth := Option.some.inj hopen
    simp
  | cons p ps ih =>
    obtain ⟨hbad, hothers⟩ := List.forall_mem_cons.mp hgood
    obtain ⟨lexeme, span, width⟩ := p
    cases lexeme with
    | gap =>
      rw [List.cons_append, tokens_cons_of_feed_none rfl, ih hothers hs hin hopen]
      rfl
    | bad fault => exact absurd rfl (hbad fault)
    | lineFeed =>
      rw [List.map_cons, Lexeme.openAfter] at hopen
      split at hopen
      · cases hopen
      · next hdepth =>
        rw [List.cons_append, tokens_cons_of_feed_none (by simp only [feed, hdepth]; rfl),
          ih hothers hs hin hopen]
        rfl
    | token k =>
      rw [List.map_cons, Lexeme.openAfter] at hopen
      split at hopen
      · cases hopen
      · have hstate : ({ s.afterToken k with depth } : Layout) = { s with depth } := by
          simp [afterToken, hs, hin]
        have hmore := ih (s := s.afterToken k) hothers rfl rfl hopen
        rw [List.cons_append, tokens_cons_of_feed (feed_token_of_not_fresh hs ..), hmore, hstate,
          List.filterMap_cons_some (by rfl)]
        simp

/-! ### The text of some tokens -/

/-- What is kept of a list in a row is kept of a row in the list. -/
theorem exists_of_infix_filterMap {α β : Type} {f : α → Option β} {l : List α} {own : List β}
    (h : own <:+: l.filterMap f) (hne : own ≠ []) :
    ∃ front row back, l = front ++ (row ++ back) ∧ row.filterMap f = own ∧
      row.head?.bind f = own.head? ∧ row.getLast?.bind f = own.getLast? := by
  obtain ⟨a, b, hab⟩ := h
  rw [List.append_assoc] at hab
  obtain ⟨front, rest, rfl, -, hrest⟩ := List.filterMap_eq_append_iff.mp hab.symm
  obtain ⟨t, ts, rfl⟩ := List.exists_cons_of_ne_nil hne
  obtain ⟨gap, x, rest, rfl, -, hx, hrest : rest.filterMap f = ts ++ b⟩ :=
    List.filterMap_eq_cons_iff.mp hrest
  rcases List.eq_nil_or_concat ts with rfl | ⟨ts, u, rfl⟩
  · exact ⟨front ++ gap, [x], rest, by simp, by simp [hx], by simp [hx], by simp [hx]⟩
  · rw [List.concat_eq_append, List.append_assoc] at hrest
    obtain ⟨mid, rest, rfl, hmid, hrest⟩ := List.filterMap_eq_append_iff.mp hrest
    obtain ⟨gap', y, rest, rfl, hgap', hy, -⟩ := List.filterMap_eq_cons_iff.mp hrest
    have hnone : gap'.filterMap f = [] := List.filterMap_eq_nil_iff.mpr hgap'
    refine ⟨front ++ gap, x :: (mid ++ gap' ++ [y]), rest, by simp, ?_, by simp [hx], ?_⟩
    · simp [hx, hy, hmid, hnone]
    · rw [← List.cons_append, List.getLast?_concat, List.concat_eq_append, ← List.cons_append,
        List.getLast?_concat]
      exact hy

theorem Placed.lexeme_of_token? {p : Placed} {t : Token} (h : p.token? = some t) :
    p.lexeme = .token t.kind ∧ p.span = t.span := by
  obtain ⟨lexeme, span, width⟩ := p
  cases lexeme with
  | token kind =>
    cases h
    exact ⟨rfl, rfl⟩
  | _ => cases h

/-- Tokens that stand in a row in a text are a stretch of it, from the first to the last. -/
theorem TokenStream.exists_stretch {text : List Char} {stream : TokenStream} {own : List Token}
    {span : Span} (h : ofText text = .ok stream) (hown : own <:+: stream.tokens)
    (hplain : ∀ t ∈ own, t.kind.isMark = false) (hspans : Token.Spans own span) :
    ∃ after ls, Lexeme.Cuts after (Rows.slice text span) ls ∧ (∀ l ∈ ls, ∀ fault, l ≠ .bad fault) ∧
      (∀ l ∈ ls.getLast?, l ≠ .gap) ∧ ls.filterMap Lexeme.kind? = own.map Token.kind := by
  obtain ⟨-, htokens⟩ := ofText_eq_ok h
  have hgood := Layout.ne_bad_of_tokens htokens
  have hcontent : own <:+: (Lexeme.scan Mark.origin text).filterMap Placed.token? := by
    have hlaid : Token.Laid [] _ text := Token.laid_scan rfl hgood
    rw [← Layout.filter_tokens htokens hlaid.isMark_eq_false]
    have hfilter := hown.filter (fun t : Token => !t.kind.isMark)
    rwa [List.filter_eq_self.mpr (by simpa using hplain)] at hfilter
  obtain ⟨front, row, back, hscan, hrow, hhead, hlast⟩ :=
    exists_of_infix_filterMap hcontent hspans.ne_nil
  rw [hscan] at hgood
  obtain ⟨before, rest, rfl, hrest⟩ := Lexeme.scan_append_eq hscan
  obtain ⟨src, after, rfl, hcuts, hstart, hstop⟩ := Lexeme.exists_cuts hrest.symm
  rw [Mark.pos_advance] at hstart hstop
  obtain ⟨t, ht, hspanStart⟩ := Option.map_eq_some_iff.mp hspans.start
  obtain ⟨u, hu, hspanStop⟩ := Option.map_eq_some_iff.mp hspans.stop
  obtain ⟨p, hp, hpt⟩ := Option.bind_eq_some_iff.mp (hhead.trans ht)
  obtain ⟨q, hq, hqu⟩ := Option.bind_eq_some_iff.mp (hlast.trans hu)
  obtain ⟨hpl, hpspan⟩ := Placed.lexeme_of_token? hpt
  obtain ⟨hql, hqspan⟩ := Placed.lexeme_of_token? hqu
  have hfirst : (row.map (·.lexeme)).head? = some (.token t.kind) := by
    rw [List.head?_map, hp, ← hpl]
    rfl
  have hend : (row.map (·.lexeme)).getLast? = some (.token u.kind) := by
    rw [List.getLast?_map, hq, ← hql]
    rfl
  have hspan : span = ⟨Pos.origin.advance before, Pos.origin.advance (before ++ src)⟩ := by
    have hleft := hstart p hp
    have hright := hstop q hq
    rw [hpspan, hspanStart] at hleft
    rw [hqspan, hspanStop, ← Pos.advance_append] at hright
    exact congrArg₂ Span.mk hleft hright
  have hslice : Rows.slice (before ++ (src ++ after)) span = src := by
    obtain ⟨first, more, hsrc, hspells⟩ := hcuts.exists_head hfirst
    obtain ⟨most, last, hsrc', hspells'⟩ := hcuts.exists_last hend
    rw [hspan, ← List.append_assoc]
    refine Rows.slice_advance ?_ ?_
    · rw [hsrc, List.append_assoc]
      exact Token.exact_before hspells.solid _
    · rw [hsrc', ← List.append_assoc]
      exact Token.exact_after hspells'.solid _
  rw [hslice]
  refine ⟨after, _, hcuts, List.forall_mem_map.mpr fun p hp => hgood p (by simp [hp]), ?_, ?_⟩
  · rw [hend]
    rintro _ ⟨⟩
    nofun
  · rw [← Lexeme.kinds_tokens, hrow]

end Vyper
