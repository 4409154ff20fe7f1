import Vyper.Proofs.Fallible
import Vyper.Proofs.RoundTrip
import Vyper.Proofs.Throughout

/-!
# The header of a loop

A loop names its variable and then says `in`. A type behind the name is an expression, and an
expression takes the `in` for an operator of its own: what is written `for v: T in e:` is read as a
variable of the type `T in e`, and the `in` of the loop is missing. So no loop with a type is ever
parsed, and every loop of a parsed module has a bare name.
-/

namespace Vyper

/-- A node that is no loop with a type for its variable. -/
def Node.LoopsBare : Node → Prop
  | .stmt (.loop _ target _ _) => ∃ place id, target = .bare (.name place id)
  | _ => True

theorem Node.Throughout.loopsBare {n : Node} (h : n.Throughout Node.Regular) :
    n.Throughout Node.LoopsBare := by
  intro path c hc
  have hc := h path c hc
  cases c with
  | stmt s => cases s with
    | loop span target iter body => exact hc
    | _ => trivial
  | _ => trivial

theorem ParseState.peek_advance (s : ParseState) (n : Nat) : s.advance.peek n = s.peek (n + 1) := by
  unfold ParseState.peek ParseState.advance
  rw [List.getElem?_tail]

namespace Parser

variable {s : ParseState} {v : String}

theorem bind_eq_of_error {α β : Type} {p : Parser α} {f : α → Parser β} {err : CompileError}
    (h : p s = .error err) : (p >>= f) s = .error err := by
  change (p s >>= fun (a, t) => f a t) = .error err
  rw [h]
  rfl

/-- The fault of a header that lacks its `in`. -/
def missingIn (s : ParseState) : CompileError :=
  .located (.expected (.word "in") s.kind) s.peek.span

theorem expectWord_in_of_ne (h : s.kind ≠ .name "in") :
    expectWord "in" s = .error (missingIn s) := by
  have haccept : accept (.name "in") s = .ok (none, s) := by rw [accept, if_neg h]
  exact bind_eq_of_ok haccept

theorem identifier_of_kind (h : s.kind = .name v) :
    identifier s = .ok ((v, s.peek.span), s.advance) := by
  have hpeek : s.peek = ⟨.name v, s.peek.span⟩ := by rw [← h]; rfl
  have hread : (do
      let _ ← advance
      pure (v, s.peek.span) : Parser (String × Span)) s = .ok ((v, s.peek.span), s.advance) := rfl
  rw [← hread]
  unfold identifier
  rw [bind_eq_of_ok (show peek s = .ok (s.peek, s) from rfl), hpeek]

theorem statement_for (h : s.kind = .name "for") :
    statement s = loopStatement (statementUpTo s.limit) s := by
  change statementOver (statementUpTo s.limit) s = _
  unfold statementOver
  rw [bind_eq_of_ok (show peekKind s = .ok (s.kind, s) from rfl), h]
  rfl

/-- Behind the name of the variable comes its type, or nothing. -/
theorem loopTarget_of_name (h : s.kind = .name v) :
    loopTarget s =
      if s.advance.kind = .punct .colon then
        expression s.advance.advance >>= fun r =>
          .ok (.typed (s.peek.span.cover r.1.span) (.name s.peek.span v) r.1 none, r.2)
      else .ok (.bare (.name s.peek.span v), s.advance) := by
  unfold loopTarget
  rw [bind_eq_of_ok (identifier_of_kind h)]
  split
  · next hcolon =>
    exact bind_eq_of_ok (show acceptPunct .colon s.advance = .ok (some _, _) by
      rw [acceptPunct, accept, if_pos hcolon])
  · next hcolon =>
    exact bind_eq_of_ok (show acceptPunct .colon s.advance = .ok (none, _) by
      rw [acceptPunct, accept, if_neg hcolon])

theorem kind_advance_advance (s : ParseState) : s.advance.advance.kind = (s.peek 2).kind := by
  rw [s.advance.kind_advance, s.peek_advance]

/-- With a type behind the name of its variable a loop is refused, where the type ends. -/
theorem statement_typed_loop (hs : s.Ample) (hfor : s.kind = .name "for")
    (hname : (s.peek 1).kind = .name v) (hcolon : (s.peek 2).kind = .punct .colon) :
    statement s =
      (expression s.advance.advance.advance >>= fun r => .error (missingIn r.2)) := by
  have hs₃ := (s.onward_advance.trans (s.advance.onward_advance.trans
    s.advance.advance.onward_advance)).ample hs
  have htarget := loopTarget_of_name (s.kind_advance.trans hname)
  rw [if_pos ((kind_advance_advance s).trans hcolon)] at htarget
  rw [statement_for hfor]
  unfold loopStatement
  rw [bind_eq_of_ok (show advance s = .ok (s.peek, s.advance) from rfl)]
  cases hread : expression s.advance.advance.advance with
  | error err =>
    rw [hread] at htarget
    exact bind_eq_of_error htarget
  | ok r =>
    obtain ⟨type, t⟩ := r
    obtain ⟨-, hends⟩ := (goesTo_expression hs₃).1 type t hread
    have hin : t.kind ≠ .name "in" := by
      intro hin
      rw [t.kind_eq_next] at hin
      exact absurd hends.operatorLevel_eq_none (by simp [operatorLevel, hin])
    rw [hread] at htarget
    rw [bind_eq_of_ok htarget]
    exact bind_eq_of_error (expectWord_in_of_ne hin)

theorem expect_of_kind {kind : TokenKind} (h : s.kind = kind) (what : Expectation) :
    expect kind what s = .ok (s.peek.span, s.advance) :=
  bind_eq_of_ok (show accept kind s = .ok (some _, _) by rw [accept, if_pos h])

/-- Without a type a loop is what its parts are. -/
theorem statement_bare_loop {e : Expr} {body : List Stmt} {stop : Span} {t u : ParseState}
    (hfor : s.kind = .name "for") (hname : (s.peek 1).kind = .name v)
    (hin : (s.peek 2).kind = .name "in") (he : expression s.advance.advance.advance = .ok (e, t))
    (hcolon : t.kind = .punct .colon)
    (hbody : block (statementUpTo s.limit) t.advance = .ok ((body, stop), u)) :
    statement s =
      .ok (.loop (s.peek.span.cover stop) (.bare (.name (s.peek 1).span v)) e body, u) := by
  have htarget := loopTarget_of_name (s.kind_advance.trans hname)
  rw [if_neg (by rw [kind_advance_advance, hin]; nofun), s.peek_advance] at htarget
  have hword : expectWord "in" s.advance.advance = .ok (_, s.advance.advance.advance) :=
    expect_of_kind ((kind_advance_advance s).trans hin) _
  have hpunct : expectPunct .colon t = .ok (_, t.advance) := expect_of_kind hcolon _
  rw [statement_for hfor]
  unfold loopStatement
  rw [bind_eq_of_ok (show advance s = .ok (s.peek, s.advance) from rfl), bind_eq_of_ok htarget,
    bind_eq_of_ok hword, bind_eq_of_ok he, bind_eq_of_ok hpunct, bind_eq_of_ok hbody]
  rfl

theorem ParseState.Onward.peek {t : ParseState} (h : s.Onward t) (hne : t.tokens ≠ []) :
    t.peek = s.peek (s.tokens.length - t.tokens.length) := by
  obtain ⟨before, hbefore⟩ := h.tokens
  have hlen : s.tokens.length - t.tokens.length = before.length := by
    rw [← hbefore, List.length_append, Nat.add_sub_cancel]
  obtain ⟨token, tokens, htokens⟩ := List.exists_cons_of_ne_nil hne
  unfold ParseState.peek
  rw [hlen, ← hbefore, htokens, List.getElem?_append_right le_rfl, Nat.sub_self]
  rfl

/-- A type and an iterable without boolean operators and comparisons are one comparison. -/
theorem statement_typed_loop_at_colon {type iter : Expr} {rest : List TokenKind} (hs : s.Ample)
    (htype : type.Writable) (hiter : iter.Writable) (hlevel : 4 ≤ type.level)
    (hlevel' : 4 ≤ iter.level)
    (hkinds : s.kinds = .name "for" :: .name v :: .punct .colon ::
      (type.kinds ++ .name "in" :: (iter.kinds ++ .punct .colon :: rest))) :
    statement s = .error (.located (.expected (.word "in") (.punct .colon))
      (s.peek (type.kinds.length + iter.kinds.length + 4)).span) := by
  have hkind : ∀ n, (s.peek n).kind = (s.kinds[n]?).getD .eof := by
    intro n
    unfold ParseState.peek ParseState.kinds
    rw [List.getElem?_map]
    cases s.tokens[n]? <;> rfl
  have hfor : s.kind = .name "for" := by rw [ParseState.kind, hkind, hkinds]; rfl
  have hname : (s.peek 1).kind = .name v := by rw [hkind, hkinds]; rfl
  have hcolon : (s.peek 2).kind = .punct .colon := by rw [hkind, hkinds]; rfl
  have hs₃ := s.onward_advance.trans (s.advance.onward_advance.trans
    s.advance.advance.onward_advance)
  -- What is read behind the colon is the comparison, up to the next colon.
  have hcompare : (Expr.compare s.eof type .isIn iter).kinds =
      type.kinds ++ .name "in" :: iter.kinds := by
    rw [Expr.kinds_compare, Expr.kindsAt_of_le (by omega), Expr.kindsAt_of_le hlevel']
    rfl
  have hkinds₃ : s.advance.advance.advance.kinds =
      (Expr.compare s.eof type .isIn iter).kinds ++ .punct .colon :: rest := by
    rw [kinds_advance, kinds_advance, kinds_advance, hkinds, hcompare]
    simp
  have hample : s.advance.advance.advance.kinds.length ≤ s.advance.advance.advance.limit := by
    rw [ParseState.kinds, List.length_map]
    exact hs₃.ample hs
  obtain ⟨e, t, hread, ht, -⟩ := reads_expression (.compare htype hiter)
    (endsAt_of_operatorLevel rfl) s.advance.advance.advance hkinds₃ hample
  have hkindt : t.kind = .punct .colon := by rw [t.kind_eq_next, ht]; rfl
  have honward : s.Onward t := hs₃.trans ((goesTo_expression (hs₃.ample hs)).1 e t hread).1
  have hlen : s.tokens.length - t.tokens.length = type.kinds.length + iter.kinds.length + 4 := by
    have hlens := congrArg List.length hkinds
    have hlent := congrArg List.length ht
    simp only [ParseState.kinds, List.length_map, List.length_cons, List.length_append]
      at hlens hlent
    omega
  have hpeek : t.peek = s.peek (type.kinds.length + iter.kinds.length + 4) := by
    rw [← hlen]
    refine ParseState.Onward.peek honward fun hnil => ?_
    rw [ParseState.kinds, hnil] at ht
    cases ht
  rw [statement_typed_loop hs hfor hname hcolon, hread, ← hpeek, ← hkindt]
  rfl

/-- Loops are read without a type and never with one. Behind `for v:` a statement is refused, where
the expression that was to be the type ends. For a type and an iterable that are written with the
fewest parentheses, without string literals, and whose top is no boolean operator or comparison,
this is the colon that was to end the header. Behind `for v in` it is the loop over the name with
the iterable and the block that follow. All loops of a parsed module are of this second form. -/
theorem loops_have_no_types (s : ParseState) (v : String) (text : List Char) (hs : s.Ample) :
    (s.kind = .name "for" → (s.peek 1).kind = .name v →
      ((s.peek 2).kind = .punct .colon →
        statement s = (expression s.advance.advance.advance >>= fun r => .error (missingIn r.2))) ∧
      ((s.peek 2).kind = .name "in" → ∀ e t body stop u,
        expression s.advance.advance.advance = .ok (e, t) → t.kind = .punct .colon →
        block (statementUpTo s.limit) t.advance = .ok ((body, stop), u) →
        statement s =
          .ok (.loop (s.peek.span.cover stop) (.bare (.name (s.peek 1).span v)) e body, u))) ∧
    (∀ type iter : Expr, ∀ rest, type.Writable → iter.Writable → 4 ≤ type.level → 4 ≤ iter.level →
      s.kinds = .name "for" :: .name v :: .punct .colon ::
        (type.kinds ++ .name "in" :: (iter.kinds ++ .punct .colon :: rest)) →
      statement s = .error (.located (.expected (.word "in") (.punct .colon))
        (s.peek (type.kinds.length + iter.kinds.length + 4)).span)) ∧
    ∀ parsed, Module.parse text = .ok parsed →
      (Node.module parsed.tree).Throughout Node.LoopsBare := by
  refine ⟨fun hfor hname => ⟨statement_typed_loop hs hfor hname, ?_⟩, ?_, ?_⟩
  · intro hin e t body stop u he hcolon hbody
    exact statement_bare_loop hfor hname hin he hcolon hbody
  · intro type iter rest htype hiter hlevel hlevel' hkinds
    exact statement_typed_loop_at_colon hs htype hiter hlevel hlevel' hkinds
  · intro parsed hparse
    exact (Module.regular_of_parse hparse).loopsBare

/-- The tokens of `for i: T in x:`, one column each. -/
def typedHeader : ParseState where
  tokens := List.mapIdx (fun i kind => ⟨kind, ⟨1, i⟩, ⟨1, i + 1⟩⟩)
    [.name "for", .name "i", .punct .colon, .name "T", .name "in", .name "x", .punct .colon]
  eof := ⟨⟨1, 7⟩, ⟨1, 7⟩⟩
  limit := 7

/-- A function with a loop over its parameter. -/
def bareLoop : List Char := "def f(x: T):\n for i in x:\n  pass\n".toList

theorem loops_have_no_types_header :
    statement typedHeader =
      .error (.located (.expected (.word "in") (.punct .colon)) ⟨⟨1, 6⟩, ⟨1, 7⟩⟩) ∧
    ∃ parsed, Module.parse bareLoop = .ok parsed ∧
      (Node.module parsed.tree).Throughout Node.LoopsBare := by
  have hwritable : ∀ id : String, isIdentifier id → id ∉ reservedWords →
      (Expr.name typedHeader.eof id).Writable := fun _ hid hfree => .name hid hfree
  have hloops := loops_have_no_types typedHeader "i" bareLoop (le_refl 7)
  have htyped := hloops.2.1 (.name typedHeader.eof "T") (.name typedHeader.eof "x") []
    (hwritable "T" (by decide) (by decide)) (hwritable "x" (by decide) (by decide)) (by decide)
    (by decide) (by decide)
  have hparse : (Module.parse bareLoop).toOption.isSome = true := by decide +kernel
  obtain ⟨parsed, hparsed⟩ := Option.isSome_iff_exists.mp hparse
  have hparsed := eq_ok_of_toOption hparsed
  exact ⟨htyped, parsed, hparsed, hloops.2.2 parsed hparsed⟩

/-- The same function with a type for the variable of its loop. -/
def typedLoop : List Char := "def f(x: T):\n for i: T in x:\n  pass\n".toList

/-- A loop with a type does not parse. -/
theorem parse_typedLoop :
    Module.parse typedLoop =
      .error (.located (.expected (.word "in") (.punct .colon)) ⟨⟨2, 14⟩, ⟨2, 15⟩⟩) :=
  eq_error_of_failure? (by decide +kernel)

end Parser

end Vyper
