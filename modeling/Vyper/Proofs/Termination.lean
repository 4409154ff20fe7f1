import Vyper.Proofs.Progress
import Vyper.Proofs.Reading
import Vyper.Syntax.Parser.Declaration
import Mathlib.Logic.Function.Iterate

/-!
# Parsing ends

`Parser.Recursion` lists the loops and recursions of the grammar, each as a round that is given what
does the rounds behind it. A round that goes on has read a token, so from any state the rounds are
over after one more than there are tokens left, whatever would be done behind them
(`Parser.Recursion.settles`): the bounds that the parsers run with are never met, on no list of
tokens. `TokenStream.parsing_ends` says so of every place of a stream, together with how far the
parsers move.
-/

namespace Vyper

namespace Parser

open ParseState (Onward Ample Past)

variable {α β ι : Type} {s t : ParseState} {k : Nat}

/-! ### Statements -/

/-- An end of a line and those behind it. -/
def newlineRound (rest : Parser Unit) : Parser Unit := do
  if (← accept .newline).isSome then rest

theorem alike_newlineRound {rest rest' : Parser Unit} (hrest : AlikeIn 0 s rest rest') :
    Alike 0 s (newlineRound rest) (newlineRound rest') :=
  alike_accept (fun _ _ ht => hrest ht) (alike_pure ())

theorem alike_skipNewlines : Alike 0 s skipNewlines skipNewlines :=
  alike_limit (alike_upTo (fun _ => alike_pure ()) (fun _ _ => alike_newlineRound) _)

theorem alike_lineEnd : Alike 0 s lineEnd lineEnd := by
  refine alike_peekKind ?_
  split
  · exact alike_advance fun _ => alike_pure ()
  · exact alike_pure ()
  · exact alike_pure ()
  · exact alike_unexpected .lineEnd

theorem alike_expressions : Alike 1 s expressions expressions :=
  alike_expressionList fun _ _ => alike_expression

theorem alike_optional {value : Parser Expr} (h : Alike 1 s value value) :
    Alike 0 s (Parser.optional value) (Parser.optional value) := by
  refine alike_peekKind ?_
  split
  · exact alike_pure none
  · exact h.weaken.done

theorem alike_afterTarget (target : Expr) :
    Alike 0 s (afterTarget target) (afterTarget target) := by
  refine alike_peekKind ?_
  split
  · refine alike_advance fun _ => ?_
    split
    · refine alike_expression.weaken.bind fun type _ _ =>
        alike_accept (fun _ _ _ => ?_) (alike_pure _)
      exact alike_expression.weaken.done
    · exact alike_fail _ _
  · exact alike_advance fun _ => alike_expressions.weaken.done
  · exact alike_advance fun _ => alike_expression.weaken.done
  · exact alike_pure _

theorem alike_smallStatement : Alike 1 s smallStatement smallStatement := by
  refine alike_peek ?_
  split
  · next hpeek => exact alike_take (congrArg Token.kind hpeek) fun _ => alike_pure _
  · next hpeek => exact alike_take (congrArg Token.kind hpeek) fun _ => alike_pure _
  · next hpeek => exact alike_take (congrArg Token.kind hpeek) fun _ => alike_pure _
  · next hpeek =>
    refine alike_take (congrArg Token.kind hpeek) fun _ => ?_
    exact (alike_optional alike_expressions).done
  · next hpeek =>
    refine alike_take (congrArg Token.kind hpeek) fun _ => ?_
    exact alike_expression.weaken.done
  · next hpeek =>
    refine alike_take (congrArg Token.kind hpeek) fun _ =>
      alike_expression.weaken.bind fun _ _ _ => ?_
    refine alike_accept (fun _ _ _ => ?_) (alike_pure _)
    exact alike_expression.weaken.done
  · next hpeek =>
    refine alike_take (congrArg Token.kind hpeek) fun _ => ?_
    exact (alike_optional alike_expression).done
  · exact alike_expressions.bind fun target _ _ => alike_afterTarget target

theorem alike_simpleStatement : Alike 1 s simpleStatement simpleStatement :=
  alike_smallStatement.bind fun _ _ _ => alike_lineEnd.done

theorem alike_openBlock : Alike 1 s openBlock openBlock :=
  alike_advance fun _ => (alike_expect _).bind fun _ _ _ => alike_pure ()

section Blocks

variable {inner inner' rest rest' : Parser Stmt}

/-- A statement of a block and those behind it. -/
def lineRound (statement : Parser Stmt) (rest : Parser (List Stmt)) : Parser (List Stmt) := do
  skipNewlines
  match ← peekKind with
  | .dedent =>
    let _ ← advance
    return []
  | .eof => return []
  | _ =>
    let first ← statement
    return first :: (← rest)

theorem alike_lineRound {rest rest' : Parser (List Stmt)} (hinner : AlikeOn 1 s inner inner')
    (hrest : AlikeIn 0 s rest rest') :
    Alike 0 s (lineRound inner rest) (lineRound inner' rest') := by
  refine alike_skipNewlines.bind fun _ s₁ hs₁ => alike_peekKind ?_
  split
  · exact alike_advance fun _ => alike_pure []
  · exact alike_pure []
  · refine (hinner hs₁.1).bind fun first s₂ hs₂ => ?_
    exact (hrest (hs₁.1.past_trans hs₂)).done

theorem alike_block (hinner : AlikeIn 1 s inner inner') :
    Alike 1 s (block inner) (block inner') := by
  have hitems : ∀ (n : Nat) {t}, AlikeOn 1 t inner inner' →
      Alike 0 t (blockItems inner n) (blockItems inner' n) := by
    intro n
    induction n with
    | zero => exact fun _ => alike_pure []
    | succ n ih => exact fun h => alike_lineRound h fun _ hu => ih (h.onward hu.1)
  refine alike_peekKind ?_
  dsimp only
  split
  · refine alike_openBlock.bind fun _ s₁ hs₁ =>
      alike_limit ((hitems _ (hinner.past hs₁)).bind fun body _ _ => ?_)
    split
    · exact alike_pure _
    · exact alike_unexpected .block
  · exact alike_simpleStatement.done

/-- An `if` with its block, and the branches behind it. -/
def branchRound (statement rest : Parser Stmt) : Parser Stmt := do
  let start ← advance
  let test ← expression
  let _ ← expectPunct .colon
  let (body, stop) ← block statement
  match ← peekKind with
  | .name "elif" =>
    let nested ← rest
    return .branch (start.span.cover nested.span) test body [nested]
  | .name "else" =>
    let _ ← advance
    let _ ← expectPunct .colon
    let (orelse, stop) ← block statement
    return .branch (start.span.cover stop) test body orelse
  | _ => return .branch (start.span.cover stop) test body []

theorem alike_branchRound (hinner : AlikeIn 1 s inner inner') (hrest : AlikeIn 1 s rest rest') :
    Alike 1 s (branchRound inner rest) (branchRound inner' rest') := by
  refine alike_advance fun hs₁ => alike_expression.bind fun test s₂ hs₂ => ?_
  refine (alike_expectPunct _).weaken.bind fun _ s₃ hs₃ => ?_
  have hpast := (hs₁.past_trans hs₂).onward hs₃.1
  refine (alike_block (hinner.onward hpast.1)).weaken.bind fun body s₄ hs₄ => alike_peekKind ?_
  split
  · exact (hrest (hpast.onward hs₄.1)).weaken.done
  · refine alike_advance fun hs₅ => (alike_expectPunct _).weaken.bind fun _ s₆ hs₆ => ?_
    have hon := hpast.1.trans (hs₄.1.trans (hs₅.trans hs₆.1))
    exact (alike_block (hinner.onward hon)).weaken.done
  · exact alike_pure _

theorem alike_branchUpTo (hinner : AlikeIn 1 s inner inner') (n : Nat) :
    Alike 1 s (branchUpTo inner n) (branchUpTo inner' n) := by
  induction n generalizing s with
  | zero => exact alike_unexpected .block
  | succ n ih => exact alike_branchRound hinner fun _ ht => ih (hinner.onward ht.1)

theorem alike_loopTarget : Alike 1 s loopTarget loopTarget := by
  refine alike_identifier.bind fun name _ _ => alike_accept (fun _ _ _ => ?_) (alike_pure _)
  exact alike_expression.weaken.done

theorem alike_loopStatement (hinner : AlikeIn 1 s inner inner') :
    Alike 1 s (loopStatement inner) (loopStatement inner') := by
  refine alike_advance fun hs₁ => alike_loopTarget.bind fun target s₂ hs₂ => ?_
  refine (alike_expectWord _).weaken.bind fun _ s₃ hs₃ =>
    alike_expression.weaken.bind fun iter s₄ hs₄ => ?_
  refine (alike_expectPunct _).weaken.bind fun _ s₅ hs₅ => ?_
  have hon := hs₁.trans (hs₂.1.trans (hs₃.1.trans (hs₄.1.trans hs₅.1)))
  exact (alike_block (hinner.onward hon)).weaken.done

theorem alike_statementOver (hinner : AlikeIn 1 s inner inner') :
    Alike 1 s (statementOver inner) (statementOver inner') := by
  refine alike_peekKind ?_
  split
  · exact alike_limit (alike_branchUpTo hinner _)
  · exact alike_loopStatement hinner
  · exact alike_simpleStatement

end Blocks

/-- A statement reads at least one token. -/
theorem alike_statement : Alike 1 s statement statement :=
  alike_limit (alike_upTo (fun _ => alike_unexpected .block) (fun _ _ => alike_statementOver) _)

/-! ### Declarations -/

theorem alike_param : Alike 1 s param param := by
  refine alike_identifier.bind fun name _ _ => (alike_expectPunct _).weaken.bind fun _ _ _ => ?_
  refine alike_expression.weaken.bind fun type _ _ => alike_accept (fun _ _ _ => ?_) (alike_pure _)
  exact alike_expression.weaken.done

theorem alike_params : Alike 1 s params params := by
  refine (alike_expectPunct _).bind fun _ _ _ => ?_
  exact (alike_bracketed _ fun _ _ => alike_param).weaken.done

theorem alike_functionDef (decorators : List Expr) :
    Alike 1 s (functionDef decorators) (functionDef decorators) := by
  have hblock : ∀ {t : ParseState}, Alike 1 t (block statement) (block statement) :=
    alike_block fun _ _ => alike_statement
  refine (alike_expectWord _).bind fun start _ _ => alike_identifier.weaken.bind fun name _ _ => ?_
  refine alike_params.weaken.bind fun params _ _ => alike_accept (fun _ _ _ => ?_) ?_
  · refine alike_expression.weaken.map.bind fun returns _ _ =>
      (alike_expectPunct _).weaken.bind fun _ _ _ => ?_
    exact hblock.weaken.done
  · refine (alike_pure none).bind fun returns _ _ =>
      (alike_expectPunct _).weaken.bind fun _ _ _ => ?_
    exact hblock.weaken.done

/-- A decorator on a line of its own, and those behind it. -/
def decoratorRound (rest : Parser (List Expr)) : Parser (List Expr) := do
  match ← acceptPunct .atSign with
  | some _ =>
    let decorator ← expression
    lineEnd
    skipNewlines
    return decorator :: (← rest)
  | none => return []

theorem alike_decoratorRound {rest rest' : Parser (List Expr)} (hrest : AlikeIn 0 s rest rest') :
    Alike 0 s (decoratorRound rest) (decoratorRound rest') := by
  refine alike_accept (fun _ s₁ hs₁ => alike_expression.weaken.bind fun decorator s₂ hs₂ => ?_)
    (alike_pure [])
  refine alike_lineEnd.bind fun _ s₃ hs₃ => alike_skipNewlines.bind fun _ s₄ hs₄ => ?_
  have hpast := hs₁.onward (hs₂.1.trans (hs₃.1.trans hs₄.1))
  exact (hrest hpast).done

theorem alike_decorated : Alike 1 s decorated decorated := by
  have hall : ∀ (n : Nat) {t}, Alike 0 t (decoratorsUpTo n) (decoratorsUpTo n) :=
    fun n _ => alike_upTo (fun _ => alike_pure []) (fun _ _ => alike_decoratorRound) n
  refine alike_limit ((hall _).bind fun decorators _ _ => alike_peekKind ?_)
  split
  · exact alike_functionDef decorators
  · exact alike_unexpected .decorated

theorem alike_memberDef (kind : MemberKind) : Alike 1 s (memberDef kind) (memberDef kind) := by
  refine alike_advance fun _ => alike_identifier.bind fun name _ _ =>
    (alike_expectPunct _).weaken.bind fun _ _ _ => ?_
  refine (alike_block fun _ _ => alike_statement).weaken.bind fun _ _ _ => ?_
  dsimp only
  split
  · exact alike_fail _ _
  · exact alike_pure _

/-- A line of an interface and those behind it. -/
def signatureRound (rest : Parser (List InterfaceItem)) : Parser (List InterfaceItem) := do
  skipNewlines
  match ← peekKind with
  | .dedent =>
    let _ ← advance
    return []
  | .eof => return []
  | .name "def" =>
    let first ← functionDef []
    return .function first :: (← rest)
  | .name "pass" =>
    let first ← simpleStatement
    return .stmt first :: (← rest)
  | _ => unexpected .signature

theorem alike_signatureRound {rest rest' : Parser (List InterfaceItem)}
    (hrest : AlikeIn 0 s rest rest') : Alike 0 s (signatureRound rest) (signatureRound rest') := by
  refine alike_skipNewlines.bind fun _ s₁ hs₁ => alike_peekKind ?_
  split
  · exact alike_advance fun _ => alike_pure []
  · exact alike_pure []
  · refine (alike_functionDef []).bind fun first s₂ hs₂ => ?_
    exact (hrest (hs₁.1.past_trans hs₂)).done
  · refine alike_simpleStatement.bind fun first s₂ hs₂ => ?_
    exact (hrest (hs₁.1.past_trans hs₂)).done
  · exact alike_unexpected .signature

theorem alike_interfaceDef : Alike 1 s interfaceDef interfaceDef := by
  have hall : ∀ (n : Nat) {t}, Alike 0 t (interfaceItems n) (interfaceItems n) :=
    fun n _ => alike_upTo (fun _ => alike_pure []) (fun _ _ => alike_signatureRound) n
  refine alike_advance fun _ => alike_identifier.bind fun name _ _ =>
    (alike_expectPunct _).weaken.bind fun _ _ _ => ?_
  refine alike_peekKind ?_
  dsimp only
  split
  · exact alike_unexpected .lineEnd
  · refine alike_openBlock.weaken.bind fun _ _ _ => alike_limit ((hall _).bind fun body _ _ => ?_)
    split
    · exact alike_pure _
    · exact alike_unexpected .block

/-- A further segment of a dotted name and those behind it. -/
def segmentRound (rest : Parser (List (String × Span))) : Parser (List (String × Span)) := do
  match ← acceptPunct .dot with
  | some _ =>
    let segment ← identifier
    return segment :: (← rest)
  | none => return []

theorem alike_segmentRound {rest rest' : Parser (List (String × Span))}
    (hrest : AlikeIn 0 s rest rest') : Alike 0 s (segmentRound rest) (segmentRound rest') := by
  refine alike_accept (fun _ s₁ hs₁ => alike_identifier.weaken.bind fun segment s₂ hs₂ => ?_)
    (alike_pure [])
  exact (hrest (hs₁.onward hs₂.1)).done

theorem alike_dottedName : Alike 1 s dottedName dottedName := by
  have hall : ∀ (n : Nat) {t}, Alike 0 t (dottedRest n) (dottedRest n) :=
    fun n _ => alike_upTo (fun _ => alike_pure []) (fun _ _ => alike_segmentRound) n
  exact alike_identifier.bind fun _ _ _ => alike_limit ((hall _).done)

theorem alike_importAlias (stop : Span) : Alike 0 s (importAlias stop) (importAlias stop) :=
  alike_accept (fun _ _ _ => alike_identifier.weaken.done) (alike_pure _)

theorem alike_importDef : Alike 1 s importDef importDef := by
  refine alike_advance fun _ => alike_dottedName.bind fun name _ _ =>
    (alike_importAlias _).bind fun _ _ _ => ?_
  exact alike_lineEnd.done

/-- A leading dot and those behind it. -/
def dotRound (rest : Parser Nat) : Parser Nat := do
  match ← acceptPunct .dot with
  | some _ => return (← rest) + 1
  | none => return 0

theorem alike_dotRound {rest rest' : Parser Nat} (hrest : AlikeIn 0 s rest rest') :
    Alike 0 s (dotRound rest) (dotRound rest') :=
  alike_accept (fun _ _ ht => (hrest ht).done) (alike_pure 0)

theorem alike_importFromDef : Alike 1 s importFromDef importFromDef := by
  have hall : ∀ (n : Nat) {t}, Alike 0 t (dotsUpTo n) (dotsUpTo n) :=
    fun n _ => @alike_upTo _ _ _ dotsUpTo (fun _ => alike_pure 0) (fun _ _ => alike_dotRound) n
  refine alike_advance fun _ => alike_limit ((hall _).bind fun level s₂ _ => alike_peekKind ?_)
  dsimp only
  split
  · refine (alike_pure "").bind fun package _ _ => (alike_expectWord _).bind fun _ _ _ => ?_
    refine alike_identifier.weaken.bind fun name _ _ => (alike_importAlias _).bind fun _ _ _ => ?_
    exact alike_lineEnd.done
  · refine alike_dottedName.weaken.map.bind fun package _ _ =>
      (alike_expectWord _).bind fun _ _ _ => ?_
    refine alike_identifier.weaken.bind fun name _ _ => (alike_importAlias _).bind fun _ _ _ => ?_
    exact alike_lineEnd.done

theorem alike_clause (kind : ClauseKind) : Alike 1 s (clause kind) (clause kind) := by
  refine alike_advance fun _ => (alike_expectPunct _).bind fun _ _ _ =>
    alike_expression.weaken.bind fun _ _ _ => ?_
  exact alike_lineEnd.done

theorem alike_variableDef : Alike 1 s variableDef variableDef := by
  refine alike_identifier.bind fun name _ _ => (alike_expectPunct _).weaken.bind fun _ _ _ => ?_
  refine alike_expression.weaken.bind fun type _ _ => alike_accept (fun _ _ _ => ?_) ?_
  · exact alike_expression.weaken.map.bind fun _ _ _ => alike_lineEnd.done
  · exact (alike_pure none).bind fun _ _ _ => alike_lineEnd.done

theorem alike_wordDeclaration (w : String) (span : Span) :
    Alike 1 s (wordDeclaration w span) (wordDeclaration w span) := by
  refine alike_peekSecond ?_
  dsimp only
  split
  · exact (alike_functionDef []).map
  · exact (alike_memberDef .struct).map
  · exact (alike_memberDef .event).map
  · exact (alike_memberDef .flag).map
  · exact (alike_note _).bind fun _ _ _ => (alike_memberDef .flag).map
  · exact alike_interfaceDef.map
  · exact alike_importDef.map
  · exact alike_importFromDef.map
  · exact (alike_clause .exports).map
  · exact (alike_clause .implements).map
  · exact (alike_clause .initializes).map
  · exact (alike_clause .uses).map
  · exact alike_variableDef.map
  · exact alike_fail _ _

/-- A declaration reads at least one token. -/
theorem alike_declaration : Alike 1 s declaration declaration := by
  refine alike_peek ?_
  split
  · exact alike_decorated.map
  · exact alike_simpleStatement.map
  · exact alike_wordDeclaration _ _
  · exact alike_fail _ _
  · exact alike_unexpected .declaration

/-- A declaration and those behind it. -/
def declarationRound (rest : Parser (List Declaration)) : Parser (List Declaration) := do
  skipNewlines
  if (← peekKind) = .eof then return []
  let first ← declaration
  return first :: (← rest)

theorem alike_declarationRound {rest rest' : Parser (List Declaration)}
    (hrest : AlikeIn 0 s rest rest') :
    Alike 0 s (declarationRound rest) (declarationRound rest') := by
  refine alike_skipNewlines.bind fun _ s₁ hs₁ => alike_peekKind ?_
  split
  · exact alike_pure []
  · refine alike_declaration.bind fun first s₂ hs₂ => ?_
    exact (hrest (hs₁.1.past_trans hs₂)).done

theorem alike_declarations (n : Nat) : Alike 0 s (declarations n) (declarations n) :=
  alike_upTo (fun _ => alike_pure []) (fun _ _ => alike_declarationRound) n

theorem alike_moduleDoc : Alike 0 s moduleDoc moduleDoc := by
  refine alike_peekKind (alike_peekSecond ?_)
  split
  · exact alike_advance fun _ => alike_pure _
  · exact alike_pure none

theorem alike_wholeModule : Alike 0 s wholeModule wholeModule := by
  refine alike_skipNewlines.bind fun _ _ _ => alike_moduleDoc.bind fun _ _ _ => alike_limit ?_
  exact (alike_declarations _).bind fun _ _ _ => alike_peek (alike_pure _)

/-! ### Rounds -/

/-- One round of a loop or a recursion, given what does the rounds behind it. -/
abbrev Round (ι α : Type) := (ι → Parser α) → ι → Parser α

section Rounds

variable {round : Round ι α} {p : ι → Parser α} {f : Nat → ι → Parser α} {m n : Nat}

/-- A round goes on only behind a token it has read. -/
def Round.Steady (k : Nat) (round : Round ι α) : Prop :=
  ∀ ⦃s p q⦄, (∀ x, AlikeIn k s (p x) (q x)) → ∀ x, Alike k s (round p x) (round q x)

/-- After more rounds than there are tokens left, the result is there, whatever would be done behind
them. -/
def Round.Ends (round : Round ι α) (p : ι → Parser α) : Prop :=
  ∀ ⦃s : ParseState⦄, s.Ample → ∀ n, s.tokens.length < n → ∀ rest x, round^[n] rest x s = p x s

namespace Round.Steady

theorem alike (h : round.Steady k) (hn : s.tokens.length < n) (p q : ι → Parser α) (x : ι) :
    Alike k s (round^[n] p x) (round^[n] q x) := by
  induction n generalizing s x with
  | zero => omega
  | succ n ih =>
    rw [Function.iterate_succ_apply', Function.iterate_succ_apply']
    exact h (fun x t ht => ih (by have := ht.2; omega) x) x

theorem iterate_eq (h : round.Steady k) (hs : s.Ample) (hm : s.tokens.length < m)
    (hn : s.tokens.length < n) (p q : ι → Parser α) (x : ι) :
    round^[m] p x s = round^[n] q x s := by
  have hleast : ∀ {n} p, s.tokens.length < n →
      round^[n] p x s = round^[s.tokens.length + 1] q x s := by
    intro n p hn
    obtain ⟨d, rfl⟩ := Nat.exists_eq_add_of_le hn
    rw [Function.iterate_add_apply]
    exact (h.alike (Nat.lt_succ_self _) _ q x hs).1
  rw [hleast p hm, hleast q hn]

theorem iterate_of_succ (hsucc : ∀ n, f (n + 1) = round (f n)) (n : Nat) :
    f n = round^[n] (f 0) := by
  induction n with
  | zero => rfl
  | succ n ih => rw [hsucc, ih, Function.iterate_succ_apply']

/-- A bound of one more than there are tokens is never met. -/
theorem ends_succ (h : round.Steady k) (hsucc : ∀ n, f (n + 1) = round (f n))
    (hp : ∀ x s, p x s = f (s.limit + 1) x s) : ∃ k, round.Steady k ∧ round.Ends p := by
  refine ⟨k, h, ?_⟩
  intro s hs n hn rest x
  rw [hp, iterate_of_succ hsucc]
  exact h.iterate_eq hs hn (Nat.lt_succ_of_le hs) rest (f 0) x

/-- Nor is a bound of as many as there are tokens, where the loop stops at the end of the text. -/
theorem ends (h : round.Steady k) (hsucc : ∀ n, f (n + 1) = round (f n))
    (hstop : ∀ x s, s.tokens = [] → f 1 x s = f 0 x s) (hp : ∀ x s, p x s = f s.limit x s) :
    ∃ k, round.Steady k ∧ round.Ends p := by
  have hnext : ∀ {n s}, s.tokens.length ≤ n → ∀ x, Alike k s (f n x) (f (n + 1) x) := by
    intro n
    induction n with
    | zero =>
      intro s hn x hs
      have heq := hstop x s (List.length_eq_zero_iff.mp (Nat.le_zero.mp hn))
      have hone : Alike k s (f 1 x) (f 1 x) := by
        rw [hsucc 0]
        exact h (fun _ t ht => absurd ht.2 (by omega)) x
      refine ⟨heq.symm, returns_of_ok fun a t hrun => (hone hs).2.1 a t ?_⟩
      rw [heq, hrun]
    | succ n ih =>
      intro s hn x
      rw [hsucc n, hsucc (n + 1)]
      exact h (fun x t ht => ih (by have := ht.2; omega) x) x
  refine ⟨k, h, ?_⟩
  intro s hs n hn rest x
  rw [hp, (hnext hs x hs).1, iterate_of_succ hsucc]
  exact h.iterate_eq hs hn (Nat.lt_succ_of_le hs) rest (f 0) x

/-- What ends is its own first round, without a bound. -/
theorem unfolds (h : round.Steady k) (hends : round.Ends p) (hs : s.Ample) (x : ι) :
    p x s = round p x s := by
  rw [← hends hs (s.tokens.length + 1) (Nat.lt_succ_self _) p x, Function.iterate_succ_apply']
  refine (h (fun y t ht htample => ?_) x hs).1
  have hlt : t.tokens.length < s.tokens.length := ht.2
  exact ⟨hends htample _ hlt p y, (h.alike hlt p p y htample).2⟩

end Round.Steady

end Rounds

/-! ### The recursions of the grammar -/

/-- The parsers of expressions, arguments, elements, statements and declarations. -/
inductive Element : {α : Type} → Parser α → Prop where
  | expression : Element expression
  | expressions : Element expressions
  | argument : Element (argument Parser.expression)
  | entry : Element (entry Parser.expression)
  | param : Element param
  | simpleStatement : Element simpleStatement
  | statement : Element statement
  | declaration : Element declaration

/-- What one round does, and the parser that is made of such rounds. -/
inductive Recursion : {ι α : Type} → Round ι α → (ι → Parser α) → Prop where
  | newlines : Recursion (fun rest _ => newlineRound (rest ())) fun _ : Unit => skipNewlines
  | commas {α : Type} {item : Parser α} (stop : TokenKind → Bool) : Element item →
    Recursion (fun rest _ => commaRound stop item (rest ())) fun _ : Unit => commaList stop item
  | trailers : Recursion (trailerRound expression) fun value =>
      limit >>= fun n => trailersFrom expression n value
  | signs : Recursion (fun rest _ => signRound expression (rest ())) fun _ : Unit =>
      signed expression
  | binaries (ops : List BinaryOp) (tighter : List (List BinaryOp)) :
    Recursion (chainRound (binaryOperator ops) (binaryOver expression tighter) joinBinary)
      fun left => limit >>= fun n =>
        chainFrom (binaryOperator ops) (binaryOver expression tighter) joinBinary n left
  | comparisons (join : Expr → CompareOp → Expr → Expr) :
    Recursion (chainRound compareOperator (binary expression) join) fun left =>
      limit >>= fun n => chainFrom compareOperator (binary expression) join n left
  | negations : Recursion (fun rest _ => negationRound expression (rest ())) fun _ : Unit =>
      negation expression
  | conjunctions :
    Recursion (fun rest _ => logicalRound .and (negation expression) (rest ()))
      fun _ : Unit => limit >>= logicalRest .and (negation expression)
  | disjunctions :
    Recursion (fun rest _ => logicalRound .or (logical .and (negation expression)) (rest ()))
      fun _ : Unit => limit >>= logicalRest .or (logical .and (negation expression))
  | brackets : Recursion (fun rest _ => expressionOver (rest ())) fun _ : Unit => expression
  | lines : Recursion (fun rest _ => lineRound statement (rest ())) fun _ : Unit =>
      limit >>= fun n => blockItems statement (n + 1)
  | branches : Recursion (fun rest _ => branchRound statement (rest ())) fun _ : Unit =>
      limit >>= fun n => branchUpTo statement (n + 1)
  | blocks : Recursion (fun rest _ => statementOver (rest ())) fun _ : Unit => statement
  | decorators : Recursion (fun rest _ => decoratorRound (rest ())) fun _ : Unit =>
      limit >>= decoratorsUpTo
  | signatures : Recursion (fun rest _ => signatureRound (rest ())) fun _ : Unit =>
      limit >>= fun n => interfaceItems (n + 1)
  | segments : Recursion (fun rest _ => segmentRound (rest ())) fun _ : Unit => limit >>= dottedRest
  | dots : Recursion (fun rest _ => dotRound (rest ())) fun _ : Unit => limit >>= dotsUpTo
  | declarations : Recursion (fun rest _ => declarationRound (rest ())) fun _ : Unit =>
      limit >>= fun n => declarations (n + 1)

theorem Element.alike {p : Parser α} (h : Element p) : Alike 1 s p p := by
  cases h with
  | expression => exact alike_expression
  | expressions => exact alike_expressions
  | argument => exact alike_argument fun _ _ => alike_expression
  | entry => exact alike_entry fun _ _ => alike_expression
  | param => exact alike_param
  | simpleStatement => exact alike_simpleStatement
  | statement => exact alike_statement
  | declaration => exact alike_declaration

theorem kind_of_tokens_nil (h : s.tokens = []) : s.kind = .eof := by
  rw [ParseState.kind, ParseState.peek, h]
  rfl

/-- No token is read where there is none. -/
theorem accept_bind_of_nil {kind : TokenKind} {f : Option Span → Parser β} (h : s.tokens = [])
    [hkept : kind.Inner] : (accept kind >>= f) s = f none s := by
  have haccept : accept kind s = .ok (none, s) := by
    refine if_neg ?_
    rw [kind_of_tokens_nil h]
    exact hkept.ne_eof.symm
  exact bind_eq_of_ok haccept

theorem peekKind_bind_of_nil {f : TokenKind → Parser β} (h : s.tokens = []) :
    (peekKind >>= f) s = f .eof s := by
  change f s.kind s = f .eof s
  rw [kind_of_tokens_nil h]

/-- Every round goes on only behind a token, and no bound is met. -/
theorem Recursion.settles {round : Round ι α} {p : ι → Parser α} (h : Recursion round p) :
    ∃ k, round.Steady k ∧ round.Ends p := by
  have hinside : ∀ s, AlikeIn 1 s expression expression := fun _ _ _ => alike_expression
  have hstatement : ∀ s, AlikeIn 1 s statement statement := fun _ _ _ => alike_statement
  have hnegation : ∀ s, AlikeOn 1 s (negation expression) (negation expression) :=
    fun _ t _ => alike_negation (hinside t)
  have htrailer : ∀ value s, s.tokens = [] → trailer expression value s = .ok (none, s) :=
    fun _ _ hs => peekKind_bind_of_nil hs
  have hbinary : ∀ ops s, s.tokens = [] → binaryOperator ops s = .ok (none, s) :=
    fun _ _ hs => peekKind_bind_of_nil hs
  have hcompare : ∀ s, s.tokens = [] → compareOperator s = .ok (none, s) :=
    fun _ hs => peekKind_bind_of_nil hs
  cases h with
  | newlines =>
    exact Round.Steady.ends (f := fun n _ => skipNewlinesUpTo n)
      (fun _ _ _ h _ => alike_newlineRound (h ()))
      (fun _ => rfl) (fun _ _ hs => accept_bind_of_nil hs) fun _ _ => rfl
  | @commas _ item stop hitem =>
    exact Round.Steady.ends_succ (f := fun n _ => commaItems stop item n)
      (fun _ _ _ h _ => alike_commaRound stop hitem.alike (h ())) (fun _ => rfl) fun _ _ => rfl
  | trailers =>
    exact Round.Steady.ends (f := trailersFrom expression)
      (fun s _ _ h => alike_trailerRound (hinside s) h)
      (fun _ => rfl) (fun x s hs => bind_eq_of_ok (htrailer x s hs)) fun _ _ => rfl
  | signs =>
    exact Round.Steady.ends_succ (f := fun n _ => signedUpTo expression n)
      (fun s _ _ h _ => alike_signRound (hinside s) (h ())) (fun _ => rfl) fun _ _ => rfl
  | binaries ops tighter =>
    exact Round.Steady.ends (f := chainFrom (binaryOperator ops) (binaryOver expression tighter)
      joinBinary) (fun s _ _ h => alike_chainRound (tryAlike_binaryOperator ops)
        (fun t _ => alike_binaryOver (hinside t) tighter) h)
      (fun _ => rfl) (fun _ s hs => bind_eq_of_ok (hbinary ops s hs)) fun _ _ => rfl
  | comparisons join =>
    exact Round.Steady.ends (f := chainFrom compareOperator (binary expression) join)
      (fun s _ _ h => alike_chainRound tryAlike_compareOperator
        (fun t _ => alike_binaryOver (hinside t) binaryLevels) h)
      (fun _ => rfl) (fun _ s hs => bind_eq_of_ok (hcompare s hs)) fun _ _ => rfl
  | negations =>
    exact Round.Steady.ends_succ (f := fun n _ => negationUpTo expression n)
      (fun s _ _ h _ => alike_negationRound (hinside s) (h ())) (fun _ => rfl) fun _ _ => rfl
  | conjunctions =>
    exact Round.Steady.ends (f := fun n _ => logicalRest .and (negation expression) n)
      (fun s _ _ h _ => alike_logicalRound .and (hnegation s) (h ()))
      (fun _ => rfl) (fun _ _ hs => accept_bind_of_nil hs) fun _ _ => rfl
  | disjunctions =>
    exact Round.Steady.ends (f := fun n _ => logicalRest .or (logical .and (negation expression)) n)
      (fun s _ _ h _ => alike_logicalRound .or (fun t _ => alike_logical .and (hnegation t)) (h ()))
      (fun _ => rfl) (fun _ _ hs => accept_bind_of_nil hs) fun _ _ => rfl
  | brackets =>
    exact Round.Steady.ends_succ (f := fun n _ => expressionUpTo n)
      (fun _ _ _ h _ => alike_expressionOver (h ())) (fun _ => rfl) fun _ _ => rfl
  | lines =>
    exact Round.Steady.ends_succ (f := fun n _ => blockItems statement n)
      (fun _ _ _ h _ => alike_lineRound (fun _ _ => alike_statement) (h ()))
      (fun _ => rfl) fun _ _ => rfl
  | branches =>
    exact Round.Steady.ends_succ (f := fun n _ => branchUpTo statement n)
      (fun s _ _ h _ => alike_branchRound (hstatement s) (h ())) (fun _ => rfl) fun _ _ => rfl
  | blocks =>
    exact Round.Steady.ends_succ (f := fun n _ => statementUpTo n)
      (fun _ _ _ h _ => alike_statementOver (h ())) (fun _ => rfl) fun _ _ => rfl
  | decorators =>
    exact Round.Steady.ends (f := fun n _ => decoratorsUpTo n)
      (fun _ _ _ h _ => alike_decoratorRound (h ()))
      (fun _ => rfl) (fun _ _ hs => accept_bind_of_nil hs) fun _ _ => rfl
  | signatures =>
    exact Round.Steady.ends_succ (f := fun n _ => interfaceItems n)
      (fun _ _ _ h _ => alike_signatureRound (h ())) (fun _ => rfl) fun _ _ => rfl
  | segments =>
    exact Round.Steady.ends (f := fun n _ => dottedRest n)
      (fun _ _ _ h _ => alike_segmentRound (h ()))
      (fun _ => rfl) (fun _ _ hs => accept_bind_of_nil hs) fun _ _ => rfl
  | dots =>
    exact Round.Steady.ends (f := fun n _ => dotsUpTo n) (fun _ _ _ h _ => alike_dotRound (h ()))
      (fun _ => rfl) (fun _ _ hs => accept_bind_of_nil hs) fun _ _ => rfl
  | declarations =>
    exact Round.Steady.ends_succ (f := fun n _ => Parser.declarations n)
      (fun _ _ _ h _ => alike_declarationRound (h ())) (fun _ => rfl) fun _ _ => rfl

/-- With rounds enough for the tokens left, declarations are read up to the end of the text. -/
theorem yields_declarations_eof {n : Nat} (hs : s.Ample) (hn : s.tokens.length < n) :
    Returns (Parser.declarations n) s fun _ t => t.kind = .eof := by
  induction n generalizing s with
  | zero => exact absurd hn (Nat.not_lt_zero _)
  | succ n ih =>
    refine (alike_skipNewlines hs).2.bind fun _ s₁ hs₁ => yields_peekKind ?_
    split
    · next hkind => exact yields_pure hkind
    · refine (alike_declaration (hs₁.1.ample hs)).2.bind fun first s₂ hs₂ => ?_
      have hread := (hs₁.1.past_trans hs₂).2
      refine (ih (hs₂.1.ample (hs₁.1.ample hs)) (by omega)).bind fun _ _ ht => yields_pure ht

theorem yields_wholeModule_eof (hs : s.Ample) : Returns wholeModule s fun _ t => t.kind = .eof := by
  refine (alike_skipNewlines hs).2.bind fun _ s₁ hs₁ => ?_
  have hs₁ := hs₁.1.ample hs
  refine (alike_moduleDoc hs₁).2.bind fun _ s₂ hs₂ => ?_
  have hs₂ := hs₂.1.ample hs₁
  exact yields_limit ((yields_declarations_eof hs₂ (Nat.lt_succ_of_le hs₂)).bind fun _ _ ht =>
    yields_peek (yields_pure ht))

end Parser

namespace TokenStream

open Vyper.Parser (Round Recursion Element expression statement expressionOver wholeModule
  alike_wholeModule yields_wholeModule_eof)

/-- The tokens of a stream with the mark of its end behind them. -/
def marked (stream : TokenStream) : List Token := stream.tokens ++ [⟨.eof, stream.eof⟩]

/-- A parser before the `i`-th token of a stream. -/
def before (stream : TokenStream) (i : Nat) (notes : List Deprecation) : ParseState :=
  { tokens := stream.tokens.drop i, eof := stream.eof, limit := stream.tokens.length, notes }

variable {α : Type} (stream : TokenStream) (i : Nat) (notes : List Deprecation)

theorem ample_before : (stream.before i notes).Ample := by
  simp only [before, ParseState.Ample, List.length_drop]
  omega

theorem marked_getElem? (n : Nat) :
    stream.marked[min (i + n) stream.tokens.length]? = some ((stream.before i notes).peek n) := by
  simp only [marked, before, ParseState.peek, List.getElem?_drop]
  rcases Nat.lt_or_ge (i + n) stream.tokens.length with h | h
  · rw [min_eq_left h.le, List.getElem?_append_left h, List.getElem?_eq_getElem h]
    rfl
  · rw [min_eq_right h, List.getElem?_concat_length, List.getElem?_eq_none h]
    rfl

theorem advance_before :
    (stream.before i notes).advance = stream.before (min (i + 1) stream.tokens.length) notes := by
  simp only [before, ParseState.advance, List.tail_drop]
  rcases Nat.le_total (i + 1) stream.tokens.length with h | h
  · rw [min_eq_left h]
  · rw [min_eq_right h, List.drop_eq_nil_of_le h, List.drop_length]

variable {stream i notes}

/-- Reading on from a place of a stream leads to a place of the stream. -/
theorem exists_before {k : Nat} {t : ParseState} (h : (stream.before i notes).Past k t) :
    ∃ j, min i stream.tokens.length + k ≤ j ∧ j ≤ stream.tokens.length ∧
      t = stream.before j t.notes := by
  obtain ⟨⟨htokens, heof, hlimit⟩, hread⟩ := h
  have hsuffix : t.tokens <:+ stream.tokens := htokens.trans (List.drop_suffix i _)
  simp only [before, List.length_drop] at hread
  refine ⟨stream.tokens.length - t.tokens.length, by omega, Nat.sub_le _ _, ?_⟩
  obtain ⟨tokens, eof, limit, notes'⟩ := t
  cases heof
  cases hlimit
  simp only [before, ParseState.mk.injEq, and_true]
  exact List.suffix_iff_eq_drop.mp hsuffix

/-- Parsing ends, from every place of every list of tokens with the mark of the end behind it. The
tokens a parser sees are those of the list, the last of them as often as it looks; the places it
comes to are places of the list. Each loop and recursion of the grammar is over after at most one
round more than there are tokens left, and is what its rounds say without a bound. A parser of
expressions, arguments, elements, statements or declarations that succeeds is at least one token
further, and not behind the mark. -/
theorem parsing_ends (stream : TokenStream) (i : Nat) (notes : List Deprecation) :
    (∀ n, stream.marked[min (i + n) stream.tokens.length]? =
      some ((stream.before i notes).peek n)) ∧
    (stream.before i notes).advance = stream.before (min (i + 1) stream.tokens.length) notes ∧
    (∀ {ι α : Type} {round : Round ι α} {p : ι → Parser α}, Recursion round p → ∀ x,
      (∀ rest, round^[stream.tokens.length - i + 1] rest x (stream.before i notes) =
        p x (stream.before i notes)) ∧
      p x (stream.before i notes) = round p x (stream.before i notes)) ∧
    (∀ {α : Type} {p : Parser α} {a : α} {t : ParseState}, Element p →
      p (stream.before i notes) = .ok (a, t) →
      ∃ j notes', i < j ∧ j ≤ stream.tokens.length ∧ t = stream.before j notes') ∧
    ∀ {m : Module} {t : ParseState}, wholeModule (.ofStream stream) = .ok (m, t) →
      ∃ j notes', j ≤ stream.tokens.length ∧ t = stream.before j notes' ∧ t.kind = .eof := by
  have hample := stream.ample_before i notes
  refine ⟨stream.marked_getElem? i notes, stream.advance_before i notes, ?_, ?_, ?_⟩
  · intro ι α round p h x
    obtain ⟨k, hsteady, hends⟩ := h.settles
    refine ⟨fun rest => hends hample _ ?_ rest x, hsteady.unfolds hends hample x⟩
    simp [before]
  · intro α p a t h hrun
    have hpast := (h.alike hample).2.1 a t hrun
    obtain ⟨j, hlt, hle, ht⟩ := exists_before hpast
    refine ⟨j, t.notes, ?_, hle, ht⟩
    omega
  · intro m t hrun
    have hstart : ParseState.ofStream stream = stream.before 0 [] := rfl
    rw [hstart] at hrun
    have hstarts := stream.ample_before 0 []
    obtain ⟨j, -, hle, ht⟩ := exists_before ((alike_wholeModule hstarts).2.1 m t hrun)
    exact ⟨j, t.notes, hle, ht, (yields_wholeModule_eof hstarts).1 m t hrun⟩

/-- The statement `f()` before the end of a text: it is read in full, and nothing is left but the
mark. -/
theorem parsing_ends_call :
    ∃ (stream : TokenStream) (made : Stmt) (t : ParseState),
      stream.tokens.map (·.kind) = [.name "f", .punct .openParen, .punct .closeParen, .newline] ∧
      statement (stream.before 0 []) = .ok (made, t) ∧
      (∃ j notes', 0 < j ∧ j ≤ 4 ∧ t = stream.before j notes') ∧ t.tokens = [] ∧
      ∀ rest, (fun (inner : Unit → Parser Expr) _ => expressionOver (inner ()))^[5] rest ()
        (stream.before 0 []) = expression (stream.before 0 []) := by
  let span : Span := ⟨Pos.origin, Pos.origin⟩
  let stream : TokenStream :=
    ⟨[⟨.name "f", span⟩, ⟨.punct .openParen, span⟩, ⟨.punct .closeParen, span⟩, ⟨.newline, span⟩],
      span⟩
  obtain ⟨-, -, hends, hplaces, -⟩ := stream.parsing_ends 0 []
  have hrun : ∃ made t, statement (stream.before 0 []) = .ok (made, t) ∧ t.tokens = [] :=
    ⟨_, _, rfl, rfl⟩
  obtain ⟨made, t, hrun, hempty⟩ := hrun
  exact ⟨stream, made, t, rfl, hrun, hplaces .statement hrun, hempty, (hends .brackets ()).1⟩

end TokenStream

end Vyper
