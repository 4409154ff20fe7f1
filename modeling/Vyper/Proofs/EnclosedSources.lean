import Vyper.Proofs.Retracing
import Vyper.Proofs.RoundTrip
import Vyper.Proofs.SelfMembers
import Vyper.Proofs.Stretches

/-!
# The source of an expression in parentheses

The source of an expression, put in parentheses and read again, is the expression, places aside
(`Module.parse_enclosed_source`). The parentheses have to close right behind it: the source of
`(1 + 2) * 3` is `1 + 2) * 3`, for a node begins where its first operand does, behind the
parenthesis.
-/

namespace Vyper

/-- A line that declares a variable with a value in parentheses. -/
def encloseSource (id : String) (type : Expr) (source : List Char) : List Char :=
  (id ++ ": " ++ type.print ++ " = ").toList ++ '(' :: (source ++ [')', '\n'])

/-- The pieces of the line up to the parenthesis. -/
def openingPieces (type : Expr) : List Piece :=
  [.symbol .colon, .blank] ++ type.pieces ++ [.blank, .symbol .assign, .blank]

theorem encloseSource_eq (id : String) (type : Expr) (source : List Char) :
    encloseSource id type source =
      Piece.textOf (.word id :: openingPieces type) ++ '(' :: (source ++ [')', '\n']) := by
  simp [encloseSource, openingPieces, Expr.print, Piece.text, Piece.word, Piece.symbol,
    TokenKind.spelling, Punct.text]

theorem spaced_openingPieces {id : String} (hid : isIdentifier id) {type : Expr}
    (htype : type.Writable)
    (tail : List Char) : Piece.Spaced (.word id :: openingPieces type) ('(' :: tail) := by
  have hassign : Piece.Separator [.blank, .symbol .assign, .blank] := Piece.separator_token rfl
  have hname := (Piece.selfContained_word hid).join Piece.separator_colon htype.selfContained.1
  have hparen : Piece.Begins ('(' :: tail) := ⟨'(', tail, rfl, by decide, by decide⟩
  have hpieces : .word id :: openingPieces type =
      [Piece.word id] ++ [.symbol .colon, .blank] ++ type.pieces ++
        [.blank, .symbol .assign, .blank] := by
    simp [openingPieces]
  rw [hpieces, Piece.spaced_append]
  exact ⟨hname.spaced _ (hassign.ends _ hparen), hassign.spaced _ hparen⟩

theorem kindsOf_openingPieces (type : Expr) :
    Piece.kindsOf (openingPieces type) = .punct .colon :: (type.kinds ++ [.punct .assign]) := by
  simp [openingPieces, Expr.kinds, Piece.symbol]

namespace Layout

theorem tokens_symbol {s : Layout} {p : Punct} {c : Char} {rest : List Char} (hs : s.fresh = false)
    (hcut : Lexeme.cut c rest = ⟨.token (.punct p), [c], rest⟩) (m : Mark) (eof : Span) :
    s.tokens eof (Lexeme.scan m (c :: rest)) = (⟨.punct p, ⟨m.pos, (m.advance [c]).pos⟩⟩ :: ·) <$>
      (s.afterToken (.punct p)).tokens eof (Lexeme.scan (m.advance [c]) rest) := by
  rw [Lexeme.scan, hcut, tokens_cons_of_feed (feed_token_of_not_fresh hs ..)]
  rfl

/-- A source in parentheses, up to the end of the line. -/
theorem tokens_enclosed (s : Layout) (hs : s.fresh = false) (hlevels : s.levels = [])
    {source : List Char}
    {ls : List Lexeme} (hcuts : Lexeme.Cuts [')', '\n'] source ls)
      (hgood : ∀ l ∈ ls, ∀ fault, l ≠ .bad fault)
    (hopen : Lexeme.openAfter 1 ls = some 1) (m : Mark) (eof : Span) :
    ∃ out, s.tokens eof (Lexeme.scan m ('(' :: (source ++ [')', '\n']))) = .ok out ∧
      out.map Token.kind =
        .punct .openParen :: (ls.filterMap Lexeme.kind? ++ [.punct .closeParen, .newline]) := by
  have hleft : Lexeme.cut '(' (source ++ [')', '\n']) =
      ⟨.token (.punct .openParen), ['('], source ++ [')', '\n']⟩ := rfl
  have hright : Lexeme.cut ')' ['\n'] = ⟨.token (.punct .closeParen), [')'], ['\n']⟩ := rfl
  obtain ⟨ps, hscan, hps⟩ := hcuts.exists_scan (m.advance ['('])
  have hplain : ∀ p ∈ ps, ∀ fault, p.lexeme ≠ .bad fault :=
    fun p hp => hgood p.lexeme (hps ▸ List.mem_map_of_mem hp)
  have hdepth : Lexeme.openAfter (s.afterToken (.punct .openParen)).depth (ps.map (·.lexeme)) =
      some (s.depth + 1) := by
    have hadd := Lexeme.openAfter_add hopen s.depth
    rwa [Nat.add_comm 1, ← hps] at hadd
  let inside : Layout := { s.afterToken (.punct .openParen) with depth := s.depth + 1 }
  obtain ⟨last, hlast⟩ := tokens_lineFeed (inside.afterToken (.punct .closeParen)) rfl hlevels
    (((m.advance ['(']).advance source).advance [')']) eof
  let opening : Token := ⟨.punct .openParen, ⟨m.pos, (m.advance ['(']).pos⟩⟩
  let closing : Token := ⟨.punct .closeParen, ⟨((m.advance ['(']).advance source).pos,
    (((m.advance ['(']).advance source).advance [')']).pos⟩⟩
  refine ⟨opening :: (ps.filterMap Placed.token? ++ [closing, ⟨.newline, last⟩]), ?_, ?_⟩
  · rw [tokens_symbol hs hleft, hscan, tokens_inside hplain rfl rfl hdepth,
      tokens_symbol rfl hright, hlast]
    rfl
  · rw [← hps, ← Lexeme.kinds_tokens]
    simp [opening, closing]

end Layout

namespace TokenStream

/-- The tokens of the line: those of the source stand between the parentheses, whatever lines the
source goes over. -/
theorem exists_ofText_encloseSource {id : String} (hid : isIdentifier id) {type : Expr}
    (htype : type.Writable)
    {source : List Char} {ls : List Lexeme} (hcuts : Lexeme.Cuts [')', '\n'] source ls)
    (hgood : ∀ l ∈ ls, ∀ fault, l ≠ .bad fault) (hopen : Lexeme.openAfter 1 ls = some 1) :
    ∃ stream, TokenStream.ofText (encloseSource id type source) = .ok stream ∧
      stream.tokens.map Token.kind = Parser.declarationRow id type.kinds
        (.punct .openParen :: (ls.filterMap Lexeme.kind? ++ [.punct .closeParen])) := by
  let s : Layout := Layout.afterToken {} (.name id)
  let eof := Span.point (Pos.origin.advance (encloseSource id type source))
  let m := Mark.origin.advance (TokenKind.name id).spelling
  have h := spaced_openingPieces hid htype (source ++ [')', '\n'])
  have hfeed : ∀ span, Layout.feed {} ⟨.token (.name id), span, Mark.origin.width⟩ =
      .ok ([⟨.name id, span⟩], s) := fun span => rfl
  obtain ⟨out, depth, m', hout, hrow⟩ := Layout.tokens_row h.2.2 s rfl rfl m eof
  obtain ⟨rest, hrest, hkinds⟩ :=
    Layout.tokens_enclosed { s with depth } rfl rfl hcuts hgood hopen m' eof
  let first : Token := ⟨.name id, ⟨Mark.origin.pos, m.pos⟩⟩
  have htokens : Layout.tokens {} eof (Lexeme.scan Mark.origin (encloseSource id type source)) =
      .ok (first :: out ++ rest) := by
    rw [encloseSource_eq, Piece.textOf_cons, List.append_assoc]
    change Layout.tokens {} eof (Lexeme.scan Mark.origin ((TokenKind.name id).spelling ++ _)) = _
    rw [Lexeme.scan_spelling Mark.origin h.1 h.2.1, Layout.tokens_cons_of_feed (hfeed _),
      hrow, hrest]
    rfl
  refine ⟨⟨first :: out ++ rest, eof⟩, ?_, ?_⟩
  · rw [TokenStream.ofText, htokens]
    rfl
  · simp [first, hout, hkinds, kindsOf_openingPieces, Parser.declarationRow]

end TokenStream

theorem Node.exists_of_kind_logical {n : Node} (h : n.kind = .logical) :
    ∃ span op values, n = .expr (.logical span op values) := by
  cases n with
  | expr e =>
    cases e with
    | logical span op values => exact ⟨span, op, values, rfl⟩
    | numeral span form text => cases form <;> cases h
    | _ => cases h
  | stmt s => cases s <;> cases h
  | members d => rcases d with ⟨_ | _ | _, _⟩ <;> cases h
  | clause c => rcases c with ⟨_ | _ | _ | _, _⟩ <;> cases h
  | _ => cases h

namespace Module

/-- A text with the tokens of a declaration declares the variable. -/
theorem parse_of_row {text : List Char} {stream : TokenStream}
    (hstream : TokenStream.ofText text = .ok stream) {id : String} (hfree : id ∉ declarationWords)
    {type value : Expr} {ks ls : List TokenKind}
    (hkinds : stream.tokens.map Token.kind = Parser.declarationRow id ks ls)
    (htype : Parser.ReadsInside Parser.expression ks type)
    (hvalue : Parser.ReadsInside Parser.expression ls value) :
    ∃ parsed v, Module.parse text = .ok parsed ∧ parsed.tree.body = [.var v] ∧
      Parser.Declares id type value v := by
  obtain ⟨parsed, hparse, v, hv, hbody⟩ := Module.parse_of_reads hstream hkinds
    (Parser.reads_wholeModule_row (Parser.reads_variableDef htype hvalue) hfree)
  exact ⟨parsed, v, hparse, hbody, hv⟩

/-- What is read at every depth that is deep enough is read as an expression. -/
theorem readsInside_of_readsAt {ks : List TokenKind} {e : Expr}
    (h : ∀ n, ks.length ≤ n → Parser.ReadsAt (Parser.expressionUpTo n) 0 ks e) :
    Parser.ReadsInside Parser.expression ks e := by
  intro rest hrest
  refine (Parser.reads_limit _).look ?_
  intro n hn
  rw [List.length_append] at hn
  exact (h n (by omega)).reads hrest

/-- A node at the end of a path is a site of the tree. -/
theorem exists_site_of_parse {text source : List Char} {path : List Nat} {kind : Kind}
    (h : ((Module.parse text).toOption.bind fun parsed =>
      ((Node.module parsed.tree).at? path).map fun n => (n.kind, Rows.slice text n.span)) =
        some (kind, source)) (hne : path ≠ []) :
    ∃ parsed, Module.parse text = .ok parsed ∧
      ∃ s ∈ (Tree.ofModule parsed.tree text).sites, s.node.kind = kind ∧
        (Tree.ofModule parsed.tree text).sourceOf s.node = source := by
  obtain ⟨parsed, hparsed, hx⟩ := Option.bind_eq_some_iff.mp h
  obtain ⟨s, hs, hshown⟩ := Module.exists_site text hx hne
  exact ⟨parsed, eq_ok_of_toOption hparsed, s, hs, Prod.mk.inj hshown⟩

/-- The source of an expression is read again as the expression, places aside, when it is the value
of a declaration in parentheses. The parentheses must close right behind it, and no line of it may
end outside brackets. -/
theorem parse_enclosed_source {text : List Char} {parsed : Parsed}
    (hparse : Module.parse text = .ok parsed) {s : Site}
    (hs : s ∈ (Tree.ofModule parsed.tree text).sites) {e : Expr} (he : s.node = .expr e)
    {source : List Char} (hsource : (Tree.ofModule parsed.tree text).sourceOf s.node = source)
    (hclosed : Lexeme.openAfter 1 (Lexeme.ofText source) = some 1)
    (henclosable : e.Enclosable ((Lexeme.ofText source).filterMap Lexeme.kind?)) {id : String}
    (hid : isIdentifier id) (hfree : id ∉ declarationWords) {type : Expr} (htype : type.Writable) :
    ∃ again v read, Module.parse (encloseSource id type source) = .ok again ∧
      again.tree.body = [.var v] ∧ v.target.id? = some id ∧ v.type.unplaced = type.unplaced ∧
      v.value = some read ∧ read.unplaced = e.unplaced := by
  obtain ⟨stream, -, hstream, -⟩ := exists_of_parse hparse
  rw [Tree.sites_eq] at hs
  obtain ⟨path, hpath⟩ := Site.exists_path hs
  rw [he] at hpath hsource
  obtain ⟨own, hown, hspans, hplain, hrestored⟩ := restored_of_parse hparse hstream path _ hpath
  obtain ⟨after, ls, hcuts, hgood, hlast, hkinds⟩ :=
    TokenStream.exists_stretch hstream hown hplain hspans
  obtain rfl : Rows.slice text e.span = source := hsource
  rw [(hcuts.swap hgood hlast Lexeme.ending_nil).ofText_eq] at hclosed henclosable
  have hopen := Lexeme.openAfter_kinds hclosed
  rw [hkinds] at hopen henclosable
  obtain ⟨stream', hstream', hrow⟩ := TokenStream.exists_ofText_encloseSource hid htype
    (hcuts.swap hgood hlast (Lexeme.ending_paren _)) hgood hclosed
  rw [hkinds] at hrow
  have hvalue : Parser.ReadsInside Parser.expression (Parser.enclosedRow own) e := by
    refine readsInside_of_readsAt fun n hn => hrestored hopen henclosable n ?_
    grind [Parser.enclosedRow]
  obtain ⟨again, v, hagain, hbody, hname, htype', read, hread, hlike⟩ :=
    parse_of_row hstream' hfree hrow (fun _ => Parser.reads_expression htype) hvalue
  exact ⟨again, v, read, hagain, hbody, hname, htype', hread, hlike⟩

/-- The value has an alternative that goes over two lines, in brackets that are not its own. -/
def brokenAlternative : List Char :=
  "x: T = [a in self.x[1, f(y, k=\"z\")] # d\n or -(b + c) ** 2 < d][0]\n".toList

def alternativeSource : List Char :=
  "a in self.x[1, f(y, k=\"z\")] # d\n or -(b + c) ** 2 < d".toList

theorem parse_enclosed_source_alternative :
    ∃ parsed, Module.parse brokenAlternative = .ok parsed ∧
      ∃ s ∈ (Tree.ofModule parsed.tree brokenAlternative).sites, ∃ span op values,
        s.node = .expr (.logical span op values) ∧
        (Tree.ofModule parsed.tree brokenAlternative).sourceOf s.node = alternativeSource ∧
        ∃ again v read, Module.parse (encloseSource "y" (.name nowhere "T") alternativeSource) =
          .ok again ∧ again.tree.body = [.var v] ∧ v.target.id? = some "y" ∧
          v.type.unplaced = (Expr.name nowhere "T").unplaced ∧ v.value = some read ∧
          read.unplaced = (Expr.logical span op values).unplaced := by
  have hshown : ((Module.parse brokenAlternative).toOption.bind fun parsed =>
      ((Node.module parsed.tree).at? [0, 2, 0, 0]).map fun n =>
        (n.kind, Rows.slice brokenAlternative n.span)) = some (.logical, alternativeSource) := by
    decide +kernel
  obtain ⟨parsed, hparse, s, hs, hkind, hsource⟩ :=
    exists_site_of_parse hshown (List.cons_ne_nil _ _)
  obtain ⟨span, op, values, he⟩ := Node.exists_of_kind_logical hkind
  refine ⟨parsed, hparse, s, hs, span, op, values, he, hsource, ?_⟩
  exact parse_enclosed_source hparse hs he hsource (by decide +kernel) ⟨nofun, nofun⟩ (by decide)
    (by decide) (.name (by decide) (by decide))

/-- The first operand of the product is a sum in parentheses. -/
def groupedProduct : List Char := "x: T = (1 + 2) * 3\n".toList

/-- The source of the product has a parenthesis that opens before it, and in parentheses it does not
parse. -/
theorem parse_enclosed_groupedProduct :
    ∃ parsed, Module.parse groupedProduct = .ok parsed ∧
      (∃ s ∈ (Tree.ofModule parsed.tree groupedProduct).sites, s.node.kind = .binary ∧
        (Tree.ofModule parsed.tree groupedProduct).sourceOf s.node = "1 + 2) * 3".toList) ∧
      Module.parse (encloseSource "x" (.name nowhere "T") "1 + 2) * 3".toList) =
        .error (.located (.expected .lineEnd (.punct .closeParen)) ⟨⟨1, 18⟩, ⟨1, 19⟩⟩) := by
  have hshown : ((Module.parse groupedProduct).toOption.bind fun parsed =>
      ((Node.module parsed.tree).at? [0, 2]).map fun n =>
        (n.kind, Rows.slice groupedProduct n.span)) = some (.binary, "1 + 2) * 3".toList) := by
    decide +kernel
  obtain ⟨parsed, hparse, hsite⟩ := exists_site_of_parse hshown (List.cons_ne_nil _ _)
  exact ⟨parsed, hparse, hsite, eq_error_of_failure? (by decide +kernel)⟩

end Module

end Vyper
