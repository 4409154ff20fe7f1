import Vyper.Proofs.Lexing
import Vyper.Proofs.Rereading

/-!
# Reading what was written

The tokens of a written expression are read back as that expression. The induction is over the tree,
for all levels at once: at each level the parser reads the tokens that are written in a place asking
for that level. A place that asks for more than the expression has puts it in parentheses, and the
parser of the next depth reads what they hold.

The last step puts this together with the line the tokens are cut from: a declaration written with
any type and any value is read back with the same type and the same value, places aside.
-/

namespace Vyper

namespace Piece

theorem kindsOf_intercalate (sep : List Piece) (rows : List (List Piece)) :
    kindsOf (List.intercalate sep rows) = List.intercalate (kindsOf sep) (rows.map kindsOf) := by
  induction rows with
  | nil => rfl
  | cons row rows ih =>
    cases rows with
    | nil => simp
    | cons next rows =>
      rw [List.intercalate_cons_cons, List.map_cons, List.map_cons, List.intercalate_cons_cons,
        ← List.map_cons, ← ih, kindsOf_append, kindsOf_append]

theorem kindsOf_symbol (p : Punct) (ps : List Piece) :
    kindsOf (symbol p :: ps) = .punct p :: kindsOf ps := rfl

theorem kindsOf_commas (rows : List (List Piece)) :
    kindsOf (commas rows) = List.intercalate [.punct .comma] (rows.map kindsOf) :=
  kindsOf_intercalate _ rows

end Piece

/-- The tokens of an expression. -/
def Expr.kinds (e : Expr) : List TokenKind := Piece.kindsOf e.pieces

/-- The tokens of an expression in a place that asks for a level. -/
def Expr.kindsAt (l : Nat) (e : Expr) : List TokenKind := Piece.kindsOf (e.piecesAt l)

/-- The tokens of an argument of a call. -/
def argumentKinds : Expr ⊕ Keyword → List TokenKind
  | .inl e => e.kinds
  | .inr k => .name k.name :: .punct .assign :: k.value.kinds

def Entry.kinds (r : Entry) : List TokenKind := r.key.kinds ++ (.punct .colon :: r.value.kinds)

namespace Expr

variable {span : Span} {l : Nat} {e : Expr}

theorem kindsAt_of_le (h : l ≤ e.level) : e.kindsAt l = e.kinds := by
  unfold kindsAt piecesAt Piece.enclose
  rw [if_neg (by omega)]
  rfl

theorem kindsAt_of_lt (h : e.level < l) :
    e.kindsAt l = .punct .openParen :: (e.kinds ++ [.punct .closeParen]) := by
  unfold kindsAt piecesAt Piece.enclose
  rw [if_pos h, List.cons_append, Piece.symbol, Piece.kindsOf_token, Piece.kindsOf_append]
  rfl

theorem kindsAt_zero (e : Expr) : e.kindsAt 0 = e.kinds := kindsAt_of_le (Nat.zero_le _)

theorem kindsOf_piecesOf (es : List Expr) : (piecesOf 0 es).map Piece.kindsOf = es.map kinds := by
  rw [piecesOf_eq, List.map_map]
  rfl

theorem kinds_member (value : Expr) (attr : String) :
    (Expr.member span value attr).kinds = value.kindsAt 11 ++ [.punct .dot, .name attr] := by
  rw [kinds, pieces, Piece.kindsOf_append]
  rfl

theorem kinds_call (func : Expr) (args : List Expr) (keywords : List Keyword) :
    (Expr.call span func args keywords).kinds = func.kindsAt 11 ++ (.punct .openParen ::
      (List.intercalate [.punct .comma] ((Parser.argumentsOf args keywords).map argumentKinds) ++
        [.punct .closeParen])) := by
  have hrows : (piecesOf 0 args ++ Keyword.piecesOf keywords).map Piece.kindsOf =
      (Parser.argumentsOf args keywords).map argumentKinds := by
    rw [List.map_append, kindsOf_piecesOf, Keyword.piecesOf_eq, Parser.argumentsOf, List.map_append,
      List.map_map, List.map_map, List.map_map]
    congr 1
    refine List.map_congr_left fun k _ => ?_
    cases k
    rfl
  rw [kinds, pieces, Piece.kindsOf_append, Piece.kindsOf_append, Piece.kindsOf_symbol,
    Piece.kindsOf_commas, hrows, List.append_assoc]
  rfl

theorem kinds_subscript (value slice : Expr) :
    (Expr.subscript span value slice).kinds = value.kindsAt 11 ++ (.punct .openBracket ::
      (Piece.kindsOf slice.slicePieces ++ [.punct .closeBracket])) := by
  rw [kinds, pieces_subscript, Piece.kindsOf_append, Piece.kindsOf_append, Piece.kindsOf_symbol,
    List.append_assoc]
  rfl

theorem kinds_binary (left : Expr) (op : BinaryOp) (right : Expr) :
    (Expr.binary span left op right).kinds =
      left.kindsAt op.leftLevel ++ (.punct (.binary op) :: right.kindsAt op.rightLevel) := by
  rw [kinds, pieces, Piece.kindsOf_append, Piece.kindsOf_append, List.append_assoc]
  rfl

theorem kinds_compare (left : Expr) (op : CompareOp) (right : Expr) :
    (Expr.compare span left op right).kinds =
      left.kindsAt 3 ++ (Piece.kindsOf op.pieces ++ right.kindsAt 4) := by
  rw [kinds, pieces, Piece.kindsOf_append, Piece.kindsOf_append, List.append_assoc]
  rfl

theorem kinds_logical (op : BoolOp) (values : List Expr) :
    (Expr.logical span op values).kinds =
      List.intercalate [.name op.text] (values.map (kindsAt (op.level + 1))) := by
  rw [kinds, pieces, Piece.kindsOf_intercalate, piecesOf_eq, List.map_map]
  rfl

theorem kinds_unary (op : UnaryOp) (operand : Expr) :
    (Expr.unary span op operand).kinds = Piece.kindsOf op.pieces ++ operand.kindsAt op.level := by
  rw [kinds, pieces, Piece.kindsOf_append]
  rfl

theorem kinds_tuple_one (only : Expr) :
    (Expr.tuple span [only]).kinds =
      .punct .openParen :: (only.kinds ++ [.punct .comma, .punct .closeParen]) := by
  rw [kinds, pieces, List.cons_append, Piece.kindsOf_symbol, Piece.kindsOf_append]
  rfl

theorem kinds_tuple {elements : List Expr} (h : elements.length ≠ 1) :
    (Expr.tuple span elements).kinds = .punct .openParen ::
      (List.intercalate [.punct .comma] (elements.map kinds) ++ [.punct .closeParen]) := by
  rw [kinds, pieces, List.cons_append, Piece.kindsOf_symbol, Piece.kindsOf_append,
    Piece.kindsOf_commas, kindsOf_piecesOf]
  · rfl
  · rintro only rfl
    exact h rfl

theorem kinds_list (elements : List Expr) :
    (Expr.list span elements).kinds = .punct .openBracket ::
      (List.intercalate [.punct .comma] (elements.map kinds) ++ [.punct .closeBracket]) := by
  rw [kinds, pieces, List.cons_append, Piece.kindsOf_symbol, Piece.kindsOf_append,
    Piece.kindsOf_commas, kindsOf_piecesOf]
  rfl

theorem kinds_dict (entries : List Entry) :
    (Expr.dict span entries).kinds = .punct .openBrace ::
      (List.intercalate [.punct .comma] (entries.map Entry.kinds) ++ [.punct .closeBrace]) := by
  have hrows : (Entry.piecesOf entries).map Piece.kindsOf = entries.map Entry.kinds := by
    rw [Entry.piecesOf_eq, List.map_map]
    refine List.map_congr_left fun r _ => ?_
    obtain ⟨key, value⟩ := r
    change Piece.kindsOf (Entry.pieces _) = _
    rw [Entry.pieces, Piece.kindsOf_append]
    rfl
  rw [kinds, pieces, List.cons_append, Piece.kindsOf_symbol, Piece.kindsOf_append,
    Piece.kindsOf_commas, hrows]
  rfl

end Expr

namespace Expr

variable {e : Expr}

theorem level_le (e : Expr) : e.level ≤ 11 := by
  cases e with
  | logical span op values => cases op <;> exact Nat.le_of_ble_eq_true rfl
  | unary span op operand => cases op <;> exact Nat.le_of_ble_eq_true rfl
  | binary span left op right => cases op <;> exact Nat.le_of_ble_eq_true rfl
  | compare => exact Nat.le_of_ble_eq_true rfl
  | _ => exact Nat.le_refl 11

end Expr

/-! ### Reading the tokens back -/

/-- Tokens at no place. -/
def Token.ofKinds (ks : List TokenKind) : List Token := ks.map (⟨·, nowhere⟩)

namespace Parser

open Token (ofKinds Sorted)

variable {e : Expr} {l m : Nat} {ks ls : List TokenKind} {k : TokenKind}

@[simp] theorem ofKinds_append : ofKinds (ks ++ ls) = ofKinds ks ++ ofKinds ls := List.map_append

@[simp] theorem ofKinds_cons : ofKinds (k :: ks) = ⟨k, nowhere⟩ :: ofKinds ks := rfl

@[simp] theorem ofKinds_nil : ofKinds [] = [] := rfl

@[simp] theorem map_kind_ofKinds (ks : List TokenKind) : (ofKinds ks).map Token.kind = ks := by
  simp [ofKinds, Function.comp_def]

theorem span_of_mem_ofKinds {t : Token} (h : t ∈ ofKinds ks) : t.span = nowhere := by
  obtain ⟨k, -, rfl⟩ := List.mem_map.mp h
  rfl

/-- Tokens at one place are in order. -/
theorem sorted_ofKinds (ks : List TokenKind) : Sorted (ofKinds ks) := by
  refine ⟨List.pairwise_of_forall_mem_list fun a ha b hb => ?_, fun t ht => ?_⟩
  · rw [span_of_mem_ofKinds ha, span_of_mem_ofKinds hb]
    exact le_rfl
  · rw [span_of_mem_ofKinds ht]
    exact le_rfl

@[simp] theorem span_unplaced (e : Expr) : e.unplaced.span = nowhere := by
  cases e <;> rfl

/-- No written expression begins with a word that is read as an operator. -/
theorem lead_of_writable (h : e.Writable) : ∀ id ∈ e.unplaced.lead?, id ∉ reservedWords := by
  induction h with
  | name _ hfree =>
    rintro _ ⟨⟩
    exact hfree
  | member _ _ ih | call _ _ _ _ ih | subscript _ _ ih | binary _ _ ih | compare _ _ ih => exact ih
  | _ => simp [Expr.unplaced, Expr.lead?]

/-- What is written of an expression is read back in every place: where a level is asked for, and
between the brackets of a subscript. -/
structure Placed (e : Expr) : Prop where
  block : ∀ l ≤ 11, Block l (ofKinds (e.kindsAt l)) e.unplaced
  slice : Block.Slice (ofKinds (Piece.kindsOf e.slicePieces)) e.unplaced

theorem Placed.inside (h : Placed e) : Block 0 (ofKinds e.kinds) e.unplaced := by
  rw [← Expr.kindsAt_zero]
  exact h.block 0 (Nat.zero_le 11)

/-- From the level that an expression has to every level. -/
theorem block_of_level (hw : e.Writable) (h : Block e.level (ofKinds e.kinds) e.unplaced)
    (hl : l ≤ 11) : Block l (ofKinds (e.kindsAt l)) e.unplaced := by
  have hnot : 3 ≤ e.level → next ((ofKinds e.kinds).map Token.kind) ≠ .name "not" :=
    fun hlevel heq => lead_of_writable hw "not" (h.lead hlevel heq) (by decide)
  by_cases hlevel : e.level < l
  · rw [Expr.kindsAt_of_lt hlevel]
    have hgroup := (h.descend (Nat.zero_le _) e.level_le hnot).group
      (rfl : Token.kind ⟨.punct .openParen, nowhere⟩ = _)
      (rfl : Token.kind ⟨.punct .closeParen, nowhere⟩ = _)
    simpa using hgroup.descend hl (Nat.le_refl 11) (by simp [next])
  · rw [Expr.kindsAt_of_le (by omega)]
    exact h.descend (by omega) e.level_le hnot

theorem placed_of_level (hw : e.Writable) (hslice : e.slicePieces = e.pieces)
    (h : Block e.level (ofKinds e.kinds) e.unplaced) : Placed e := by
  refine ⟨fun l hl => block_of_level hw h hl, ?_⟩
  have hblock := block_of_level hw h (Nat.zero_le 11)
  rw [Expr.kindsAt_zero] at hblock
  rw [hslice]
  exact hblock.slice

section Rows

variable {ι α : Type} {sep : TokenKind} {row : ι → List TokenKind}

theorem ofKinds_intercalate (i j : ι) (items : List ι) :
    ofKinds (List.intercalate [sep] ((i :: j :: items).map row)) =
      ofKinds (row i) ++ ⟨sep, nowhere⟩ ::
        ofKinds (List.intercalate [sep] ((j :: items).map row)) := by
  rw [List.map_cons, List.map_cons, List.intercalate_cons_cons, List.append_assoc, ofKinds_append]
  rfl

/-- Rows with separators between them. -/
theorem separated_ofKinds {P : List Token → α → Prop} {f : ι → α} {items : List ι}
    (h : ∀ i ∈ items, P (ofKinds (row i)) (f i)) :
    Separated sep P items.isEmpty (ofKinds (List.intercalate [sep] (items.map row)))
      (items.map f) := by
  induction items with
  | nil => exact .nil
  | cons i items ih =>
    obtain ⟨hi, hitems⟩ := List.forall_mem_cons.mp h
    cases items with
    | nil => simpa using Separated.last hi
    | cons j items =>
      rw [ofKinds_intercalate]
      exact .cons hi rfl (ih hitems)

end Rows

/-- Whatever is written is read back: by induction over the tree, one case for each way it is
written. -/
theorem placed_of_writable (hw : e.Writable) : Placed e := by
  have hcover := Span.cover_self nowhere
  have hsorted := fun e : Expr => sorted_ofKinds e.kinds
  induction hw with
  | @name span id hid hfree =>
    refine placed_of_level (.name hid hfree) rfl
      (Block.of_name (rfl : Token.kind ⟨.name id, nowhere⟩ = _) ?_ ?_)
    · rintro rfl
      exact hfree (by decide)
    · rintro rfl
      exact hfree (by decide)
  | @numeral span form text htext =>
    exact placed_of_level (.numeral htext) rfl
      (.of_token (rfl : Token.kind ⟨.numeral form text, nowhere⟩ = _)
      rfl rfl rfl rfl (by simp) fun n rest => reads_atom_numeral form text rest)
  | @truth span value =>
    refine placed_of_level .truth rfl (.of_token (rfl : Token.kind ⟨_, nowhere⟩ = _) rfl rfl
      rfl rfl ?_ fun n rest => reads_atom_truth value rest)
    cases value <;> simp
  | @member span value attr hvalue hattr ih =>
    refine placed_of_level (.member hvalue hattr) rfl ?_
    specialize hsorted (.member span value attr)
    rw [Expr.kinds_member, ofKinds_append, ofKinds_cons, List.append_cons] at hsorted ⊢
    simpa [hcover, Expr.level, Expr.unplaced] using
      ((ih.block 11 (Nat.le_refl 11)).member rfl rfl hsorted).1
  | @call span func args keywords hfunc hargs hwords hvalues ih ihargs ihvalues =>
    refine placed_of_level (.call hfunc hargs hwords hvalues) rfl ?_
    specialize hsorted (.call span func args keywords)
    rw [Expr.kinds_call, ofKinds_append, ofKinds_cons, ofKinds_append, ← List.cons_append,
      ← List.append_assoc] at hsorted ⊢
    have hitems : ∀ a ∈ argumentsOf args keywords, Item (fun n => argument (expressionUpTo (n + 1)))
        argumentView EndsArgument (ofKinds (argumentKinds a)) (argumentView a) := by
      intro a ha
      rcases List.mem_append.mp ha with h | h
      · obtain ⟨e, he, rfl⟩ := List.mem_map.mp h
        exact (ihargs e he).inside.positional
      · obtain ⟨⟨place, name, value⟩, hk, rfl⟩ := List.mem_map.mp h
        exact Block.keyword rfl rfl (ihvalues _ hk).inside
    have hblock :=
      ((ih.block 11 (Nat.le_refl 11)).call rfl (separated_ofKinds hitems) rfl hsorted).1
    rw [filterMap_getLeft_view, filterMap_getRight_view, getLeft_argumentsOf,
      getRight_argumentsOf] at hblock
    simpa [hcover, Expr.level, Expr.unplaced, Expr.unplacedAll_eq,
      Keyword.unplacedAll_eq] using hblock
  | @subscript span value slice hvalue hslice ih ihslice =>
    refine placed_of_level (.subscript hvalue hslice) rfl ?_
    specialize hsorted (.subscript span value slice)
    rw [Expr.kinds_subscript, ofKinds_append, ofKinds_cons, ofKinds_append, ← List.cons_append,
      ← List.append_assoc] at hsorted ⊢
    simpa [hcover, Expr.level, Expr.unplaced] using
      ((ih.block 11 (Nat.le_refl 11)).subscript rfl ihslice.slice rfl hsorted).1
  | @binary span left right op hleft hright ihleft ihright =>
    refine placed_of_level (.binary hleft hright) rfl ?_
    specialize hsorted (.binary span left op right)
    rw [Expr.kinds_binary, ofKinds_append, ofKinds_cons, List.append_cons] at hsorted ⊢
    have hblock := (ihleft.block op.leftLevel (by cases op <;> decide)).binaryOp rfl
      (ihright.block op.rightLevel (by cases op <;> decide)) hsorted
    simpa [joinBinary, hcover, Expr.level, Expr.unplaced] using hblock
  | @compare span left right op hleft hright ihleft ihright =>
    refine placed_of_level (.compare hleft hright) rfl ?_
    specialize hsorted (.compare span left op right)
    rw [Expr.kinds_compare, ofKinds_append, ofKinds_append, ← List.append_assoc] at hsorted ⊢
    have hblock := (ihleft.block 3 (by decide)).compare (map_kind_ofKinds _)
      (ihright.block 4 (by decide)) hsorted
    simpa [joinCompare, hcover, Expr.level, Expr.unplaced] using hblock
  | @logical span op values hcount hvalues ih =>
    refine placed_of_level (.logical hcount hvalues) rfl ?_
    specialize hsorted (.logical span op values)
    obtain ⟨first, second, more, rfl⟩ : ∃ first second more, values = first :: second :: more := by
      rcases values with _ | ⟨first, _ | ⟨second, more⟩⟩
      · cases hcount
      · cases Nat.le_of_succ_le_succ hcount
      · exact ⟨first, second, more, rfl⟩
    have hlevel : op.level + 1 ≤ 11 := by cases op <;> decide
    obtain ⟨hfirst, hmore⟩ := List.forall_mem_cons.mp ih
    rw [Expr.kinds_logical, ofKinds_intercalate] at hsorted ⊢
    have hblock := (hfirst.block _ hlevel).operands rfl
      (separated_ofKinds fun e he => (hmore e he).block _ hlevel) hsorted
    have hlast : ((second :: more).map Expr.unplaced).getLastD first.unplaced =
        ((second :: more).getLastD first).unplaced := by
      rw [List.getLastD_eq_getLast?, List.getLastD_eq_getLast?, List.getLast?_map, Option.getD_map]
    rw [hlast] at hblock
    simpa [hcover, Expr.level, Expr.unplaced, Expr.unplacedAll_eq] using hblock
  | @unary span op operand hoperand ih =>
    refine placed_of_level (.unary hoperand) rfl ?_
    specialize hsorted (.unary span op operand)
    obtain ⟨k, hk⟩ : ∃ k, Piece.kindsOf op.pieces = [k] := by cases op <;> exact ⟨_, rfl⟩
    rw [Expr.kinds_unary, ofKinds_append, hk] at hsorted ⊢
    have hblock := (Block.unaryOp hk (ih.block op.level (by cases op <;> decide)) hsorted).1
    simpa [hcover, Expr.level, Expr.unplaced] using hblock
  | @tuple span elements helements ih =>
    specialize hsorted (.tuple span elements)
    rcases elements with _ | ⟨first, _ | ⟨second, more⟩⟩
    · refine placed_of_level (.tuple helements) rfl ?_
      have hblock := Block.unit rfl rfl hsorted
      rwa [hcover] at hblock
    · refine placed_of_level (.tuple helements) rfl ?_
      rw [Expr.kinds_tuple_one, ofKinds_cons, ofKinds_append, ofKinds_cons,
        List.append_cons] at hsorted ⊢
      have hblock := Block.tuple rfl (ih first (by simp)).inside rfl .nil rfl hsorted
      simpa [hcover, Expr.level, Expr.unplaced, Expr.unplacedAll_eq] using hblock
    · have hfirst := (ih first (by simp)).inside
      have hmore : ∀ e ∈ second :: more, Block 0 (ofKinds e.kinds) e.unplaced :=
        fun e he => (ih e (List.mem_cons_of_mem first he)).inside
      refine ⟨fun l hl => block_of_level (.tuple helements) ?_ hl, ?_⟩
      · rw [Expr.kinds_tuple (by simp), ofKinds_cons, ofKinds_append,
          ofKinds_intercalate] at hsorted ⊢
        have hblock := Block.tuple rfl hfirst rfl (separated_ofKinds hmore) rfl hsorted
        simpa [hcover, Expr.level, Expr.unplaced, Expr.unplacedAll_eq] using hblock
      · rw [Expr.slicePieces, Piece.kindsOf_commas, List.map_map, ofKinds_intercalate,
          Expr.unplaced, Expr.unplacedAll_eq]
        exact hfirst.slice_tuple rfl (separated_ofKinds hmore)
  | @list span elements helements ih =>
    refine placed_of_level (.list helements) rfl ?_
    specialize hsorted (.list span elements)
    rw [Expr.kinds_list, ofKinds_cons, ofKinds_append] at hsorted ⊢
    have hblock := Block.list rfl (separated_ofKinds fun e he => (ih e he).inside) rfl hsorted
    simpa [hcover, Expr.level, Expr.unplaced, Expr.unplacedAll_eq] using hblock
  | @dict span entries hkeys hvalues ihkeys ihvalues =>
    refine placed_of_level (.dict hkeys hvalues) rfl ?_
    specialize hsorted (.dict span entries)
    rw [Expr.kinds_dict, ofKinds_cons, ofKinds_append] at hsorted ⊢
    have hitems : ∀ r ∈ entries, Item (fun n => Parser.entry (expressionUpTo (n + 1)))
        Entry.unplaced (EndsAt 0) (ofKinds r.kinds) r.unplaced := by
      rintro ⟨key, value⟩ hr
      rw [Entry.kinds, ofKinds_append, ofKinds_cons]
      exact (ihkeys _ hr).inside.entry rfl (ihvalues _ hr).inside
    have hblock := Block.dict rfl (separated_ofKinds hitems) rfl hsorted
    simpa [hcover, Expr.level, Expr.unplaced, Entry.unplacedAll_eq] using hblock

/-- A tree without places has none to take away. -/
theorem unplaced_unplaced (hw : e.Writable) : e.unplaced.unplaced = e.unplaced := by
  have hkeyword : ∀ k : Keyword, k.value.unplaced.unplaced = k.value.unplaced →
      k.unplaced.unplaced = k.unplaced := fun ⟨_, name, _⟩ h => congrArg (Keyword.mk nowhere name) h
  have hentry : ∀ r : Entry, r.key.unplaced.unplaced = r.key.unplaced →
      r.value.unplaced.unplaced = r.value.unplaced → r.unplaced.unplaced = r.unplaced :=
    fun ⟨_, _⟩ hkey hvalue => congrArg₂ Entry.mk hkey hvalue
  induction hw with
  | _ => simp_all [Expr.unplaced, Expr.unplacedAll_eq, Keyword.unplacedAll_eq, Entry.unplacedAll_eq]

theorem reads_expression (hw : e.Writable) {rest : List TokenKind} (hrest : EndsAt 0 rest) :
    Reads expression e.kinds rest e.Like := by
  refine (reads_limit _).look ?_
  intro n hn
  rw [List.length_append] at hn
  have hread := (placed_of_writable hw).inside.readsInside (n := n) (by simp [ofKinds]; omega)
    rest hrest
  rw [map_kind_ofKinds] at hread
  exact hread.mono fun a ha => ha.trans (unplaced_unplaced hw)

end Parser

/-! ### Declarations -/

/-- The words that begin another declaration when a colon follows. -/
def declarationWords : List String :=
  ["def", "struct", "event", "flag", "enum", "interface", "import", "from", "exports", "implements",
    "initializes", "uses"]

namespace Parser

theorem reads_skipNewlines {rest : List TokenKind} (h : next rest ≠ .newline) :
    Reads skipNewlines [] rest fun _ => True := by
  refine (reads_limit _).look ?_
  rintro (_ | n) _
  · exact reads_pure trivial rest
  · refine (reads_accept_none h).look ?_
    rintro _ rfl
    exact reads_pure trivial rest

theorem reads_lineEnd (rest : List TokenKind) : Reads lineEnd [.newline] rest fun _ => True := by
  refine reads_peekKind_cons ?_
  refine (reads_advance .newline rest).finish ?_
  intro t _
  exact reads_pure trivial rest

/-- The tokens of the line that declares a variable, with the tokens of its type and its value. -/
def declarationRow (id : String) (type value : List TokenKind) : List TokenKind :=
  .name id :: .punct .colon :: (type ++ (.punct .assign :: (value ++ [.newline])))

/-- The tokens of the line that declares a variable with a value. -/
def declarationKinds (id : String) (type value : Expr) : List TokenKind :=
  declarationRow id type.kinds value.kinds

/-- A variable with this name, type and value, places aside. -/
def Declares (id : String) (type value : Expr) (v : VariableDef) : Prop :=
  v.target.id? = some id ∧ type.Like v.type ∧ ∃ e, v.value = some e ∧ value.Like e

theorem reads_variableDef {id : String} {type value : Expr} {ks ls : List TokenKind}
    (htype : ReadsInside expression ks type) (hvalue : ReadsInside expression ls value)
    (rest : List TokenKind) :
    Reads variableDef (declarationRow id ks ls) rest (Declares id type value) := by
  refine (reads_identifier id _).cons ?_
  rintro ⟨found, span⟩ hfound
  refine (reads_expect (.punct .colon) _ _).cons ?_
  intro colon _
  refine (htype _ (endsAt_of_operatorLevel rfl)).bind ?_
  intro t ht
  refine (reads_accept (.punct .assign) _).cons ?_
  rintro _ ⟨assign, rfl⟩
  have hexpr : Reads expression ls ([.newline] ++ rest) value.Like :=
    hvalue _ (endsAt_of_operatorLevel rfl)
  refine (hexpr.map some).bind ?_
  rintro _ ⟨e, he, rfl⟩
  refine (reads_lineEnd rest).finish ?_
  intro _ _
  refine reads_pure ⟨?_, ht, e, rfl, he⟩ rest
  exact congrArg some hfound

section Row

variable {id : String} {row : List TokenKind} {Q : VariableDef → Prop}
  (hdef : ∀ rest, Reads variableDef (.name id :: .punct .colon :: row) rest Q)
  (hfree : id ∉ declarationWords)
include hdef hfree

theorem reads_wordDeclaration (span : Span) (rest : List TokenKind) :
    Reads (wordDeclaration id span) (.name id :: .punct .colon :: row) rest
      fun d => ∃ v, Q v ∧ d = .var v := by
  refine (reads_peekSecond _).look ?_
  rintro _ rfl
  have hvar := (hdef rest).map Declaration.var
  have hcolon : (next (.name id :: .punct .colon :: row ++ rest).tail == .punct .colon) = true :=
    rfl
  rw [hcolon]
  dsimp only
  split
  case h_13 => exact hvar
  case h_14 hfalse => cases hfalse
  all_goals exact absurd (by decide) hfree

omit hdef hfree in
theorem reads_declarations_nil (n : Nat) : Reads (declarations n) [] [] fun ds => ds = [] := by
  cases n with
  | zero => exact reads_pure (by rfl) []
  | succ n =>
    refine (reads_skipNewlines (by nofun)).look ?_
    intro _ _
    refine (reads_peekKind _).look ?_
    rintro _ rfl
    exact reads_pure (by rfl) []

theorem reads_declarations_one (n : Nat) :
    Reads (declarations (n + 1)) (.name id :: .punct .colon :: row) []
      fun ds => ∃ v, Q v ∧ ds = [.var v] := by
  refine (reads_skipNewlines (by nofun)).look ?_
  intro _ _
  refine reads_peekKind_cons ?_
  rw [if_neg nofun]
  have hdecl : Reads declaration (.name id :: .punct .colon :: row) []
      fun d => ∃ v, Q v ∧ d = .var v :=
    reads_peek_cons fun span => reads_wordDeclaration hdef hfree span []
  refine hdecl.finish ?_
  rintro _ ⟨v, hv, rfl⟩
  refine (reads_declarations_nil n).finish ?_
  rintro _ rfl
  exact reads_pure ⟨v, hv, rfl⟩ []

/-- A line that is read as a variable is a module with this variable. -/
theorem reads_wholeModule_row :
    Reads wholeModule (.name id :: .punct .colon :: row) []
      fun m => ∃ v, Q v ∧ m.body = [.var v] := by
  refine (reads_skipNewlines (by nofun)).look ?_
  intro _ _
  have hdoc : Reads moduleDoc [] (.name id :: .punct .colon :: row ++ []) fun _ => True := by
    refine (reads_peekKind _).look ?_
    rintro _ rfl
    refine (reads_peekSecond _).look ?_
    rintro _ rfl
    exact reads_pure trivial _
  refine hdoc.look ?_
  intro doc _
  refine (reads_limit _).look ?_
  intro n _
  refine (reads_declarations_one hdef hfree n).finish ?_
  rintro _ ⟨v, hv, rfl⟩
  refine (reads_peek _).look ?_
  intro eof _
  exact reads_pure ⟨v, hv, rfl⟩ []

end Row

theorem reads_wholeModule {id : String} (hfree : id ∉ declarationWords) {type value : Expr}
    (htype : type.Writable) (hvalue : value.Writable) :
    Reads wholeModule (declarationKinds id type value) []
      fun m => ∃ v, Declares id type value v ∧ m.body = [.var v] :=
  reads_wholeModule_row (reads_variableDef (fun _ => reads_expression htype) fun _ =>
    reads_expression hvalue) hfree

end Parser

/-- A text whose tokens are read as a module is that module. -/
theorem Module.parse_of_reads {text : List Char} {stream : TokenStream}
    (hstream : TokenStream.ofText text = .ok stream) {row : List TokenKind} {Q : Module → Prop}
    (hkinds : stream.tokens.map Token.kind = row)
    (hread : Parser.Reads Parser.wholeModule row [] Q) :
    ∃ parsed, Module.parse text = .ok parsed ∧ Q parsed.tree := by
  have hrow : (ParseState.ofStream stream).kinds = row ++ [] := by
    rw [List.append_nil]
    exact hkinds
  have hlimit : (ParseState.ofStream stream).kinds.length ≤ (ParseState.ofStream stream).limit :=
    Nat.le_of_eq (List.length_map _)
  obtain ⟨tree, state, hread, -, -, hQ⟩ := hread _ hrow hlimit
  refine ⟨⟨tree, state.notes.reverse.eraseDups⟩, ?_, hQ⟩
  unfold Module.parse
  rw [hstream]
  change (Parser.wholeModule (ParseState.ofStream stream) >>= _) = _
  rw [hread]
  rfl

/-- The pieces of the line that declares a variable with a value. -/
def declarationPieces (id : String) (type value : Expr) : List Piece :=
  .word id :: ([.symbol .colon, .blank] ++ type.pieces ++
    [.blank, .symbol .assign, .blank] ++ value.pieces)

theorem toList_printDeclaration (id : String) (type value : Expr) :
    (printDeclaration id type value).toList =
      Piece.textOf (declarationPieces id type value) ++ ['\n'] := by
  simp [printDeclaration, declarationPieces, Expr.print, Piece.text, Piece.word, Piece.symbol,
    TokenKind.spelling, Punct.text]

theorem kindsOf_declarationPieces (id : String) (type value : Expr) :
    Piece.kindsOf (declarationPieces id type value) ++ [.newline] =
      Parser.declarationKinds id type value := by
  simp only [declarationPieces, Piece.word, Piece.symbol, Piece.kindsOf_token, Piece.kindsOf_append,
    Piece.kindsOf_blank, Parser.declarationKinds, Parser.declarationRow, Expr.kinds,
    List.cons_append, List.nil_append,
    List.append_assoc]

theorem spaced_declarationPieces {id : String} (hid : isIdentifier id) {type value : Expr}
    (htype : type.Writable) (hvalue : value.Writable) :
    Piece.Spaced (declarationPieces id type value) ['\n'] := by
  have hassign : Piece.Separator [.blank, .symbol .assign, .blank] := Piece.separator_token rfl
  have hname := (Piece.selfContained_word hid).join Piece.separator_colon htype.selfContained.1
  exact (hname.join hassign hvalue.selfContained.1).spaced ['\n'] rfl

/-- Any value written with the fewest parentheses, as the value of a declaration, is read back as
the same tree, places aside. -/
theorem Module.parse_printDeclaration {id : String} (hid : isIdentifier id)
    (hfree : id ∉ declarationWords) {type value : Expr} (htype : type.Writable)
    (hvalue : value.Writable) :
    ∃ parsed v read, Module.parse (printDeclaration id type value).toList = .ok parsed ∧
      parsed.tree.body = [.var v] ∧ v.target.id? = some id ∧ v.type.unplaced = type.unplaced ∧
      v.value = some read ∧ read.unplaced = value.unplaced := by
  obtain ⟨stream, hstream, hkinds⟩ :=
    TokenStream.exists_ofText_line (spaced_declarationPieces hid htype hvalue)
  have hstream : TokenStream.ofText (printDeclaration id type value).toList = .ok stream := by
    rw [toList_printDeclaration]
    exact hstream
  have hkinds : (ParseState.ofStream stream).kinds =
      Parser.declarationKinds id type value ++ [] := by
    rw [List.append_nil, ← kindsOf_declarationPieces]
    exact hkinds
  have hlimit : (ParseState.ofStream stream).kinds.length ≤ (ParseState.ofStream stream).limit :=
    Nat.le_of_eq (List.length_map _)
  obtain ⟨tree, state, hread, _, _, v, hv, hbody⟩ :=
    Parser.reads_wholeModule hfree htype hvalue _ hkinds hlimit
  obtain ⟨hname, htype', read, hsome, hlike⟩ := hv
  refine ⟨⟨tree, state.notes.reverse.eraseDups⟩, v, read, ?_, hbody, hname, htype', hsome, hlike⟩
  unfold Module.parse
  rw [hstream]
  change (Parser.wholeModule (ParseState.ofStream stream) >>= _) = _
  rw [hread]
  rfl

/-- A value that uses every kind of bracket, an operator of nearly every level, and an operand that
needs parentheses. -/
def mixedValue : Expr :=
  let name := Expr.name nowhere
  let number := Expr.numeral nowhere .int
  let sum := Expr.binary nowhere (name "a") .add (name "b")
  let power := Expr.unary nowhere .neg (.binary nowhere (name "c") .pow (number "2"))
  let call := Expr.call nowhere (name "f") [name "y"] [.mk nowhere "k" (.list nowhere [name "z"])]
  let slice := Expr.tuple nowhere [number "1", call]
  let row := Expr.subscript nowhere (.member nowhere (name "self") "x") slice
  let test := Expr.compare nowhere (.binary nowhere sum .mul power) .notIn row
  .logical nowhere .or [test, .unary nowhere .not (.truth nowhere true)]

theorem Module.parse_printDeclaration_mixedValue :
    printDeclaration "total" (.name nowhere "bool") mixedValue =
        "total: bool = (a + b) * -c ** 2 not in self.x[1, f(y, k=[z])] or not True\n" ∧
      ∃ parsed v read,
        Module.parse (printDeclaration "total" (.name nowhere "bool") mixedValue).toList =
          .ok parsed ∧
        parsed.tree.body = [.var v] ∧ v.target.id? = some "total" ∧
        v.type.unplaced = (Expr.name nowhere "bool").unplaced ∧
        v.value = some read ∧ read.unplaced = mixedValue.unplaced := by
  have hname : ∀ id, isIdentifier id ∧ id ∉ reservedWords → (Expr.name nowhere id).Writable :=
    fun id h => .name h.1 h.2
  have hcall : (Expr.call nowhere (.name nowhere "f") [.name nowhere "y"]
      [.mk nowhere "k" (.list nowhere [.name nowhere "z"])]).Writable :=
    .call (hname "f" (by decide)) (List.forall_mem_singleton.2 (hname "y" (by decide)))
      (by decide) (List.forall_mem_singleton.2 (.list (List.forall_mem_singleton.2
        (hname "z" (by decide)))))
  have hvalue : mixedValue.Writable := by
    refine .logical (by decide) (List.forall_mem_cons.2 ⟨?_, List.forall_mem_singleton.2 ?_⟩)
    · refine .compare ?_ (.subscript (.member (hname "self" (by decide)) (by decide)) (.tuple ?_))
      · exact .binary (.binary (hname "a" (by decide)) (hname "b" (by decide)))
          (.unary (.binary (hname "c" (by decide)) (.numeral (by decide))))
      · exact List.forall_mem_cons.2 ⟨.numeral (by decide), List.forall_mem_singleton.2 hcall⟩
    · exact .unary .truth
  refine ⟨by decide, ?_⟩
  exact Module.parse_printDeclaration (by decide) (by decide) (hname "bool" (by decide)) hvalue

end Vyper
