import Vyper.Proofs.DocumentOrder
import Vyper.Proofs.RoundTrip
import Vyper.Proofs.Throughout
import Vyper.Typing.TypeText

/-!
# Types and their texts

The canonical text of a type is the type: written behind a name and a colon it is read as the same
tree, places aside (`Module.parse_typeText`). So two types have one text when they are equal, places
aside, and not otherwise. This is for the expressions that a type is made of (`Expr.isType`); the
text of anything else is what stands in the source.
-/

namespace Vyper

/-! ### Types among expressions -/

/-- The operators that are words. -/
def operatorWords : List String := ["and", "or", "not", "in"]

mutual

/-- An expression made of names, integers, accesses, subscripts, tuples of two or more elements and
calls with plain arguments. -/
def Expr.isType : Expr → Bool
  | .name _ id => !operatorWords.contains id
  | .numeral _ .int _ => true
  | .member _ value _ => value.isType
  | .subscript _ value slice => value.isType && slice.isType
  | .tuple _ elements => decide (2 ≤ elements.length) && Expr.areTypes elements
  | .call _ func args [] => func.isType && Expr.areTypes args
  | _ => false

def Expr.areTypes : List Expr → Bool
  | [] => true
  | e :: es => e.isType && Expr.areTypes es

end

namespace Expr

theorem areTypes_iff {es : List Expr} : Expr.areTypes es = true ↔ ∀ e ∈ es, e.isType = true := by
  induction es with
  | nil => simp [Expr.areTypes]
  | cons e es ih => simp [Expr.areTypes, ih]

/-- Induction over the expressions that are types. -/
@[elab_as_elim]
theorem isType_induction {motive : Expr → Prop}
    (name : ∀ span id, id ∉ operatorWords → motive (.name span id))
    (numeral : ∀ span digits, motive (.numeral span .int digits))
    (member : ∀ span value attr, value.isType = true → motive value →
      motive (.member span value attr))
    (subscript : ∀ span value slice, value.isType = true → slice.isType = true → motive value →
      motive slice → motive (.subscript span value slice))
    (tuple : ∀ span first second rest, (∀ e ∈ first :: second :: rest, motive e) →
      motive (.tuple span (first :: second :: rest)))
    (call : ∀ span func args, func.isType = true → motive func → (∀ e ∈ args, motive e) →
      motive (.call span func args []))
    (e : Expr) (he : e.isType = true) : motive e := by
  induction hsize : sizeOf e using Nat.strong_induction_on generalizing e with
  | h size ih =>
    subst hsize
    -- Whatever is smaller is covered, and the elements of a list are smaller than what holds the
    -- list.
    have hlist : ∀ es : List Expr, sizeOf es < sizeOf e → Expr.areTypes es = true →
        ∀ a ∈ es, motive a := by
      intro es hes htypes a ha
      have hlt := List.sizeOf_lt_of_mem ha
      exact ih _ (by omega) a (areTypes_iff.mp htypes a ha) rfl
    cases e with
    | name span id => exact name span id (by simpa [isType] using he)
    | numeral span form digits =>
      cases form with
      | int => exact numeral span digits
      | hex => cases he
      | decimal => cases he
    | member span value attr =>
      have hvalue : sizeOf value < sizeOf (Expr.member span value attr) := by
        simp only [Expr.member.sizeOf_spec]
        omega
      exact member span value attr he (ih _ hvalue value he rfl)
    | subscript span value slice =>
      obtain ⟨hvalue, hslice⟩ := Bool.and_eq_true_iff.mp he
      have hparts : sizeOf value < sizeOf (Expr.subscript span value slice) ∧
          sizeOf slice < sizeOf (Expr.subscript span value slice) := by
        simp only [Expr.subscript.sizeOf_spec]
        omega
      exact subscript span value slice hvalue hslice (ih _ hparts.1 value hvalue rfl)
        (ih _ hparts.2 slice hslice rfl)
    | tuple span elements =>
      obtain ⟨hlen, htypes⟩ := Bool.and_eq_true_iff.mp he
      have hlen := of_decide_eq_true hlen
      have helements := hlist elements (by simp only [Expr.tuple.sizeOf_spec]; omega) htypes
      rcases elements with _ | ⟨first, _ | ⟨second, rest⟩⟩
      · exact absurd hlen (by simp)
      · exact absurd hlen (by simp)
      · exact tuple span first second rest helements
    | call span func args keywords =>
      cases keywords with
      | nil =>
        obtain ⟨hfunc, htypes⟩ := Bool.and_eq_true_iff.mp he
        have hparts : sizeOf func < sizeOf (Expr.call span func args []) ∧
            sizeOf args < sizeOf (Expr.call span func args []) := by
          simp only [Expr.call.sizeOf_spec]
          omega
        exact call span func args hfunc (ih _ hparts.1 func hfunc rfl) (hlist args hparts.2 htypes)
      | cons keyword keywords => cases he
    | _ => cases he

theorem level_of_isType {e : Expr} (he : e.isType = true) : e.level = 11 := by
  cases e <;> first | rfl | cases he

/-! ### The text of a type -/

/-- Types with commas between them are written like any expressions. -/
theorem toList_typeTexts {text : List Char} {es : List Expr}
    (h : ∀ e ∈ es, (e.typeText text).toList = Piece.textOf e.pieces) :
    (typeTexts text es).toList = Piece.textOf (Piece.commas (es.map Expr.pieces)) := by
  induction es with
  | nil => rfl
  | cons e es ih =>
    obtain ⟨he, hes⟩ := List.forall_mem_cons.mp h
    cases es with
    | nil => simpa [typeTexts, Piece.commas] using he
    | cons e' es =>
      have ih := ih hes
      rw [typeTexts, String.toList_append, String.toList_append, he, ih]
      · simp [Piece.commas, Piece.text, Piece.symbol, TokenKind.spelling, Punct.text]
      · simp

theorem enclose_of_isType {e : Expr} (he : e.isType = true) :
    Piece.enclose 11 e.level e.pieces = e.pieces := by
  rw [Piece.enclose, level_of_isType he, if_neg (by omega)]

theorem piecesOf_zero (es : List Expr) : Expr.piecesOf 0 es = es.map Expr.pieces := by
  rw [piecesOf_eq]
  rfl

/-- The text of a type between the brackets of a subscript. -/
def sliceText (text : List Char) : Expr → String
  | .tuple _ elements => typeTexts text elements
  | e => e.typeText text

theorem typeText_subscript (text : List Char) (span : Span) (value slice : Expr) :
    (Expr.subscript span value slice).typeText text =
      value.typeText text ++ "[" ++ slice.sliceText text ++ "]" := by
  cases slice <;> rfl

/-- The text of a type is the type as it is printed, on its own and between brackets. -/
theorem toList_typeText (text : List Char) {e : Expr} (he : e.isType = true) :
    (e.typeText text).toList = Piece.textOf e.pieces ∧
      (e.sliceText text).toList = Piece.textOf e.slicePieces := by
  refine isType_induction (motive := fun e => (e.typeText text).toList = Piece.textOf e.pieces ∧
    (e.sliceText text).toList = Piece.textOf e.slicePieces)
    ?name ?numeral ?member ?subscript ?tuple ?call e he
  case name =>
    intro span id _
    have htext : ((Expr.name span id).typeText text).toList =
        Piece.textOf (Expr.name span id).pieces := by
      simp [typeText, pieces, Piece.text, Piece.word, TokenKind.spelling]
    exact ⟨htext, htext⟩
  case numeral =>
    intro span digits
    have htext : ((Expr.numeral span .int digits).typeText text).toList =
        Piece.textOf (Expr.numeral span .int digits).pieces := by
      simp [typeText, pieces, Piece.text, TokenKind.spelling]
    exact ⟨htext, htext⟩
  case member =>
    intro span value attr hvalue ih
    have htext : ((Expr.member span value attr).typeText text).toList =
        Piece.textOf (Expr.member span value attr).pieces := by
      change (value.typeText text ++ "." ++ attr).toList = _
      rw [pieces, enclose_of_isType hvalue]
      simp [ih.1, Piece.text, Piece.word, Piece.symbol, TokenKind.spelling, Punct.text]
    exact ⟨htext, htext⟩
  case subscript =>
    intro span value slice hvalue hslice ih ihslice
    have htext : ((Expr.subscript span value slice).typeText text).toList =
        Piece.textOf (Expr.subscript span value slice).pieces := by
      rw [typeText_subscript, pieces_subscript, piecesAt, enclose_of_isType hvalue]
      simp [ih.1, ihslice.2, Piece.text, Piece.symbol, TokenKind.spelling, Punct.text]
    exact ⟨htext, htext⟩
  case tuple =>
    intro span first second rest ih
    have hrow := toList_typeTexts fun e he => (ih e he).1
    refine ⟨?_, hrow⟩
    change ("(" ++ typeTexts text (first :: second :: rest) ++ ")").toList = _
    rw [pieces, piecesOf_zero]
    · simp [hrow, Piece.text, Piece.symbol, TokenKind.spelling, Punct.text]
    · simp
  case call =>
    intro span func args hfunc ih ihargs
    have hrow := toList_typeTexts fun e he => (ihargs e he).1
    have htext : ((Expr.call span func args []).typeText text).toList =
        Piece.textOf (Expr.call span func args []).pieces := by
      change (func.typeText text ++ "(" ++ typeTexts text args ++ ")").toList = _
      rw [pieces, piecesOf_zero, enclose_of_isType hfunc]
      simp [ih.1, hrow, Keyword.piecesOf, Piece.text, Piece.symbol, TokenKind.spelling, Punct.text]
    exact ⟨htext, htext⟩

theorem typeTexts_unplacedAll {text text' : List Char} {es : List Expr}
    (h : ∀ e ∈ es, e.unplaced.typeText text' = e.typeText text) :
    typeTexts text' (unplacedAll es) = typeTexts text es := by
  induction es with
  | nil => rfl
  | cons e es ih =>
    obtain ⟨he, hes⟩ := List.forall_mem_cons.mp h
    cases es with
    | nil => exact he
    | cons e' es =>
      change e.unplaced.typeText text' ++ ", " ++ typeTexts text' (unplacedAll (e' :: es)) = _
      rw [he, ih hes]
      rfl

/-- The text of a type depends neither on places nor on the text around it. -/
theorem typeText_unplaced (text text' : List Char) {e : Expr} (he : e.isType = true) :
    e.unplaced.typeText text' = e.typeText text ∧
    e.unplaced.sliceText text' = e.sliceText text := by
  refine isType_induction (motive := fun e => e.unplaced.typeText text' = e.typeText text ∧
    e.unplaced.sliceText text' = e.sliceText text)
    ?name ?numeral ?member ?subscript ?tuple ?call e he
  case name => exact fun span id _ => ⟨rfl, rfl⟩
  case numeral => exact fun span digits => ⟨rfl, rfl⟩
  case member =>
    intro span value attr _ ih
    have htext : value.unplaced.typeText text' ++ "." ++ attr =
        value.typeText text ++ "." ++ attr := by
      rw [ih.1]
    exact ⟨htext, htext⟩
  case subscript =>
    intro span value slice _ _ ih ihslice
    have htext : (Expr.subscript span value slice).unplaced.typeText text' =
        (Expr.subscript span value slice).typeText text := by
      rw [unplaced, typeText_subscript, typeText_subscript, ih.1, ihslice.2]
    exact ⟨htext, htext⟩
  case tuple =>
    intro span first second rest ih
    have hrow := typeTexts_unplacedAll fun e he => (ih e he).1
    exact ⟨congrArg (fun row => "(" ++ row ++ ")") hrow, hrow⟩
  case call =>
    intro span func args _ ih ihargs
    have hrow := typeTexts_unplacedAll fun e he => (ihargs e he).1
    have htext : (Expr.call span func args []).unplaced.typeText text' =
        (Expr.call span func args []).typeText text := by
      change func.unplaced.typeText text' ++ "(" ++ typeTexts text' (unplacedAll args) ++ ")" = _
      rw [ih.1, hrow]
      rfl
    exact ⟨htext, htext⟩

/-! ### Types that are read -/

/-- What a type that is read can be written from: its names are identifiers and no literals. -/
theorem writable_of_isType {text : List Char} {e : Expr} (he : e.isType = true)
    (h : (Node.expr e).Throughout fun n => n.Placed (Token.Spelled text) ∧ n.NoLiteral) :
    e.Writable := by
  revert h
  refine isType_induction (motive := fun e => (Node.expr e).Throughout (fun n =>
    n.Placed (Token.Spelled text) ∧ n.NoLiteral) → e.Writable)
    ?name ?numeral ?member ?subscript ?tuple ?call e he
  case name =>
    intro span id hfree h
    obtain ⟨hplaced, htrue, hfalse⟩ := h.self
    refine .name (hplaced.token _ rfl).1 ?_
    simp only [operatorWords, reservedWords, List.mem_cons, List.not_mem_nil] at hfree ⊢
    tauto
  case numeral =>
    intro span digits h
    exact .numeral (h.self.1.token _ rfl).1
  case member =>
    intro span value attr _ ih h
    obtain ⟨-, place, hattr, -⟩ := h.self.1.access
    exact .member (ih (h.node List.mem_cons_self)) hattr.1
  case subscript =>
    intro span value slice _ _ ih ihslice h
    have hslice := h.node (List.mem_cons_of_mem _ List.mem_cons_self)
    exact .subscript (ih (h.node List.mem_cons_self)) (ihslice hslice)
  case tuple =>
    intro span first second rest ih h
    exact .tuple fun e he => ih e he (h.exprs List.mem_cons_self e he)
  case call =>
    intro span func args _ ih ihargs h
    have hargs := h.exprs (List.mem_cons_of_mem _ List.mem_cons_self)
    exact .call (ih (h.node List.mem_cons_self)) (fun e he => ihargs e he (hargs e he))
      (by simp) (by simp)

end Expr

/-- A type is part of what declares it. -/
theorem Node.exists_part_of_annotation {n : Node} {e : Expr} (h : e ∈ n.annotations) :
    ∃ field, (field, Node.expr e) ∈ n.parts := by
  cases n with
  | function f =>
    have hreturns : f.returns = some e := Option.mem_toList.mp h
    refine ⟨"returns", ?_⟩
    simp [parts, fields, partsOf, FieldValue.expr?, hreturns]
  | stmt s =>
    cases s with
    | declare span target type value resolved =>
      cases List.mem_singleton.mp h
      exact ⟨"annotation", List.mem_cons_of_mem _ List.mem_cons_self⟩
    | _ => cases h
  | param p =>
    cases List.mem_singleton.mp h
    exact ⟨"annotation", List.mem_cons_self⟩
  | var v =>
    cases List.mem_singleton.mp h
    exact ⟨"annotation", List.mem_cons_of_mem _ List.mem_cons_self⟩
  | clause c =>
    cases List.mem_singleton.mp h
    exact ⟨"annotation", List.mem_cons_self⟩
  | _ => cases h

/-! ### The line of a type -/

/-- The line that declares a variable of a type. -/
def declareText (id type : String) : List Char := (id ++ ": " ++ type ++ "\n").toList

/-- The pieces of the line. -/
def annotationPieces (id : String) (type : Expr) : List Piece :=
  .word id :: ([.symbol .colon, .blank] ++ type.pieces)

theorem declareText_eq (id : String) (text : List Char) {type : Expr} (htype : type.isType = true) :
    declareText id (type.typeText text) = Piece.textOf (annotationPieces id type) ++ ['\n'] := by
  simp [declareText, annotationPieces, (Expr.toList_typeText text htype).1, Piece.text, Piece.word,
    Piece.symbol, TokenKind.spelling, Punct.text]

theorem spaced_annotationPieces {id : String} (hid : isIdentifier id) {type : Expr}
    (htype : type.Writable) : Piece.Spaced (annotationPieces id type) ['\n'] :=
  ((Piece.selfContained_word hid).join Piece.separator_colon htype.selfContained.1).spaced
    ['\n'] rfl

theorem kindsOf_annotationPieces (id : String) (type : Expr) :
    Piece.kindsOf (annotationPieces id type) ++ [.newline] =
      .name id :: .punct .colon :: (type.kinds ++ [.newline]) := by
  simp [annotationPieces, Piece.word, Piece.symbol, Expr.kinds]

/-- A variable with this name and type and without a value, places aside. -/
def DeclaresOnly (id : String) (type : Expr) (v : VariableDef) : Prop :=
  v.target.id? = some id ∧ v.value = none ∧ type.Like v.type

theorem Parser.reads_variableDef_bare {id : String} {type : Expr} (htype : type.Writable)
    (rest : List TokenKind) :
    Reads variableDef (.name id :: .punct .colon :: (type.kinds ++ [.newline])) rest
      (DeclaresOnly id type) := by
  refine (reads_identifier id _).cons ?_
  rintro ⟨found, span⟩ hfound
  refine (reads_expect (.punct .colon) _ _).cons ?_
  intro colon _
  have hexpr : Reads expression type.kinds ([.newline] ++ rest) type.Like :=
    reads_expression htype (endsAt_of_operatorLevel rfl)
  refine hexpr.bind ?_
  intro t ht
  refine (reads_accept_none (k := .punct .assign) (by nofun)).look ?_
  rintro _ rfl
  have hnone : Reads (pure none : Parser (Option Expr)) [] ([.newline] ++ rest) fun value =>
      value = none :=
    reads_pure (by rfl) _
  refine hnone.look ?_
  rintro _ rfl
  refine (reads_lineEnd rest).finish ?_
  intro _ _
  refine reads_pure ⟨?_, rfl, ht⟩ rest
  exact congrArg some hfound

namespace Module

/-- A type that a module declares something with, or a part of one. -/
def Annotates (m : Module) (e : Expr) : Prop :=
  ∃ path n type below, (Node.module m).at? path = some n ∧ type ∈ n.annotations ∧
    (Node.expr type).at? below = some (.expr e)

theorem Annotates.writable {text : List Char} {parsed : Parsed}
    (hparse : Module.parse text = .ok parsed) {e : Expr} (h : parsed.tree.Annotates e)
    (he : e.isType = true) : e.Writable := by
  obtain ⟨path, n, type, below, hn, htype, hbelow⟩ := h
  have htree : parsed.tree.IsTreeOf text := ⟨parsed, hparse, .inl rfl⟩
  obtain ⟨field, hpart⟩ := Node.exists_part_of_annotation htype
  have hnames := annotations_of_parse hparse path n hn type htype
  have hplaced := (htree.wellPlaced.at? hn).part hpart
  have hboth := fun rest c hc => And.intro (hplaced rest c hc) (hnames rest c hc)
  exact Expr.writable_of_isType he (Node.Throughout.at? hboth hbelow)

theorem parse_declareText {id : String} (hid : isIdentifier id) (hfree : id ∉ declarationWords)
    (text : List Char) {e : Expr} (he : e.isType = true) (hwritable : e.Writable) :
    ∃ parsed v, Module.parse (declareText id (e.typeText text)) = .ok parsed ∧
      parsed.tree.body = [.var v] ∧ DeclaresOnly id e v := by
  obtain ⟨stream, hstream, hkinds⟩ :=
    TokenStream.exists_ofText_line (spaced_annotationPieces hid hwritable)
  have hstream : TokenStream.ofText (declareText id (e.typeText text)) = .ok stream := by
    rw [declareText_eq id text he]
    exact hstream
  have hkinds := hkinds.trans (kindsOf_annotationPieces id e)
  obtain ⟨parsed, hparse, v, hv, hbody⟩ := parse_of_reads hstream hkinds
    (Parser.reads_wholeModule_row (Parser.reads_variableDef_bare hwritable) hfree)
  exact ⟨parsed, v, hparse, hbody, hv⟩

/-- The text of a type in a module is read as the same type, places aside. So types have the same
text when they are the same, places aside, and only then, in whatever modules they are. -/
theorem parse_typeText {text : List Char} {parsed : Parsed}
    (hparse : Module.parse text = .ok parsed) {e : Expr} (h : parsed.tree.Annotates e)
    (he : e.isType = true) :
    (∀ id, isIdentifier id → id ∉ declarationWords →
      ∃ again v, Module.parse (declareText id (e.typeText text)) = .ok again ∧
        again.tree.body = [.var v] ∧ v.target.id? = some id ∧ v.value = none ∧
        v.type.unplaced = e.unplaced) ∧
    ∀ text' parsed' e', Module.parse text' = .ok parsed' → parsed'.tree.Annotates e' →
      e'.isType = true → (e.typeText text = e'.typeText text' ↔ e.unplaced = e'.unplaced) := by
  have hwritable := h.writable hparse he
  refine ⟨fun id hid hfree => ?_, fun text' parsed' e' hparse' h' he' =>
    ⟨fun htext => ?_, fun hsame => ?_⟩⟩
  · obtain ⟨again, v, hagain, hbody, hname, hvalue, htype⟩ :=
      parse_declareText hid hfree text he hwritable
    exact ⟨again, v, hagain, hbody, hname, hvalue, htype⟩
  · -- One line declares a variable of either type.
    have hid : isIdentifier "x" := by decide
    have hfree : "x" ∉ declarationWords := by decide
    obtain ⟨again, v, hagain, hbody, -, -, htype⟩ := parse_declareText hid hfree text he hwritable
    obtain ⟨again', v', hagain', hbody', -, -, htype'⟩ :=
      parse_declareText hid hfree text' he' (h'.writable hparse' he')
    rw [← htext, hagain] at hagain'
    cases hagain'
    rw [hbody] at hbody'
    cases hbody'
    exact htype.symm.trans htype'
  · rw [← (Expr.typeText_unplaced text [] he).1, hsame, (Expr.typeText_unplaced text' [] he').1]

/-- One type twice, with other blanks and parentheses than its text has. -/
def spacedTypes : List Char :=
  "m: public( HashMap[address,(lib . Point,Bytes[ 3 ])] )\n".toList ++
    "def f(p: public(HashMap[(address, ((lib).Point, Bytes[3]))])): pass\n".toList

theorem parse_typeText_spaced :
    ∃ parsed, Module.parse spacedTypes = .ok parsed ∧
      ∃ e e', parsed.tree.Annotates e ∧ parsed.tree.Annotates e' ∧
        e.span = ⟨⟨1, 3⟩, ⟨1, 54⟩⟩ ∧ e'.span = ⟨⟨2, 9⟩, ⟨2, 60⟩⟩ ∧ e.unplaced = e'.unplaced ∧
        e.typeText spacedTypes = "public(HashMap[address, (lib.Point, Bytes[3])])" ∧
        ∃ again v,
          Module.parse (declareText "x" "public(HashMap[address, (lib.Point, Bytes[3])])") =
            .ok again ∧
          again.tree.body = [.var v] ∧ v.target.id? = some "x" ∧ v.value = none ∧
          v.type.unplaced = e.unplaced := by
  let shown (e : Expr) := (e.isType, e.span, e.typeText spacedTypes)
  have hshown : ((Module.parse spacedTypes).toOption.bind fun parsed =>
      ((Node.module parsed.tree).at? [0]).bind fun n =>
        ((Node.module parsed.tree).at? [1, 0, 0]).map fun n' =>
          (n.annotations.map shown, n'.annotations.map shown)) =
      some ([(true, ⟨⟨1, 3⟩, ⟨1, 54⟩⟩, "public(HashMap[address, (lib.Point, Bytes[3])])")],
        [(true, ⟨⟨2, 9⟩, ⟨2, 60⟩⟩, "public(HashMap[address, (lib.Point, Bytes[3])])")]) := by
    decide +kernel
  obtain ⟨parsed, hparsed, hshown⟩ := Option.bind_eq_some_iff.mp hshown
  obtain ⟨n, hn, hshown⟩ := Option.bind_eq_some_iff.mp hshown
  obtain ⟨n', hn', hshown⟩ := Option.map_eq_some_iff.mp hshown
  obtain ⟨hfirst, hsecond⟩ := Prod.mk.inj hshown
  obtain ⟨e, hannotations, he⟩ := List.map_eq_singleton_iff.mp hfirst
  obtain ⟨e', hannotations', he'⟩ := List.map_eq_singleton_iff.mp hsecond
  simp only [shown, Prod.mk.injEq] at he he'
  have hparse := eq_ok_of_toOption hparsed
  have hin : parsed.tree.Annotates e := ⟨[0], n, e, [], hn, by simp [hannotations], rfl⟩
  have hin' : parsed.tree.Annotates e' := ⟨[1, 0, 0], n', e', [], hn', by simp [hannotations'], rfl⟩
  obtain ⟨hagain, hsame⟩ := parse_typeText hparse hin he.1
  have hagain := hagain "x" (by decide) (by decide)
  rw [he.2.2] at hagain
  refine ⟨parsed, hparse, e, e', hin, hin', he.2.1, he'.2.1, ?_, he.2.2, hagain⟩
  exact (hsame spacedTypes parsed e' hparse hin' he'.1).mp (he.2.2.trans he'.2.2.symm)

end Module

end Vyper
