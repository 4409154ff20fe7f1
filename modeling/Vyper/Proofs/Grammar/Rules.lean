import Vyper.Proofs.Precedence
import Vyper.Syntax.Node

/-!
# The rules of the grammar

`Grammar.Rule` says which row of symbols is put together to which node, one rule for each place
where a node is made. `Grammar.Derives` is a run of a reader with a stack: it shifts the next token,
puts the last symbols together by a rule, or takes what is in parentheses or at a tighter level for
an operand. What holds of every node that is read follows from the rules alone
(`Derives.forall_mem`, `Derives.along`).
-/

namespace Vyper

/-- Whether a name right behind the token would be taken by it. -/
def TokenKind.attaches : TokenKind → Bool
  | .numeral .. | .punct .dot => true
  | _ => false

/-- A token that is not taken by the one before it. -/
def Token.Headed (ts : List Token) (t : Token) : Prop :=
  ∃ front back, ts = front ++ t :: back ∧ ∀ x ∈ front.getLast?, x.kind.attaches = false

/-- The functions that may still be called by an old name. -/
def Deprecation.functions : List Deprecation :=
  [⟨"_abi_encode", "abi_encode"⟩, ⟨"_abi_decode", "abi_decode"⟩]

/-- The old word for a flag. -/
def Deprecation.enum : Deprecation := ⟨"enum", "flag"⟩

/-- Everything there can be a note about. -/
def Deprecation.known : List Deprecation := .enum :: functions

namespace Grammar

open Vyper.Parser (joinBinary joinCompare liftDoc upTo)

/-! ### Symbols -/

/-- What a reader has on its stack: a token, a name that is taken by no token before it, an operand
of a level with the kind of its first token, elements without brackets, or a node. -/
inductive Symbol where
  | token (t : Token)
  | head (id : String) (span : Span)
  | operand (level : Nat) (first : TokenKind) (e : Expr)
  | listed (trailing : Bool) (e : Expr)
  | node (n : Node)

namespace Symbol

abbrev sign (p : Punct) (span : Span) : Symbol := .token ⟨.punct p, span⟩

abbrev word (w : String) (span : Span) : Symbol := .token ⟨.name w, span⟩

def span : Symbol → Span
  | .token t => t.span
  | .head _ span => span
  | .operand _ _ e | .listed _ e => e.span
  | .node n => n.span

def nodes : Symbol → List Node
  | .token _ | .head .. => []
  | .operand _ _ e | .listed _ e => [.expr e]
  | .node n => [n]

def token? : Symbol → Option Token
  | .token t => some t
  | .head id span => some ⟨.name id, span⟩
  | _ => none

end Symbol

open Vyper.Grammar.Symbol

/-- The nodes of a row of symbols. -/
def nodes (row : List Symbol) : List Node := row.flatMap Symbol.nodes

@[simp] theorem nodes_nil : nodes [] = [] := rfl

@[simp] theorem nodes_cons (x : Symbol) (row : List Symbol) :
    nodes (x :: row) = x.nodes ++ nodes row := rfl

@[simp] theorem nodes_append (row more : List Symbol) :
    nodes (row ++ more) = nodes row ++ nodes more :=
  List.flatMap_append

/-! ### Lists -/

section Lists

variable {α : Type}

/-- Items with separators between them, and perhaps one behind the last. -/
inductive Listed (sep : TokenKind) (Item : List Symbol → α → Prop) :
    Bool → List Symbol → List α → Prop where
  | nil : Listed sep Item true [] []
  | last {row a} : Item row a → Listed sep Item false row [a]
  | cons {row a trailing rest as} (mark : Span) : Item row a → Listed sep Item trailing rest as →
    Listed sep Item trailing (row ++ .token ⟨sep, mark⟩ :: rest) (a :: as)

end Lists

/-- An operand of a level. -/
inductive Operand (level : Nat) : List Symbol → Expr → Prop where
  | mk {first e} : Operand level [.operand level first e] e

abbrev Elements : Bool → List Symbol → List Expr → Prop := Listed (.punct .comma) (Operand 0)

/-- An entry of a dictionary. -/
inductive Pair : List Symbol → Entry → Prop where
  | mk {key value k k' a} :
      Pair [.operand 0 k key, sign .colon a, .operand 0 k' value] (.mk key value)

/-- An argument of a call. -/
inductive Argument : List Symbol → Expr ⊕ Keyword → Prop where
  | positional {k e} : Argument [.operand 0 k e] (.inl e)
  | named {w} : Argument [.node (.keyword w)] (.inr w)

/-- An expression behind a sign, or nothing. -/
inductive Tail (p : Punct) : List Symbol → Option Expr → Prop where
  | none : Tail p [] none
  | some {a k e} : Tail p [sign p a, .operand 0 k e] (some e)

/-- A parameter, perhaps with a default value. -/
inductive Parameter : List Symbol → Param × Option Expr → Prop where
  | mk {p row value} : Tail .assign row value → Parameter (.node (.param p) :: row) (p, value)

/-! ### Blocks -/

/-- Nodes in a row, with nothing but ends of lines between them. -/
def Filled (row : List Symbol) (ns : List Node) : Prop :=
  nodes row = ns ∧ ∀ x ∈ row, ∀ t ∈ x.token?, t.kind = .newline

/-- Statements on the line of a colon, or in the lines below it. -/
inductive Block : List Symbol → List Stmt → Prop where
  | line {row s} : Filled row [.stmt s] → Block row [s]
  | lines {row ss} (a b c : Span) : Filled row (ss.map .stmt) →
    Block (.token ⟨.newline, a⟩ :: .token ⟨.indent, b⟩ :: row ++ [.token ⟨.dedent, c⟩]) ss

/-- What comes behind the block of an `if`. -/
inductive Otherwise : List Symbol → List Stmt → Prop where
  | nothing : Otherwise [] []
  | further {s} : Otherwise [.node (.stmt s)] [s]
  | other {row ss} (a b : Span) : Block row ss →
      Otherwise (word "else" a :: sign .colon b :: row) ss

/-- Decorators, each on a line of its own. -/
inductive Decorators : List Symbol → List Expr → Prop where
  | nil : Decorators [] []
  | cons {k e marks row es} (a : Span) : Filled marks [] → Decorators row es →
    Decorators (sign .atSign a :: .operand 0 k e :: (marks ++ row)) (e :: es)

/-- The word that opens a definition with members. -/
inductive Opens (notes : List Deprecation) : MemberKind → String → Prop where
  | struct : Opens notes .struct "struct"
  | event : Opens notes .event "event"
  | flag : Opens notes .flag "flag"
  | enum : .enum ∈ notes → Opens notes .flag "enum"

/-- The last of some words, or all of those of a dotted name. -/
inductive Words : List Token → Span → Prop where
  | last {ts t} : Words (ts ++ [t]) t.span
  | dotted {ts span t u} : Words ts span → Words (ts ++ [t, u]) (span.cover u.span)

/-! ### Rules -/

/-- How symbols are put together. The notes are those taken of outdated spellings. -/
inductive Rule (notes : List Deprecation) : List Symbol → Symbol → Prop where
  | name {id a} : id ≠ "True" → id ≠ "False" →
      (∀ d ∈ Deprecation.functions, d.old = id → d ∈ notes) →
    Rule notes [.head id a] (.operand 11 (.name id) (.name a id))
  | truth {a} (value : Bool) : Rule notes [word (if value then "True" else "False") a]
      (.operand 11 (.name (if value then "True" else "False")) (.truth a value))
  | numeral {form text a} : Rule notes [.token ⟨.numeral form text, a⟩]
      (.operand 11 (.numeral form text) (.numeral a form text))
  | str {value a} : Rule notes [.token ⟨.str value, a⟩] (.operand 11 (.str value) (.str a value))
  | bytes {value a} : Rule notes [.token ⟨.bytes value, a⟩]
      (.operand 11 (.bytes value) (.str a value))
  | tuple {trailing row es a b} : Elements trailing row es → (trailing = true ∨ 2 ≤ es.length) →
    Rule notes (sign .openParen a :: row ++ [sign .closeParen b])
      (.operand 11 (.punct .openParen) (.tuple (a.cover b) es))
  | list {trailing row es a b} : Elements trailing row es →
    Rule notes (sign .openBracket a :: row ++ [sign .closeBracket b])
      (.operand 11 (.punct .openBracket) (.list (a.cover b) es))
  | dict {trailing row entries a b} : Listed (.punct .comma) Pair trailing row entries →
    Rule notes (sign .openBrace a :: row ++ [sign .closeBrace b])
      (.operand 11 (.punct .openBrace) (.dict (a.cover b) entries))
  | member {k value attr a b} : Rule notes [.operand 11 k value, sign .dot a, word attr b]
      (.operand 11 k (.member (value.span.cover b) value attr))
  | call {k func trailing row arguments a b} :
      Listed (.punct .comma) Argument trailing row arguments →
    Rule notes (.operand 11 k func :: sign .openParen a :: row ++ [sign .closeParen b])
      (.operand 11 k (.call (func.span.cover b) func (arguments.filterMap Sum.getLeft?)
        (arguments.filterMap Sum.getRight?)))
  | subscript {k value slice a b} :
    Rule notes [.operand 11 k value, sign .openBracket a, .listed false slice, sign .closeBracket b]
      (.operand 11 k (.subscript (value.span.cover b) value slice))
  | keyword {name k value a b} : Rule notes [word name a, sign .assign b, .operand 0 k value]
      (.node (.keyword (.mk (a.cover value.span) name value)))
  | bare {k e trailing row es a} : Elements trailing row es →
    Rule notes (.operand 0 k e :: sign .comma a :: row)
      (.listed trailing (.tuple (e.span.cover (es.getLastD e).span) (e :: es)))
  | unary {op kind k e a} : Piece.kindsOf op.pieces = [kind] →
    Rule notes [.token ⟨kind, a⟩, .operand op.level k e]
      (.operand op.level kind (.unary (a.cover e.span) op e))
  | binary {op k left k' right a} :
    Rule notes [.operand op.leftLevel k left, sign (.binary op) a, .operand op.rightLevel k' right]
      (.operand op.level k (joinBinary left op right))
  | compare {op k left k' right} {ts : List Token} : ts.map Token.kind = Piece.kindsOf op.pieces →
    Rule notes (.operand 3 k left :: ts.map .token ++ [.operand 4 k' right])
      (.operand 3 k (joinCompare left op right))
  | logical {op : BoolOp} {k e row es a} :
      Listed (.name op.text) (Operand (op.level + 1)) false row es →
    Rule notes (.operand (op.level + 1) k e :: word op.text a :: row)
      (.operand op.level k (.logical (e.span.cover (es.getLastD e).span) op (e :: es)))
  | binder {id a} : Rule notes [.head id a] (.node (.expr (.name a id)))
  | declare {trailing id k type row value a b} : Tail .assign row value →
    Rule notes (.listed trailing (.name a id) :: sign .colon b :: .operand 0 k type :: row)
      (.node (.stmt (.declare (a.cover (value.getD type).span) (.name a id) type value none)))
  | assign {t target t' value a} :
    Rule notes [.listed t target, sign .assign a, .listed t' value]
      (.node (.stmt (.assign (target.span.cover value.span) target value)))
  | update {t target op k value a} :
    Rule notes [.listed t target, sign (.augmented op) a, .operand 0 k value]
      (.node (.stmt (.update (target.span.cover value.span) target op value)))
  | eval {t e} : Rule notes [.listed t e] (.node (.stmt (.eval e.span e)))
  | pass {a} : Rule notes [word "pass" a] (.node (.stmt (.pass a)))
  | leave {a} : Rule notes [word "break" a] (.node (.stmt (.leave a)))
  | next {a} : Rule notes [word "continue" a] (.node (.stmt (.next a)))
  | ret {a} : Rule notes [word "return" a] (.node (.stmt (.ret a none)))
  | retValue {t e a} : Rule notes [word "return" a, .listed t e]
      (.node (.stmt (.ret (a.cover e.span) (some e))))
  | log {k e a} : Rule notes [word "log" a, .operand 0 k e]
      (.node (.stmt (.log (a.cover e.span) e)))
  | assert {k test row message a} : Tail .comma row message →
    Rule notes (word "assert" a :: .operand 0 k test :: row)
      (.node (.stmt (.assert (a.cover (message.getD test).span) test message)))
  | raise {a} : Rule notes [word "raise" a] (.node (.stmt (.raise a none)))
  | raiseValue {k e a} : Rule notes [word "raise" a, .operand 0 k e]
      (.node (.stmt (.raise (a.cover e.span) (some e))))
  | branch {w k test body row orelse rest last a b} : Block row body → Otherwise rest orelse →
    (body ++ orelse).getLast? = some last →
    Rule notes (word w a :: .operand 0 k test :: sign .colon b :: row ++ rest)
      (.node (.stmt (.branch (a.cover last.span) test body orelse)))
  | loop {id k iter row body last a b c d} : Block row body → body.getLast? = some last →
    Rule notes (word "for" a :: .node (.expr (.name b id)) :: word "in" c :: .operand 0 k iter ::
        sign .colon d :: row)
      (.node (.stmt (.loop (a.cover last.span) (.bare (.name b id)) iter body)))
  | param {name k type a b} : Rule notes [.head name a, sign .colon b, .operand 0 k type]
      (.node (.param ⟨a.cover type.span, name, type, none⟩))
  | params {trailing row items a b} : Listed (.punct .comma) Parameter trailing row items →
    Rule notes (sign .openParen a :: row ++ [sign .closeParen b])
      (.node (.params ⟨a.cover b, items.map (·.1), items.filterMap (·.2)⟩))
  | function {front decorators name params row returns rest body last a b c} :
      Decorators front decorators →
    Tail .arrow row returns → Block rest body → body.getLast? = some last →
    Rule notes (front ++ word "def" a :: word name b :: .node (.params params) :: row ++
        sign .colon c :: rest)
      (.node (.function ⟨a.cover last.span, decorators, name, params, returns, (liftDoc body).2,
        (liftDoc body).1⟩))
  | members {kind w name row body last a b c} : Opens notes kind w → Block row body →
    body.getLast? = some last →
    Rule notes (word w a :: word name b :: sign .colon c :: row)
      (.node (.members ⟨kind, a.cover last.span, name, body⟩))
  | interface {name row body last a b c d e f} : Filled row (body.map InterfaceItem.toNode) →
    body.getLast? = some last →
    Rule notes (word "interface" a :: word name b :: sign .colon c :: .token ⟨.newline, d⟩ ::
        .token ⟨.indent, e⟩ :: row ++ [.token ⟨.dedent, f⟩])
      (.node (.interface ⟨a.cover last.span, name, body⟩))
  | importing {i a stop} {ts : List Token} : (∀ t ∈ ts, t.kind.isMark = false) → Words ts stop →
    i.span = a.cover stop →
    Rule notes (word "import" a :: ts.map .token) (.node (.importing i))
  | importFrom {i a stop} {ts : List Token} : (∀ t ∈ ts, t.kind.isMark = false) → Words ts stop →
    i.span = a.cover stop →
    Rule notes (word "from" a :: ts.map .token) (.node (.importFrom i))
  | clause {w kind k subject a b} : Rule notes [word w a, sign .colon b, .operand 0 k subject]
      (.node (.clause ⟨kind, a.cover subject.span, subject⟩))
  | var {id k type row value a b} : Tail .assign row value →
    Rule notes (.node (.expr (.name a id)) :: sign .colon b :: .operand 0 k type :: row)
      (.node (.var ⟨a.cover (value.getD type).span, .name a id, type, value,
        Modifiers.ofType type, none⟩))

/-- How one symbol is taken for another, and no node is made. -/
inductive Shift : List Symbol → Symbol → Prop where
  | group {k e a b} : Shift [sign .openParen a, .operand 0 k e, sign .closeParen b]
      (.operand 11 (.punct .openParen) e)
  | single {k e} : Shift [.operand 0 k e] (.listed false e)
  | loosen {l k e} : l ≤ 10 → (l = 2 → k ≠ .name "not") →
      Shift [.operand (l + 1) k e] (.operand l k e)

/-- The tokens are read to a row of symbols, and nodes are made on the way. -/
inductive Derives (notes : List Deprecation) : List Symbol → List Token → Prop where
  | nil : Derives notes [] []
  | shift {row us} (t : Token) : Derives notes row us →
    Derives notes (row ++ [.token t]) (us ++ [t])
  | head {row us} (id : String) (a : Span) : Derives notes row us →
    (∀ x ∈ us.getLast?, x.kind.attaches = false) →
    Derives notes (row ++ [.head id a]) (us ++ [⟨.name id, a⟩])
  | reduce {row items x us} : Derives notes (row ++ items) us → Rule notes items x →
    Derives notes (row ++ [x]) us
  | take {row items x us} : Derives notes (row ++ items) us → Shift items x →
    Derives notes (row ++ [x]) us

theorem Listed.forall_mem {α : Type} {sep : TokenKind} {Item : List Symbol → α → Prop}
    {trailing : Bool} {row : List Symbol} {as : List α} {Q : Symbol → Prop}
    (h : Listed sep Item trailing row as) (hsep : ∀ a, Q (.token ⟨sep, a⟩))
    (hitem : ∀ row a, Item row a → ∀ x ∈ row, Q x) :
    ∀ x ∈ row, Q x := by
  induction h with
  | nil => simp
  | last h => exact hitem _ _ h
  | cons mark h _ ih =>
    exact List.forall_mem_append.mpr ⟨hitem _ _ h, List.forall_mem_cons.mpr ⟨hsep mark, ih⟩⟩

/-! ### Inductions over derivations -/

/-- The tokens of the symbols of a row, one behind the other. -/
def Along (Q : Symbol → List Token → Prop) : List Symbol → List Token → Prop
  | [], us => us = []
  | x :: row, us => ∃ vs ws, us = vs ++ ws ∧ Q x vs ∧ Along Q row ws

section Along

variable {Q : Symbol → List Token → Prop} {row more : List Symbol} {us vs : List Token} {x : Symbol}

theorem along_append :
    Along Q (row ++ more) us ↔ ∃ vs ws, us = vs ++ ws ∧ Along Q row vs ∧ Along Q more ws := by
  induction row generalizing us with
  | nil => exact ⟨fun h => ⟨[], us, rfl, rfl, h⟩, by rintro ⟨_, _, rfl, rfl, h⟩; exact h⟩
  | cons x row ih =>
    simp only [List.cons_append, Along, ih]
    constructor
    · rintro ⟨vs, _, rfl, hx, ws, ws', rfl, hrow, hmore⟩
      exact ⟨vs ++ ws, ws', by simp, ⟨vs, ws, rfl, hx, hrow⟩, hmore⟩
    · rintro ⟨_, ws', rfl, ⟨vs, ws, rfl, hx, hrow⟩, hmore⟩
      exact ⟨vs, ws ++ ws', by simp, hx, ws, ws', rfl, hrow, hmore⟩

theorem Along.mono {R : Symbol → List Token → Prop} (h : Along Q row us)
    (hQ : ∀ x vs, Q x vs → R x vs) : Along R row us := by
  induction row generalizing us with
  | nil => exact h
  | cons x row ih =>
    obtain ⟨vs, ws, rfl, hx, hrow⟩ := h
    exact ⟨vs, ws, rfl, hQ x vs hx, ih hrow⟩

theorem Along.forall_mem {R : Symbol → Prop} (h : Along Q row us) (hQ : ∀ x vs, Q x vs → R x) :
    ∀ x ∈ row, R x := by
  induction row generalizing us with
  | nil => simp
  | cons x row ih =>
    obtain ⟨vs, ws, -, hx, hrow⟩ := h
    exact List.forall_mem_cons.mpr ⟨hQ x vs hx, ih hrow⟩

theorem Along.concat (h : Along Q row us) (hx : Q x vs) : Along Q (row ++ [x]) (us ++ vs) :=
  along_append.mpr ⟨us, vs, rfl, h, vs, [], by simp, hx, rfl⟩

end Along

namespace Derives

variable {notes : List Deprecation} {row more : List Symbol} {us ts : List Token}

/-- What holds of the tokens and is kept by the rules holds of all symbols. -/
theorem forall_mem {Q : Symbol → Prop} (htoken : ∀ t ∈ ts, Q (.token t))
    (hhead : ∀ id a, Token.Headed ts ⟨.name id, a⟩ → Q (.head id a))
    (hrule : ∀ row items x us, Derives notes (row ++ items) us → us <+: ts → Rule notes items x →
      (∀ y ∈ items, Q y) → Q x)
    (htake : ∀ items x, Shift items x → (∀ y ∈ items, Q y) → Q x)
    (h : Derives notes row us) (hus : us <+: ts) : ∀ x ∈ row, Q x := by
  induction h with
  | nil => simp
  | shift t _ ih =>
    obtain ⟨back, rfl⟩ := hus
    rw [List.forall_mem_append, List.forall_mem_singleton]
    exact ⟨ih ⟨t :: back, by simp⟩, htoken t (by simp)⟩
  | @head row us id a _ hlast ih =>
    obtain ⟨back, rfl⟩ := hus
    rw [List.forall_mem_append, List.forall_mem_singleton]
    exact ⟨ih ⟨⟨.name id, a⟩ :: back, by simp⟩, hhead id a ⟨us, back, by simp, hlast⟩⟩
  | reduce h hx ih =>
    obtain ⟨hrow, hitems⟩ := List.forall_mem_append.mp (ih hus)
    rw [List.forall_mem_append, List.forall_mem_singleton]
    exact ⟨hrow, hrule _ _ _ _ h hus hx hitems⟩
  | take _ hx ih =>
    obtain ⟨hrow, hitems⟩ := List.forall_mem_append.mp (ih hus)
    rw [List.forall_mem_append, List.forall_mem_singleton]
    exact ⟨hrow, htake _ _ hx hitems⟩

/-- What holds of a token and is kept by the rules holds of each symbol and the tokens it is read
from. -/
theorem along {Q : Symbol → List Token → Prop} (htoken : ∀ t, Q (.token t) [t])
    (hhead : ∀ id a, Q (.head id a) [⟨.name id, a⟩])
    (hrule : ∀ items x vs, vs <:+: ts → Rule notes items x → Along Q items vs → Q x vs)
    (htake : ∀ items x vs, Shift items x → Along Q items vs → Q x vs)
    (h : Derives notes row us) (hus : us <+: ts) : Along Q row us := by
  have hlast : ∀ {row items us x}, us <+: ts → Along Q (row ++ items) us →
      (∀ vs, vs <:+: ts → Along Q items vs → Q x vs) → Along Q (row ++ [x]) us := by
    intro row items us x hus hall hx
    obtain ⟨front, back, rfl, hfront, hback⟩ := along_append.mp hall
    exact hfront.concat (hx back ((List.suffix_append front back).isInfix.trans hus.isInfix) hback)
  induction h with
  | nil => rfl
  | shift t _ ih => exact (ih ((List.prefix_append _ _).trans hus)).concat (htoken t)
  | head id a _ _ ih => exact (ih ((List.prefix_append _ _).trans hus)).concat (hhead id a)
  | reduce _ hx ih => exact hlast hus (ih hus) fun vs hvs => hrule _ _ vs hvs hx
  | take _ hx ih => exact hlast hus (ih hus) fun vs _ => htake _ _ vs hx

end Derives

end Grammar

end Vyper
