import Vyper.Proofs.Grammar.Shape
import Vyper.Proofs.Placement.Parser

/-!
# Symbols in their places

What is made of symbols by a rule stands where they stood (`Grammar.Rule.stand`). So tokens in the
order of the text are read to symbols in that order (`Grammar.Derives.stand`), with every node in
its place.
-/

namespace Vyper

open Node (Row)

namespace Grammar

open Vyper.Grammar.Symbol (sign word)

namespace Symbol

/-- Where a symbol begins, decorators included. -/
def front : Symbol → Pos
  | .node n => n.front
  | x => x.span.start

/-- A token of the text, or a node in its place. -/
structure Sits (P : Token → Prop) (x : Symbol) : Prop where
  token : ∀ t ∈ x.token?, t.kind.isMark = false → t.span.start < t.span.stop ∧ P t
  node : ∀ n ∈ x.nodes, n.WellPlaced P ∧ n.span.start < n.span.stop

end Symbol

/-- Symbols one behind the other between two places. -/
def Stand (P : Token → Prop) : Pos → List Symbol → Pos → Prop
  | lo, [], hi => lo ≤ hi
  | lo, x :: row, hi => x.Sits P ∧ lo ≤ x.front ∧ x.span.start ≤ x.span.stop ∧
      Stand P x.span.stop row hi

variable {P : Token → Prop} {lo mid hi : Pos} {row more items : List Symbol} {x z : Symbol}
  {n m : Node} {notes : List Deprecation}

theorem span_of_mem_nodes (h : n ∈ x.nodes) : x.span = n.span := by
  cases x <;> cases h <;> first | rfl | contradiction

theorem span_of_nodes (h : x.nodes = [n]) : x.span = n.span :=
  span_of_mem_nodes (h ▸ List.mem_singleton_self n)

theorem front_of_nodes (h : x.nodes = [n]) : x.front = n.front := by
  cases x <;> cases h <;> rfl

/-! ### Rows of symbols -/

theorem Stand.mono {lo' hi' : Pos} (h : Stand P lo row hi) (hlo : lo' ≤ lo) (hhi : hi ≤ hi') :
    Stand P lo' row hi' := by
  induction row generalizing lo lo' with
  | nil => exact le_trans hlo (le_trans h hhi)
  | cons x row ih => exact ⟨h.1, le_trans hlo h.2.1, h.2.2.1, ih h.2.2.2 le_rfl⟩

theorem Symbol.Sits.front_le (h : x.Sits P) : x.front ≤ x.span.start := by
  cases x with
  | node n => exact (h.node n List.mem_cons_self).1.placed.front_le
  | _ => exact le_rfl

theorem Stand.le (h : Stand P lo row hi) : lo ≤ hi := by
  induction row generalizing lo with
  | nil => exact h
  | cons x row ih =>
    have hrest := ih h.2.2.2
    have hfront := h.1.front_le
    obtain ⟨-, hlo, hle, -⟩ := h
    order

theorem stand_append : Stand P lo (row ++ more) hi ↔ ∃ mid, Stand P lo row mid ∧
    Stand P mid more hi := by
  induction row generalizing lo with
  | nil => exact ⟨fun h => ⟨lo, le_rfl, h⟩, fun ⟨mid, hle, h⟩ => h.mono hle le_rfl⟩
  | cons x row ih =>
    simp only [List.cons_append, Stand, ih]
    constructor
    · rintro ⟨hx, hlo, hle, mid, hrow, hmore⟩
      exact ⟨mid, ⟨hx, hlo, hle, hrow⟩, hmore⟩
    · rintro ⟨mid, ⟨hx, hlo, hle, hrow⟩, hmore⟩
      exact ⟨hx, hlo, hle, mid, hrow, hmore⟩

theorem Stand.sits (h : Stand P lo row hi) : ∀ x ∈ row, x.Sits P := by
  induction row generalizing lo with
  | nil => simp
  | cons x row ih => exact List.forall_mem_cons.mpr ⟨h.1, ih h.2.2.2⟩

theorem Stand.within (h : Stand P lo row hi) : ∀ x ∈ row, x.span.Within lo hi := by
  induction row generalizing lo with
  | nil => simp
  | cons x row ih =>
    obtain ⟨hx, hlo, hle, hrest⟩ := h
    have hstart := le_trans hlo hx.front_le
    refine List.forall_mem_cons.mpr ⟨⟨hstart, hle, hrest.le⟩, fun y hy => ?_⟩
    obtain ⟨hy₁, hy₂, hy₃⟩ := ih hrest y hy
    exact ⟨le_trans hstart (le_trans hle hy₁), hy₂, hy₃⟩

/-- The nodes among symbols are a row. -/
theorem Stand.row_nodes (h : Stand P lo row hi) : Row P lo (nodes row) hi := by
  induction row generalizing lo with
  | nil => exact h
  | cons x row ih =>
    obtain ⟨hx, hlo, hle, hrest⟩ := h
    have hfront := hx.front_le
    have hrow := ih hrest
    cases hnodes : x.nodes with
    | nil =>
      rw [nodes_cons, hnodes]
      exact hrow.mono (by order) le_rfl
    | cons n ns =>
      obtain rfl : ns = [] := by cases x <;> cases hnodes <;> rfl
      obtain ⟨hn, hlt⟩ := hx.node n (by rw [hnodes]; exact List.mem_cons_self)
      rw [nodes_cons, hnodes]
      rw [front_of_nodes hnodes] at hlo
      rw [span_of_nodes hnodes] at hrow
      exact ⟨hn, hlo, hlt, hrow⟩

/-! ### What a rule makes -/

/-- Where symbols end: with the last token, or with the last node. -/
inductive Ends (items : List Symbol) : Span → Prop where
  | token {front : List Symbol} {z : Symbol} : items = front ++ [z] → z.nodes = [] →
    (∀ t ∈ z.token?, t.kind.isMark = false) → Ends items z.span
  | node {m : Node} : (nodes items).getLast? = some m → Ends items m.span

/-- A symbol that is not empty, and begins with its span. -/
structure Symbol.Solid (x : Symbol) : Prop where
  front : x.front = x.span.start
  content : ∀ t ∈ x.token?, t.kind.isMark = false

theorem Symbol.Solid.start_lt (h : x.Solid) (hx : x.Sits P) : x.span.start < x.span.stop := by
  cases x with
  | token t => exact (hx.token t rfl (h.content t rfl)).1
  | head id a => exact (hx.token _ rfl (h.content _ rfl)).1
  | operand l k e | listed trailing e | node n => exact (hx.node _ List.mem_cons_self).2

/-- From the start of the first symbol to where the symbols end. -/
theorem Stand.bounds {rest : List Symbol} {stop : Span} (h : Stand P lo (x :: rest) hi)
    (hx : x.Solid) (hstop : Ends (x :: rest) stop) :
    x.span.start ≤ stop.start ∧ x.span.stop ≤ stop.stop ∧ stop.stop ≤ hi ∧
      Row P x.span.start (nodes (x :: rest)) stop.stop := by
  have hlt := hx.start_lt h.1
  have hfrom : Stand P x.span.start (x :: rest) hi := ⟨h.1, hx.front.ge, h.2.2⟩
  have hrest := h.2.2.2
  cases hstop with
  | @token front z hitems hz hcontent =>
    have hfront : z.front = z.span.start := by cases z <;> first | rfl | cases hz
    have hnodes : nodes (x :: rest) = nodes front := by rw [hitems, nodes_append]; simp [hz]
    have hsplit := hitems ▸ hfrom
    obtain ⟨mid, hinit, -, hmid, hle, hhi⟩ := stand_append.mp hsplit
    rw [hfront] at hmid
    have hstart := hinit.le
    refine ⟨by order, ?_, hhi, hnodes ▸ hinit.row_nodes.mono le_rfl (by order)⟩
    cases front with
    | nil =>
      cases hitems
      exact le_rfl
    | cons y front =>
      cases hitems
      have := hinit.2.2.2.le
      order
  | @node m hlast =>
    have hrow := hfrom.row_nodes
    have hmem := List.mem_of_getLast? hlast
    obtain ⟨hstart, -⟩ := hrow.behind hmem
    refine ⟨hstart, ?_, (hrow.within m hmem).2, hrow.to_stop hlast⟩
    rw [nodes_cons] at hmem
    rcases List.mem_append.mp hmem with hmem | hmem
    · rw [span_of_mem_nodes hmem]
    · obtain ⟨hle, hlt⟩ := hrest.row_nodes.behind hmem
      order

/-- The span of a node: that of its only symbol, from its first symbol to where they end, or over
the words of an import. -/
inductive Covers : List Symbol → Span → Prop where
  | only {y : Symbol} : y.Solid → Covers [y] y.span
  | between {y : Symbol} {rest : List Symbol} {stop : Span} : y.Solid → Ends (y :: rest) stop →
    Covers (y :: rest) (y.span.cover stop)
  | words {w : String} {a stop : Span} {ts : List Token} :
      (∀ t ∈ ts, t.kind.isMark = false) → Words ts stop →
    Covers (word w a :: ts.map .token) (a.cover stop)

/-- Where the node of a rule stands. Decorators stand in front of a function. -/
theorem Rule.covers (h : Rule notes items x) (hn : x.nodes = [n]) (hplain : n.isPlain = true) :
    Covers items n.span := by
  have htoken : ∀ {t : Token}, t.kind.isMark = false → (Symbol.token t).Solid :=
    fun ht => ⟨rfl, by rintro _ ⟨⟩; exact ht⟩
  have hhead : ∀ {id a}, (Symbol.head id a).Solid := ⟨rfl, by rintro _ ⟨⟩; rfl⟩
  have hoperand : ∀ {l k e}, (Symbol.operand l k e).Solid := ⟨rfl, by simp [Symbol.token?]⟩
  have hlisted : ∀ {trailing e}, (Symbol.listed trailing e).Solid := ⟨rfl, by simp [Symbol.token?]⟩
  cases h with
  | function => cases hn; cases hplain
  | importing hts hwords hspan | importFrom hts hwords hspan =>
    cases hn
    dsimp only [Node.span]
    exact hspan ▸ .words hts hwords
  | name | binder => cases hn; exact .only hhead
  | truth | numeral | str | bytes | pass | leave | next | ret | raise =>
    cases hn; exact .only (htoken rfl)
  | eval => cases hn; exact .only hlisted
  | tuple | list | dict | params =>
    cases hn
    exact .between (htoken rfl) (@Ends.token _ (_ :: _) _ rfl rfl (by rintro _ ⟨⟩; rfl))
  | member =>
    cases hn; exact .between hoperand (@Ends.token _ [_, _] _ rfl rfl (by rintro _ ⟨⟩; rfl))
  | subscript =>
    cases hn; exact .between hoperand (@Ends.token _ [_, _, _] _ rfl rfl (by rintro _ ⟨⟩; rfl))
  | call =>
    cases hn; exact .between hoperand (@Ends.token _ (_ :: _ :: _) _ rfl rfl (by rintro _ ⟨⟩; rfl))
  | @unary op kind k e a h =>
    cases hn
    exact .between (htoken (by cases op <;> cases h <;> rfl)) (@Ends.node _ (.expr e) rfl)
  | keyword | retValue | log | raiseValue | clause =>
    cases hn
    exact .between (htoken rfl) (@Ends.node _ (.expr _) rfl)
  | param => cases hn; exact .between hhead (@Ends.node _ (.expr _) rfl)
  | binary => cases hn; exact .between hoperand (@Ends.node _ (.expr _) rfl)
  | assign | update => cases hn; exact .between hlisted (@Ends.node _ (.expr _) rfl)
  | compare =>
    cases hn
    exact .between hoperand (@Ends.node _ (.expr _) (by simp [nodes_tokens, Symbol.nodes]))
  | bare h | logical h =>
    cases hn
    exact .between hoperand (@Ends.node _ (.expr _) (by
      simp [h.nodes_operands, Symbol.nodes, List.getLast?_cons, List.getLastD_eq_getLast?]))
  | declare h => cases hn; cases h <;> exact .between hlisted (@Ends.node _ (.expr _) rfl)
  | assert h => cases hn; cases h <;> exact .between (htoken rfl) (@Ends.node _ (.expr _) rfl)
  | var h =>
    cases hn; cases h <;> exact .between ⟨rfl, by simp [Symbol.token?]⟩ (@Ends.node _ (.expr _) rfl)
  | branch hbody hrest hlast =>
    cases hn
    refine .between (htoken rfl) (@Ends.node _ (.stmt _) ?_)
    have hnodes := congrArg (Option.map Node.stmt) hlast
    rw [← List.getLast?_map, List.map_append] at hnodes
    simp [hbody.nodes_eq, hrest.nodes_eq, Symbol.nodes, List.getLast?_cons, hnodes]
  | loop hbody hlast | members _ hbody hlast =>
    cases hn
    refine .between (htoken rfl) (@Ends.node _ (.stmt _) ?_)
    simp [hbody.nodes_eq, Symbol.nodes, List.getLast?_cons, hlast]
  | @interface _ _ _ last _ _ _ _ _ _ hbody hlast =>
    cases hn
    have hspan : last.span = last.toNode.span := by cases last <;> rfl
    dsimp only [Node.span]
    rw [hspan]
    exact .between (htoken rfl) (.node (by simp [hbody.1, Symbol.nodes, hlast]))

/-- The tokens of a leaf and of a member are among those a rule puts together. -/
theorem Rule.mem_of_token? {t : Token} (h : Rule notes items x) (hn : x.nodes = [n])
    (ht : n.token? = some t) : t.kind.isMark = false ∧ ∃ y ∈ items, y.token? = some t := by
  cases h <;> cases hn <;> cases ht <;> exact ⟨rfl, _, List.mem_cons_self, rfl⟩

theorem Words.bounds {ts : List Token} {stop : Span} (h : Words ts stop)
    (hts : ∀ t ∈ ts, t.kind.isMark = false) (hrow : Stand P lo (ts.map .token) hi) :
    lo ≤ stop.start ∧ stop.start < stop.stop ∧ stop.stop ≤ hi := by
  induction h generalizing hi with
  | @last ts t =>
    rw [List.map_append] at hrow
    obtain ⟨mid, hfront, hsits, hmid, -, hhi⟩ := stand_append.mp hrow
    have hlo := hfront.le
    change mid ≤ t.span.start at hmid
    exact ⟨by order, (hsits.token t rfl (hts t (by simp))).1, hhi⟩
  | @dotted ts span t u _ ih =>
    rw [List.map_append] at hrow
    obtain ⟨mid, hfront, -, hmid, hle, hsits, hle', -, hhi⟩ := stand_append.mp hrow
    obtain ⟨hlo, hlt, hstop⟩ := ih (fun t ht => hts t (by simp [ht])) hfront
    have hu := (hsits.token u rfl (hts u (by simp))).1
    change mid ≤ t.span.start at hmid
    change t.span.start ≤ t.span.stop at hle
    change t.span.stop ≤ u.span.start at hle'
    rw [Span.cover_eq (by order) (by order)]
    exact ⟨hlo, by order, hhi⟩

/-- The symbols of a node are between its ends. -/
theorem Stand.covers {span : Span} (h : Stand P lo items hi) (hspan : Covers items span) :
    lo ≤ span.start ∧ span.start < span.stop ∧ span.stop ≤ hi ∧
    Row P span.start (nodes items) span.stop := by
  cases hspan with
  | @only y hy =>
    obtain ⟨hsits, hlo, hle, hhi⟩ := h
    have hfrom : Stand P y.span.start [y] y.span.stop := ⟨hsits, hy.front.ge, hle, le_rfl⟩
    rw [hy.front] at hlo
    exact ⟨hlo, hy.start_lt hsits, hhi, hfrom.row_nodes⟩
  | between hy hstop =>
    have hlt := hy.start_lt h.1
    have hlo := h.2.1
    rw [hy.front] at hlo
    obtain ⟨hstart, hstop, hhi, hrow⟩ := h.bounds hy hstop
    rw [Span.cover_eq hstart hstop]
    exact ⟨hlo, by order, hhi, hrow⟩
  | @words w a stop ts hts hwords =>
    obtain ⟨hsits, hlo, hle, hrest⟩ := h
    obtain ⟨hstart, hlt, hhi⟩ := hwords.bounds hts hrest
    change a.start ≤ a.stop at hle
    change a.stop ≤ stop.start at hstart
    rw [Span.cover_eq (by order) (by order)]
    refine ⟨hlo, by order, hhi, ?_⟩
    simp only [nodes_cons, nodes_tokens, Symbol.nodes]
    change a.start ≤ stop.stop
    order

/-- A node begins with its first symbol. -/
theorem Stand.start_eq {y : Symbol} {rest : List Symbol} {span : Span}
    (h : Stand P lo (y :: rest) hi) (hspan : Covers (y :: rest) span) :
    span.start = y.span.start := by
  cases hspan with
  | only => rfl
  | between hy hstop =>
    obtain ⟨hstart, hstop, -⟩ := h.bounds hy hstop
    rw [Span.cover_eq hstart hstop]
  | @words w a stop ts hts hwords =>
    obtain ⟨-, -, hle, hrest⟩ := h
    obtain ⟨hstart, hlt, -⟩ := hwords.bounds hts hrest
    change a.start ≤ a.stop at hle
    change a.stop ≤ stop.start at hstart
    rw [Span.cover_eq (by order) (by order)]
    rfl

theorem stand_of_row (hn : x.nodes = [n]) (h : Row P lo [n] hi) : Stand P lo [x] hi := by
  obtain ⟨hplaced, hlo, hlt, hhi⟩ := h
  refine ⟨⟨fun t ht => ?_, fun m hm => ?_⟩, ?_, ?_, ?_⟩
  · cases x with
    | token | head => cases hn
    | _ => cases ht
  · rw [hn, List.mem_singleton] at hm
    rw [hm]
    exact ⟨hplaced, hlt⟩
  · rwa [front_of_nodes hn]
  · rw [span_of_nodes hn]
    exact hlt.le
  · rw [span_of_nodes hn]
    exact hhi

/-- What a rule makes stands where its symbols stood. -/
theorem Rule.stand (hrule : Rule notes items x) (h : Stand P lo items hi) : Stand P lo [x] hi := by
  obtain ⟨n, hn⟩ := hrule.exists_node
  refine stand_of_row hn ?_
  cases hplain : n.isPlain with
  | false =>
    cases hrule with
    | @function front decorators name params r returns rest body last a b c hfront hr hbody hlast =>
      cases hn
      obtain ⟨mid, hdecorators, hcore⟩ :=
        stand_append.mp (by simpa only [List.append_assoc] using h)
      have hend : Ends (word "def" a :: word name b :: .node (.params params) :: r ++
          sign .colon c :: rest) last.span := @Ends.node _ (.stmt last) (by
        simp [hr.nodes_eq, hbody.nodes_eq, Symbol.nodes, List.getLast?_cons,
          List.getLast?_append, hlast])
      have hword : (word "def" a).Solid := ⟨rfl, by rintro _ ⟨⟩; rfl⟩
      have hlt := hword.start_lt hcore.1
      have hlo := hcore.2.1
      obtain ⟨hstart, hstop, hhi, hrow⟩ := hcore.bounds hword hend
      have hdecorators := hdecorators.row_nodes
      rw [hfront.nodes_eq] at hdecorators
      have hspan := Span.cover_eq hstart hstop
      have hsub :
          (Node.params params :: returns.toList.map .expr ++
            (Parser.liftDoc body).2.map Node.stmt).Sublist
          (nodes (word "def" a :: word name b :: .node (.params params) :: r ++
            sign .colon c :: rest)) := by
        simp only [List.cons_append, nodes_cons, nodes_append, hr.nodes_eq, hbody.nodes_eq,
          Symbol.nodes, List.nil_append]
        exact .cons_cons _ (.append_left ((liftDoc_sublist body).map _) _)
      refine Row.mono (Row.function ?_ ?_ ?_) le_rfl ?_ <;>
        dsimp only [Symbol.span] at * <;> rw [hspan]
      · order
      · exact hdecorators.mono le_rfl hlo
      · exact hrow.sublist hsub
      · exact hhi
    | _ => cases hn; cases hplain
  | true =>
    obtain ⟨ms, hsub, hperm⟩ := hrule.exists_parts hn
    obtain ⟨hlo, hlt, hhi, hrow⟩ := h.covers (hrule.covers hn hplain)
    refine (Row.enclose hplain rfl hlo hlt (fun t ht => ?_) ?_ (hrow.sublist hsub) hperm).mono
      le_rfl hhi
    · obtain ⟨hmark, y, hy, hyt⟩ := hrule.mem_of_token? hn ht
      exact ((h.sits y hy).token t hyt hmark).2
    · cases hrule with
      | @member k value attr a b =>
        cases hn
        obtain ⟨-, -, hvalue, -, hdot, hle, hattr, hname, hle', -⟩ := h
        have hspan : value.span.cover b = ⟨value.span.start, b.stop⟩ := by
          dsimp only [Symbol.span, Symbol.front] at *
          exact Span.cover_eq (by order) (by order)
        exact ⟨by rw [hspan], b, (hattr.token _ rfl rfl).2, by rw [hspan]⟩
      | _ => cases hn; trivial

theorem Shift.stand (hshift : Shift items x) (h : Stand P lo items hi) : Stand P lo [x] hi := by
  cases hshift with
  | group =>
    obtain ⟨-, hlo, hle, he, hopen, hspan, -, hclose, hle', hhi⟩ := h
    refine ⟨⟨nofun, he.node⟩, ?_, hspan, ?_⟩ <;>
      dsimp only [Symbol.span, Symbol.front, Stand] at * <;> order
  | _ => exact ⟨⟨nofun, h.1.node⟩, h.2⟩

/-- Tokens in the order of the text are read to symbols in that order. -/
theorem Derives.stand {us : List Token} {eof : Pos} {rest : List Token}
    (h : Derives notes row us) (hus : Token.Row P eof lo (us ++ rest)) :
    ∃ hi, Stand P lo row hi ∧ Token.Row P eof hi rest := by
  have htoken : ∀ {row us} {t : Token} {x : Symbol}, x.token? = some t → x.nodes = [] →
      (∃ hi, Stand P lo row hi ∧ Token.Row P eof hi (t :: us)) →
      ∃ hi, Stand P lo (row ++ [x]) hi ∧ Token.Row P eof hi us := by
    rintro row us t x ht hx ⟨hi, hrow, hlo, hle, hcontent, hus⟩
    have hspan : x.span = t.span ∧ x.front = t.span.start := by
      cases x <;> cases ht <;> exact ⟨rfl, rfl⟩
    refine ⟨t.span.stop, stand_append.mpr ⟨hi, hrow, ⟨?_, by rw [hx]; nofun⟩, ?_, ?_, ?_⟩, hus⟩
    · rw [ht]
      rintro _ ⟨⟩
      exact hcontent
    · rwa [hspan.2]
    · rwa [hspan.1]
    · rw [hspan.1]
      exact le_rfl
  have hlast : ∀ {row items x us}, (∃ hi, Stand P lo (row ++ items) hi ∧ Token.Row P eof hi us) →
      (∀ {lo hi}, Stand P lo items hi → Stand P lo [x] hi) →
      ∃ hi, Stand P lo (row ++ [x]) hi ∧ Token.Row P eof hi us := by
    rintro row items x us ⟨hi, h, hus⟩ hx
    obtain ⟨mid, hrow, hitems⟩ := stand_append.mp h
    exact ⟨hi, stand_append.mpr ⟨mid, hrow, hx hitems⟩, hus⟩
  induction h generalizing rest with
  | nil => exact ⟨lo, le_rfl, hus⟩
  | shift t _ ih => exact htoken rfl rfl (ih (by simpa using hus))
  | head id a _ _ ih => exact htoken rfl rfl (ih (by simpa using hus))
  | reduce _ hx ih => exact hlast (ih hus) hx.stand
  | take _ hx ih => exact hlast (ih hus) hx.stand

end Grammar

end Vyper
