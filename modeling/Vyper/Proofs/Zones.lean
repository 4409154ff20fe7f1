import Vyper.Proofs.Stretches

/-!
# Zones of a text

A reader that goes through a text one character at a time knows at each place whether it is in a
string literal, in a comment or on a line of its own (`Zone`). With this a text can be retouched
where it does not matter: `Retouched` puts carriage returns before line feeds and blank lines before
lines, but never into a literal. Every lexeme that is no gap and no line feed is cut alike from both
texts (`Lexeme.cutAlike_cut`).
-/

namespace Vyper

/-- What a reader of a text is in the middle of. -/
inductive Zone where
  /-- At the start of a line of its own. -/
  | line
  /-- On a line, outside literals and comments. -/
  | code
  /-- At the start of a line that a backslash joins to the line before. -/
  | joined
  | comment
  /-- Behind a backslash on a line, or behind that and a carriage return. -/
  | slash (returned : Bool)
  /-- Behind the first quote of a literal. -/
  | opened (q : Char)
  /-- Behind two quotes: an empty literal, unless a third one follows. -/
  | doubled (q : Char)
  /-- In a literal, behind some of the quotes that are to close it. -/
  | literal (q : Char) (triple : Bool) (closing : Nat)
  /-- In a literal, behind a backslash. -/
  | escaped (q : Char) (triple : Bool)
deriving DecidableEq

namespace Zone

/-- Behind a character outside literals and comments. -/
def enter (c : Char) : Zone :=
  if c = '\n' then .line
  else if c = '#' then .comment
  else if c = '\\' then .slash false
  else if Lexeme.isQuote c then .opened c
  else .code

/-- Behind a character of a literal. The end of the line ends a literal in single quotes, closed or
not. -/
def within (q : Char) (triple : Bool) (closing : Nat) (c : Char) : Zone :=
  if c = '\\' then .escaped q triple
  else if c == '\n' && !triple then .line
  else if c = q then
    if triple && decide (closing < 2) then .literal q triple (closing + 1) else .code
  else .literal q triple 0

def step : Zone → Char → Zone
  | .line, c | .code, c | .joined, c => enter c
  | .comment, c => if c = '\n' then .line else .comment
  | .slash returned, c =>
    if c = '\n' then .joined
    else if c = '\r' && !returned then .slash true
    else enter c
  | .opened q, c => if c = q then .doubled q else within q false 0 c
  | .doubled q, c => if c = q then .literal q true 0 else enter c
  | .literal q triple closing, c => within q triple closing c
  | .escaped q triple, _ => .literal q triple 0

/-- The zone behind a text. -/
def behind (text : List Char) : Zone := text.foldl step .line

def inLiteral : Zone → Bool
  | .opened _ | .literal .. | .escaped .. => true
  | _ => false

variable {z : Zone} {c q : Char}

/-- Only a line feed leads to a line. -/
theorem step_ne_line (hc : c ≠ '\n') (z : Zone) : z.step c ≠ .line := by
  cases z <;> grind [step, enter, within]

/-- The quote of a literal. -/
def quote? : Zone → Option Char
  | .opened q | .doubled q | .literal q _ _ | .escaped q _ => some q
  | _ => none

theorem isQuote_of_step (h : ∀ q ∈ z.quote?, Lexeme.isQuote q = true) :
    ∀ q ∈ (z.step c).quote?, Lexeme.isQuote q = true := by
  cases z <;> grind [step, enter, within, quote?]

theorem isQuote_of_foldl_step (h : ∀ q ∈ z.quote?, Lexeme.isQuote q = true) (text : List Char) :
    ∀ q ∈ (text.foldl step z).quote?, Lexeme.isQuote q = true := by
  induction text generalizing z with
  | nil => exact h
  | cons c cs ih => exact ih (isQuote_of_step h)

/-- A line feed leads to a line, unless it belongs to a literal or a backslash stands before it. -/
theorem step_lineFeed (h : ∀ q ∈ z.quote?, Lexeme.isQuote q = true)
    (hliteral : (z.step '\n').inLiteral = false) (hjoined : z.step '\n' ≠ .joined) :
    z.step '\n' = .line := by
  have hne : ∀ q ∈ z.quote?, '\n' ≠ q := by
    rintro q hq rfl
    cases h _ hq
  cases z <;> grind [step, enter, within, quote?, inLiteral]

theorem enter_of_isBlank (h : Lexeme.isBlank c = true) : enter c = .code := by
  simp only [Lexeme.isBlank, Bool.or_eq_true, beq_iff_eq] at h
  obtain ((rfl | rfl) | rfl) | rfl := h <;> rfl

theorem ne_of_enter (h : enter c = .code) :
    c ≠ '\n' ∧ c ≠ '#' ∧ c ≠ '\\' ∧ Lexeme.isQuote c = false := by
  grind [enter]

end Zone

/-- Blanks, and perhaps a comment behind them. -/
def IsBlankLine (line : List Char) : Prop :=
  ∃ blanks comment, line = blanks ++ comment ∧ (∀ c ∈ blanks, Lexeme.isBlank c = true) ∧
    (comment = [] ∨ ∃ body, comment = '#' :: body ∧ '\n' ∉ body)

/-- A text behind a zone, and the same with carriage returns put before line feeds and blank lines
put before lines of their own. -/
inductive Retouched : Zone → List Char → List Char → Prop where
  | nil (z : Zone) : Retouched z [] []
  | kept {z : Zone} {c : Char} {cs cs' : List Char} :
    Retouched (z.step c) cs cs' → Retouched z (c :: cs) (c :: cs')
  | returned {z : Zone} {cs cs' : List Char} : z.inLiteral = false → z ≠ .slash true →
    Retouched (z.step '\n') cs cs' → Retouched z ('\n' :: cs) ('\r' :: '\n' :: cs')
  | inserted {line cs cs' : List Char} : IsBlankLine line → Retouched .line cs cs' →
    Retouched .line cs (line ++ '\n' :: cs')

/-- A text at the end of a line. -/
def EndsLine (text : List Char) : Prop := ∀ c ∈ text.head?, c = '\n' ∨ c = '\r'

namespace Retouched

variable {z : Zone} {c q : Char} {cs cs' text text' : List Char}

theorem refl (z : Zone) (text : List Char) : Retouched z text text := by
  induction text generalizing z with
  | nil => exact .nil z
  | cons c cs ih => exact .kept (ih (z.step c))

/-- A blank line before a line of its own. -/
theorem insert {before line : List Char} (hline : before.foldl Zone.step z = .line)
    (hblank : IsBlankLine line) (after : List Char) :
    Retouched z (before ++ after) (before ++ (line ++ '\n' :: after)) := by
  induction before generalizing z with
  | nil =>
    cases hline
    exact .inserted hblank (.refl .line after)
  | cons c cs ih => exact .kept (ih hline)

/-! ### What is kept -/

theorem eq_nil (h : Retouched z [] text') (hz : z ≠ .line) : text' = [] := by
  cases h with
  | nil => rfl
  | inserted => exact absurd rfl hz

theorem cons_of_ne (h : Retouched z (c :: cs) text') (hz : z ≠ .line) (hc : c ≠ '\n') :
    ∃ cs', text' = c :: cs' ∧ Retouched (z.step c) cs cs' := by
  cases h with
  | kept h => exact ⟨_, rfl, h⟩
  | returned => exact absurd rfl hc
  | inserted => exact absurd rfl hz

/-- The first character is the same, but for a carriage return before a line feed. -/
theorem head?_ne (h : Retouched z text text') (hz : z ≠ .line) (hq : Lexeme.isQuote q = true)
    (htext : ∀ c ∈ text.head?, c ≠ q) : ∀ c ∈ text'.head?, c ≠ q := by
  cases h with
  | nil => simp
  | kept => simpa using htext
  | returned =>
    rintro c ⟨⟩ rfl
    cases hq
  | inserted => exact absurd rfl hz

theorem cons_of_inLiteral (h : Retouched z (c :: cs) text') (hz : z.inLiteral = true) :
    ∃ cs', text' = c :: cs' ∧ Retouched (z.step c) cs cs' := by
  cases h with
  | kept h => exact ⟨_, rfl, h⟩
  | returned hliteral => rw [hz] at hliteral; cases hliteral
  | inserted => cases hz

/-- Up to the end of the line nothing changes. -/
theorem exists_line (h : Retouched z text text') (hz : z ≠ .line) :
    ∃ row rest rest', text = row ++ rest ∧ text' = row ++ rest' ∧ '\n' ∉ row ∧ EndsLine rest ∧
      EndsLine rest' ∧ Retouched (row.foldl Zone.step z) rest rest' := by
  induction text generalizing z text' with
  | nil =>
    cases h.eq_nil hz
    exact ⟨[], [], [], rfl, rfl, by simp, by simp [EndsLine], by simp [EndsLine], h⟩
  | cons c cs ih =>
    by_cases hc : c = '\n'
    · subst hc
      refine ⟨[], '\n' :: cs, text', rfl, rfl, by simp, by simp [EndsLine], ?_, h⟩
      cases h with
      | kept => simp [EndsLine]
      | returned => simp [EndsLine]
      | inserted => exact absurd rfl hz
    · obtain ⟨cs', rfl, hcs⟩ := h.cons_of_ne hz hc
      obtain ⟨row, rest, rest', rfl, rfl, hrow, hrest, hrest', hrests⟩ :=
        ih hcs (Zone.step_ne_line hc z)
      refine ⟨c :: row, rest, rest', rfl, rfl, ?_, hrest, hrest', hrests⟩
      simp [hrow, Ne.symm hc]

/-- What is the same in both texts can be taken off, up to the end of the line. -/
theorem drop {row : List Char} (h : Retouched z (row ++ text) (row ++ text')) (hz : z ≠ .line)
    (hrow : '\n' ∉ row) : Retouched (row.foldl Zone.step z) text text' := by
  induction row generalizing z with
  | nil => exact h
  | cons c cs ih =>
    obtain ⟨hc, hcs⟩ := not_or.mp (mt List.mem_cons.mpr hrow)
    obtain ⟨_, heq, h⟩ := h.cons_of_ne hz (Ne.symm hc)
    cases heq
    exact ih h (Zone.step_ne_line (Ne.symm hc) z) hcs

end Retouched

/-! ### Literals -/

namespace StringLiteral

variable {triple : Bool} {q c : Char}

theorem not_isPrefixOf_replicate {k : Nat} (hk : k < (quotes triple q).length) {rest : List Char}
    (hrest : ∀ c ∈ rest.head?, c ≠ q) :
    (quotes triple q).isPrefixOf (List.replicate k q ++ rest) = false := by
  have hall : ∀ n k, k < n →
      (List.replicate n q).isPrefixOf (List.replicate k q ++ rest) = false := by
    intro n
    induction n with
    | zero => intro k hk; omega
    | succ n ih =>
      intro k hk
      cases k with
      | zero =>
        cases rest with
        | nil => rfl
        | cons c cs =>
          have hne := hrest c rfl
          simp [List.replicate_succ, List.isPrefixOf, Ne.symm hne]
      | succ k =>
        rw [List.replicate_succ, List.replicate_succ, List.cons_append, List.isPrefixOf,
          ih k (by omega), Bool.and_false]
  cases triple with
  | false => exact hall 1 k hk
  | true => exact hall 3 k hk

/-- Quotes that are too few to close a literal belong to its body. -/
theorem splitBody_replicate (hq : Lexeme.isQuote q = true) {k : Nat}
    (hk : k < (quotes triple q).length) {rest : List Char} (hrest : ∀ c ∈ rest.head?, c ≠ q) :
    splitBody triple (quotes triple q) (List.replicate k q ++ rest) =
      (splitBody triple (quotes triple q) rest).map
        fun split => (List.replicate k q ++ split.1, split.2) := by
  induction k with
  | zero => simp
  | succ k ih =>
    have hne : q ≠ '\\' ∧ q ≠ '\n' := by constructor <;> rintro rfl <;> cases hq
    have hclose := not_isPrefixOf_replicate hk hrest
    rw [List.replicate_succ, List.cons_append] at hclose ⊢
    rw [splitBody_cons hne.1, hclose, ih (by omega), Option.map_map, if_neg (by simp [hne.2])]
    rfl

end StringLiteral

/-- Two texts split at the end of a literal: it is closed in neither, or both have the same body and
are retouched behind it. -/
def SplitAlike (split split' : Option (List Char × List Char)) : Prop :=
  (split = none ∧ split' = none) ∨ ∃ body rest rest', split = some (body, rest) ∧
    split' = some (body, rest') ∧ Retouched .code rest rest'

theorem SplitAlike.map {split split' : Option (List Char × List Char)} (h : SplitAlike split split')
    (f : List Char → List Char) :
    SplitAlike (split.map fun s => (f s.1, s.2)) (split'.map fun s => (f s.1, s.2)) := by
  rcases h with ⟨rfl, rfl⟩ | ⟨body, rest, rest', rfl, rfl, h⟩
  · exact .inl ⟨rfl, rfl⟩
  · exact .inr ⟨f body, rest, rest', rfl, rfl, h⟩

namespace Retouched

open StringLiteral

variable {q : Char} {triple : Bool} {cs cs' : List Char}

/-- A literal is closed by the same quotes in both texts. Some of the quotes that are to close it
may have been read. -/
theorem splitAlike (hq : Lexeme.isQuote q = true) {k : Nat} (hk : k < (quotes triple q).length)
    (h : Retouched (.literal q triple k) cs cs') :
    SplitAlike (splitBody triple (quotes triple q) (List.replicate k q ++ cs))
      (splitBody triple (quotes triple q) (List.replicate k q ++ cs')) := by
  have hne : q ≠ '\\' ∧ q ≠ '\n' := by constructor <;> rintro rfl <;> cases hq
  have hzero : 0 < (quotes triple q).length := by omega
  induction hn : cs.length using Nat.strongRecOn generalizing k cs cs' with
  | ind n ih =>
  cases cs with
  | nil =>
    cases h.eq_nil (by simp)
    rw [splitBody_replicate hq hk (by simp)]
    exact .inl ⟨rfl, rfl⟩
  | cons c cs =>
    rw [List.length_cons] at hn
    obtain ⟨cs', rfl, hcs⟩ := h.cons_of_inLiteral rfl
    by_cases hc : c = q
    · subst hc
      have hquote : ∀ rest, List.replicate k c ++ c :: rest = List.replicate (k + 1) c ++ rest := by
        intro rest
        rw [List.replicate_succ', List.append_assoc]
        rfl
      rw [hquote, hquote]
      by_cases hlast : k + 1 < (quotes triple c).length
      · have hstep : (Zone.literal c triple k).step c = .literal c triple (k + 1) := by
          cases triple with
          | false => exact absurd hlast (by simp [quotes])
          | true =>
            have hk : k < 2 := Nat.lt_of_succ_lt_succ hlast
            simp [Zone.step, Zone.within, hne, hk]
        exact ih cs.length (by omega) hlast (hstep ▸ hcs) rfl
      · have hlength : k + 1 = (quotes triple c).length := by omega
        have hall : List.replicate (k + 1) c = quotes triple c := by
          rw [hlength]
          cases triple <;> rfl
        have hstep : (Zone.literal c triple k).step c = .code := by
          cases triple with
          | false => simp [Zone.step, Zone.within, hne]
          | true =>
            have hk : ¬ k < 2 := fun hk => hlast (Nat.succ_lt_succ hk)
            simp [Zone.step, Zone.within, hne, hk]
        rw [hall, splitBody_quotes hq, splitBody_quotes hq]
        exact .inr ⟨[], cs, cs', rfl, rfl, hstep ▸ hcs⟩
    rw [splitBody_replicate hq hk (by simpa using hc),
      splitBody_replicate hq hk (by simpa using hc)]
    refine SplitAlike.map ?_ (List.replicate k q ++ ·)
    by_cases hslash : c = '\\'
    · subst hslash
      have hstep : (Zone.literal q triple k).step '\\' = .escaped q triple := by
        simp [Zone.step, Zone.within]
      rw [hstep] at hcs
      cases cs with
      | nil =>
        cases hcs.eq_nil (by simp)
        exact .inl ⟨rfl, rfl⟩
      | cons d ds =>
        rw [List.length_cons] at hn
        obtain ⟨ds', rfl, hds⟩ := hcs.cons_of_inLiteral rfl
        have hbody := ih ds.length (by omega) hzero hds rfl
        simp only [splitBody]
        exact hbody.map ('\\' :: d :: ·)
    · have hclose : ∀ rest, (quotes triple q).isPrefixOf (c :: rest) = false :=
        fun rest => not_isPrefixOf_replicate hzero (by simpa using hc)
      rw [splitBody_cons hslash, splitBody_cons hslash, hclose, hclose]
      cases hfeed : c == '\n' && !triple with
      | true => exact .inl ⟨rfl, rfl⟩
      | false =>
        have hstep : (Zone.literal q triple k).step c = .literal q triple 0 := by
          rw [Zone.step, Zone.within, if_neg hslash, hfeed, if_neg Bool.false_ne_true, if_neg hc]
        have hbody := ih cs.length (by omega) hzero (hstep ▸ hcs) rfl
        exact hbody.map (c :: ·)

end Retouched

/-- The next character of a text stands outside literals and comments. -/
def Zone.Clear (z : Zone) (text : List Char) : Prop :=
  z = .line ∨ z = .code ∨ z = .joined ∨ ∃ q, z = .doubled q ∧ ∀ c ∈ text.head?, c ≠ q

theorem Zone.Clear.step {z : Zone} {c : Char} {cs : List Char} (h : z.Clear (c :: cs)) :
    z.step c = .enter c := by
  obtain rfl | rfl | rfl | ⟨q, rfl, hq⟩ := h
  · rfl
  · rfl
  · rfl
  · rw [Zone.step, if_neg (hq c rfl)]

/-- Two cuts of the same lexeme: a bad one, or one with the same text and a retouched rest. -/
def CutAlike (k k' : Cut) : Prop :=
  k'.lexeme = k.lexeme ∧ ((∃ fault, k.lexeme = .bad fault) ∨
    k'.text = k.text ∧ ∃ z : Zone, z ≠ .line ∧ z.Clear k.rest ∧ Retouched z k.rest k'.rest)

namespace Lexeme

open StringLiteral

variable {q : Char} {cs cs' opener : List Char} {make : String → TokenKind}

/-- The cut of a literal that has been split at its end, if it has one. -/
def literalCut (opener more : List Char) (q : Char) (make : String → TokenKind) (cs : List Char) :
    Option (List Char × List Char) → Cut
  | some (body, rest) =>
    ⟨.token (make (String.ofList (unescape body))), opener ++ more ++ body ++ q :: more, rest⟩
  | none => ⟨.bad .unterminatedString, opener, cs⟩

theorem quotedCut_eq_single (h : [q, q].isPrefixOf cs = false) : quotedCut opener q cs make =
    literalCut opener [] q make cs (splitBody false (quotes false q) cs) := by
  rw [quotedCut, h]
  rfl

theorem quotedCut_eq_triple : quotedCut opener q (q :: q :: cs) make =
    literalCut opener [q, q] q make (q :: q :: cs) (splitBody true (quotes true q) cs) := by
  have htriple : [q, q].isPrefixOf (q :: q :: cs) = true := by simp [List.isPrefixOf]
  rw [quotedCut, htriple]
  rfl

theorem isPrefixOf_pair_eq_false {c : Char} (h : c ≠ q ∨ ∀ d ∈ cs.head?, d ≠ q) :
    [q, q].isPrefixOf (c :: cs) = false := by
  cases cs with
  | nil => simp [List.isPrefixOf]
  | cons d ds =>
    simp only [List.isPrefixOf, Bool.and_true, Bool.and_eq_false_iff, beq_eq_false_iff_ne]
    exact h.imp Ne.symm fun h => (h d rfl).symm

theorem cutAlike_literalCut {split split' : Option (List Char × List Char)}
    (h : SplitAlike split split') (more : List Char) :
    CutAlike (literalCut opener more q make cs split)
      (literalCut opener more q make cs' split') := by
  rcases h with ⟨rfl, rfl⟩ | ⟨body, rest, rest', rfl, rfl, hrest⟩
  · exact ⟨rfl, .inl ⟨_, rfl⟩⟩
  · exact ⟨rfl, .inr ⟨rfl, .code, by simp, .inr (.inl rfl), hrest⟩⟩

/-- A literal behind its first quote is cut alike. -/
theorem cutAlike_quotedCut (hq : isQuote q = true) (h : Retouched (.opened q) cs cs') :
    CutAlike (quotedCut opener q cs make) (quotedCut opener q cs' make) := by
  cases cs with
  | nil =>
    cases h.eq_nil (by simp)
    exact ⟨rfl, .inl ⟨_, rfl⟩⟩
  | cons c ds =>
    obtain ⟨ds', rfl, hds⟩ := h.cons_of_inLiteral rfl
    by_cases hc : c = q
    · subst hc
      rw [Zone.step, if_pos rfl] at hds
      by_cases hthird : ∀ d ∈ ds.head?, d ≠ c
      -- The literal is empty.
      · have hthird' := hds.head?_ne (by simp) hq hthird
        have hempty : ∀ rest, splitBody false (quotes false c) (c :: rest) = some ([], rest) :=
          splitBody_quotes hq
        rw [quotedCut_eq_single (isPrefixOf_pair_eq_false (.inr hthird)),
          quotedCut_eq_single (isPrefixOf_pair_eq_false (.inr hthird')), hempty, hempty]
        exact ⟨rfl, .inr ⟨rfl, .doubled c, by simp, .inr (.inr (.inr ⟨c, rfl, hthird⟩)), hds⟩⟩
      · obtain ⟨es, rfl⟩ : ∃ es, ds = c :: es := by
          cases ds with
          | nil => simp at hthird
          | cons d es => exact ⟨es, by simpa using hthird⟩
        obtain ⟨es', rfl, hes⟩ := hds.cons_of_ne (by simp) (by rintro rfl; cases hq)
        rw [Zone.step, if_pos rfl] at hes
        rw [quotedCut_eq_triple, quotedCut_eq_triple]
        exact cutAlike_literalCut (hes.splitAlike hq (Nat.zero_lt_succ 2)) _
    · have hliteral : Retouched (.literal q false 0) (c :: ds) (c :: ds') := by
        rw [Zone.step, if_neg hc] at hds
        exact .kept hds
      rw [quotedCut_eq_single (isPrefixOf_pair_eq_false (.inl hc)),
        quotedCut_eq_single (isPrefixOf_pair_eq_false (.inl hc))]
      exact cutAlike_literalCut (hliteral.splitAlike hq Nat.zero_lt_one) _

/-! ### Other lexemes -/

/-- A cut with more text behind it. -/
def Cut.before (k : Cut) (text : List Char) : Cut := { k with rest := k.rest ++ text }

section EndOfLine

variable {c : Char} {row rest : List Char} {p : Char → Bool}

theorem stops_of_endsLine (h : EndsLine rest) (hfeed : p '\n' = false) (hreturn : p '\r' = false) :
    ∀ c ∈ rest.head?, p c = false := by
  intro c hc
  obtain rfl | rfl := h c hc
  · exact hfeed
  · exact hreturn

theorem takeWhile_dropWhile_append (h : ∀ c ∈ rest.head?, p c = false) (row : List Char) :
    (row ++ rest).takeWhile p = row.takeWhile p ∧
      (row ++ rest).dropWhile p = row.dropWhile p ++ rest := by
  induction row with
  | nil =>
    cases rest with
    | nil => simp
    | cons c cs => simp [h c rfl]
  | cons c cs ih =>
    cases hc : p c with
    | false => simp [hc]
    | true => simp [hc, ih]

theorem run_before (h : EndsLine rest) (hfeed : p '\n' = false) (hreturn : p '\r' = false)
    (first row : List Char) (make : List Char → Lexeme) :
    run first p (row ++ rest) make = Cut.before (run first p row make) rest := by
  obtain ⟨htake, hdrop⟩ := takeWhile_dropWhile_append (stops_of_endsLine h hfeed hreturn) row
  rw [run, run, htake, hdrop]
  rfl

/-- Without a digit behind a point there is no fraction. -/
theorem decimalCut_eq_int (h : ∀ d ds, row.dropWhile isDigitOrBar = '.' :: d :: ds →
    d.isDigit = false) : decimalCut c row = ⟨numeralToken .int (c :: row.takeWhile isDigitOrBar),
      c :: row.takeWhile isDigitOrBar, row.dropWhile isDigitOrBar⟩ := by
  have hstop : ∀ x ∈ (row.dropWhile isDigitOrBar).head?, isDigitOrBar x = false := by
    intro x hx
    have hhead := List.head?_dropWhile_not isDigitOrBar row
    rwa [Option.mem_def.mp hx] at hhead
  have hint := decimalCut_int (c := c) (List.all_eq_true.mp (List.all_takeWhile (l := row))) hstop h
  rwa [List.takeWhile_append_dropWhile] at hint

theorem decimalCut_before (h : EndsLine rest) :
    decimalCut c (row ++ rest) = Cut.before (decimalCut c row) rest := by
  obtain ⟨htake, hdrop⟩ := takeWhile_dropWhile_append
    (stops_of_endsLine (p := isDigitOrBar) h rfl rfl) row
  by_cases hfraction : ∃ d ds, row.dropWhile isDigitOrBar = '.' :: d :: ds ∧ d.isDigit = true
  · obtain ⟨d, ds, hrow, hd⟩ := hfraction
    simp only [decimalCut, htake, hdrop, hrow, List.cons_append, hd, if_true]
    exact run_before h rfl rfl _ ds _
  · have hint : ∀ d ds, row.dropWhile isDigitOrBar = '.' :: d :: ds → d.isDigit = false := by
      intro d ds hrow
      exact Bool.eq_false_iff.mpr fun hd => hfraction ⟨d, ds, hrow, hd⟩
    rw [decimalCut_eq_int hint, decimalCut_eq_int, htake, hdrop]
    · rfl
    -- A digit behind the point would stand on the row itself.
    · intro d ds hds
      rw [hdrop] at hds
      cases hrow : row.dropWhile isDigitOrBar with
      | nil =>
        rw [hrow, List.nil_append] at hds
        obtain hpoint | hpoint := h '.' (by rw [hds]; rfl) <;> cases hpoint
      | cons x xs =>
        rw [hrow] at hds
        cases xs with
        | nil =>
          have hrest : rest = d :: ds := (List.cons.inj hds).2
          obtain rfl | rfl := h d (by rw [hrest]; rfl) <;> rfl
        | cons y ys =>
          obtain ⟨rfl, rfl, -⟩ : x = '.' ∧ y = d ∧ ys ++ rest = ds := by simpa using hds
          exact hint y ys hrow

theorem numberCut_before (h : EndsLine rest) :
    numberCut c (row ++ rest) = Cut.before (numberCut c row) rest := by
  cases row with
  | nil =>
    refine (numberCut_eq fun x y ys hrest => ?_).trans (decimalCut_before h)
    obtain rfl | rfl := h x (by rw [← List.nil_append rest, hrest]; rfl) <;> simp
  | cons x xs =>
    cases xs with
    | nil =>
      refine (numberCut_eq fun w y ys hrow => ?_).trans (decimalCut_before h)
      have hrest : rest = y :: ys := (List.cons.inj hrow).2
      have hy : isHexOrBar y = false := by
        obtain rfl | rfl := h y (by rw [hrest]; rfl) <;> rfl
      rw [hy, Bool.and_false]
    | cons y ys =>
      have hdecimal : decimalCut c (x :: y :: ys ++ rest) = _ := decimalCut_before h
      simp only [List.cons_append, numberCut]
      split
      · exact run_before h rfl rfl [c, x, y] ys _
      · exact hdecimal

theorem wordCut_before (h : EndsLine rest)
    (hquote : ∀ q ∈ row.head?, ((c == 'b' || c == 'x') && isQuote q) = false) :
    wordCut c (row ++ rest) = Cut.before (wordCut c row) rest := by
  have hrun := run_before (p := isWordPart) h rfl rfl [c] row
    fun text => .token (.name (String.ofList text))
  cases row with
  | nil =>
    cases rest with
    | nil => rfl
    | cons d ds =>
      have hd : isQuote d = false := by obtain rfl | rfl := h d rfl <;> rfl
      rw [List.nil_append, wordCut, hd, Bool.and_false, if_neg Bool.false_ne_true]
      exact hrun
  | cons q qs =>
    rw [List.cons_append, wordCut, wordCut, hquote q rfl, if_neg Bool.false_ne_true]
    exact hrun

theorem isPrefixOf_before {word : List Char} (hword : ∀ d ∈ word, d ≠ '\n' ∧ d ≠ '\r')
    (h : EndsLine rest) (row : List Char) :
    word.isPrefixOf (row ++ rest) = word.isPrefixOf row := by
  induction word generalizing row with
  | nil => simp
  | cons d ds ih =>
    obtain ⟨hd, hds⟩ := List.forall_mem_cons.mp hword
    cases row with
    | nil =>
      cases rest with
      | nil => rfl
      | cons e es =>
        have hne : (d == e) = false := by
          rw [beq_eq_false_iff_ne]
          rintro rfl
          obtain rfl | rfl := h d rfl
          · exact hd.1 rfl
          · exact hd.2 rfl
        simp [List.isPrefixOf, hne]
    | cons e es => simp [List.isPrefixOf, ih hds es]

theorem symbolCut_before (h : EndsLine rest) :
    symbolCut c (row ++ rest) = Cut.before (symbolCut c row) rest := by
  have hscan : Punct.scan (c :: (row ++ rest)) =
      (Punct.scan (c :: row)).map fun found => (found.1, found.2 ++ rest) := by
    rw [Punct.scan, Punct.scan, List.map_findSome?]
    congr 1
    funext p
    have hwritten : (TokenKind.punct p).isWritten = true := rfl
    have hfits : p.text.toList.isPrefixOf (c :: (row ++ rest)) =
        p.text.toList.isPrefixOf (c :: row) :=
      isPrefixOf_before (TokenKind.ne_of_mem_spelling hwritten) h (c :: row)
    rw [hfits, Function.comp_apply]
    split
    · next hprefix =>
      have hlength := (List.isPrefixOf_iff_prefix.mp hprefix).length_le
      rw [← List.cons_append, List.drop_append_of_le_length hlength]
      rfl
    · rfl
  unfold symbolCut
  rw [hscan]
  cases Punct.scan (c :: row) <;> rfl

/-- What follows at the end of a line does not change a lexeme of the line. Gaps and literals apart.
-/
theorem cut_before (hc : Zone.enter c = .code) (hblank : isBlank c = false) (h : EndsLine rest)
    (hquote : ∀ q ∈ row.head?, ((c == 'b' || c == 'x') && isQuote q) = false) :
    cut c (row ++ rest) = Cut.before (cut c row) rest := by
  obtain ⟨hfeed, hcomment, hslash, hquoted⟩ := Zone.ne_of_enter hc
  have hcut : ∀ cs, cut c cs = if c.isDigit then numberCut c cs
      else if isWordStart c then wordCut c cs else symbolCut c cs := by
    intro cs
    simp [cut, hblank, hcomment, hslash, hfeed, hquoted]
  rw [hcut, hcut]
  split
  · exact numberCut_before h
  · split
    · exact wordCut_before h hquote
    · exact symbolCut_before h

end EndOfLine

end Lexeme

/-- The characters of words, numbers and symbols leave the zone as it is. -/
theorem TokenKind.enter_of_mem_spelling {kind : TokenKind} (h : kind.isWritten = true) :
    ∀ c ∈ kind.spelling, Zone.enter c = .code := by
  have hword : ∀ c, Lexeme.isWordPart c = true → Zone.enter c = .code := by
    intro c hc
    have hne : ∀ d, Lexeme.isWordPart d = false → c ≠ d := by
      rintro d hd rfl
      rw [hc] at hd
      cases hd
    simp [Zone.enter, Lexeme.isQuote, hne '\n' rfl, hne '#' rfl, hne '\\' rfl, hne '"' rfl,
      hne '\'' rfl]
  intro c hc
  cases kind with
  | name id => exact hword c (Lexeme.isWordPart_of_isIdentifier h c hc)
  | numeral form digits =>
    rcases mem_numeral h c hc with hc | rfl
    · exact hword c hc
    · rfl
  | punct p =>
    have hall : Punct.symbols.all fun p => p.text.toList.all fun c =>
        Zone.enter c == .code := by decide
    have hp := List.all_eq_true.mp hall p (Punct.mem_symbols p)
    exact beq_iff_eq.mp (List.all_eq_true.mp hp c hc)
  | _ => cases h

theorem Zone.foldl_step_code {row : List Char} (h : ∀ c ∈ row, enter c = .code) :
    row.foldl step .code = .code := by
  induction row with
  | nil => rfl
  | cons c cs ih =>
    obtain ⟨hc, hcs⟩ := List.forall_mem_cons.mp h
    rw [List.foldl_cons, step, hc, ih hcs]

namespace Lexeme

variable {c : Char} {row cs cs' : List Char}

/-- Gaps and literals apart, a lexeme is bad or keeps to the zone. -/
theorem enter_of_mem_cut (hcode : Zone.enter c = .code) (hblank : isBlank c = false)
    (hbytes : ∀ q ∈ row.head?, ((c == 'b' || c == 'x') && isQuote q) = false) :
    (∃ fault, (cut c row).lexeme = .bad fault) ∨ ∃ text, (cut c row).text = c :: text ∧
      row = text ++ (cut c row).rest ∧ ∀ d ∈ text, Zone.enter d = .code := by
  obtain ⟨hfeed, hcomment, hslash, hquoted⟩ := Zone.ne_of_enter hcode
  have hne := cut_text_ne_nil c row
  have happend := cut_append c row
  have hsorted := sorted_cut c row
  generalize cut c row = k at hne happend hsorted ⊢
  obtain ⟨lexeme, written, rest⟩ := k
  obtain ⟨d, text, rfl⟩ : ∃ d text, written = d :: text := List.exists_cons_of_ne_nil hne
  obtain ⟨rfl, rfl⟩ : d = c ∧ text ++ rest = row := by simpa using happend
  cases hsorted with
  | blanks hall =>
    rw [List.all_cons, hblank] at hall
    cases hall
  | comment => exact absurd rfl hcomment
  | continuation => exact absurd rfl hslash
  | lineFeed => exact absurd rfl hfeed
  | bad => exact .inl ⟨_, rfl⟩
  | @token kind _ _ hspells =>
    refine .inr ⟨text, rfl, rfl, ?_⟩
    have hquotes : ∀ {value literal}, StringLiteral.Writes value literal →
        ∃ q ∈ literal.head?, isQuote q = true := by
      rintro value literal ⟨triple, q, body, hq, -, rfl, -⟩
      obtain ⟨more, hmore⟩ := StringLiteral.quotes_eq_cons triple q
      exact ⟨q, by simp [hmore], hq⟩
    have hwritten : kind.isWritten = true ∧ d :: text = kind.spelling →
        ∀ e ∈ text, Zone.enter e = .code := by
      rintro ⟨hwritten, hspelling⟩ e he
      exact TokenKind.enter_of_mem_spelling hwritten e (hspelling ▸ List.mem_cons_of_mem d he)
    cases kind with
    | str value =>
      obtain ⟨q, ⟨⟩, hq⟩ := hquotes hspells
      rw [hquoted] at hq
      cases hq
    | bytes value =>
      obtain ⟨b, literal, hb, heq, hliteral⟩ := hspells
      obtain ⟨rfl, rfl⟩ := List.cons.inj heq
      obtain ⟨q, hhead, hq⟩ := hquotes hliteral
      have hnot := hbytes q (by cases text <;> simp_all)
      rw [hq, Bool.and_true] at hnot
      obtain rfl | rfl := hb <;> cases hnot
    | _ => exact hwritten hspells

/-- Every lexeme but a gap and a line feed is cut alike. -/
theorem cutAlike_cut (h : Retouched (.enter c) cs cs') (hblank : isBlank c = false)
    (hcomment : c ≠ '#') (hslash : c ≠ '\\') (hfeed : c ≠ '\n') :
    CutAlike (cut c cs) (cut c cs') := by
  cases hquote : isQuote c with
  | true =>
    have hcut : ∀ text, cut c text = quotedCut [c] c text .str := by
      intro text
      simp [cut, hblank, hcomment, hslash, hfeed, hquote]
    rw [Zone.enter, if_neg hfeed, if_neg hcomment, if_neg hslash, if_pos hquote] at h
    rw [hcut, hcut]
    exact cutAlike_quotedCut hquote h
  | false =>
    have hcode : Zone.enter c = .code := by simp [Zone.enter, hfeed, hcomment, hslash, hquote]
    rw [hcode] at h
    by_cases hbytes : ∀ q ∈ cs.head?, ((c == 'b' || c == 'x') && isQuote q) = false
    · obtain ⟨row, rest, rest', rfl, rfl, hrow, hrest, hrest', -⟩ := h.exists_line (by simp)
      have hhead : ∀ q ∈ row.head?, ((c == 'b' || c == 'x') && isQuote q) = false := by
        intro q hq
        exact hbytes q (by cases row <;> simp_all)
      rw [cut_before hcode hblank hrest hhead, cut_before hcode hblank hrest' hhead]
      refine ⟨rfl, (enter_of_mem_cut hcode hblank hhead).imp_right ?_⟩
      rintro ⟨text, htext, hsplit, hzone⟩
      have hcuts : ∀ more, row ++ more = text ++ (Cut.before (cut c row) more).rest := by
        intro more
        rw [Cut.before, ← List.append_assoc, ← hsplit]
      have hkept : '\n' ∉ text := fun hmem => hrow (hsplit ▸ List.mem_append_left _ hmem)
      rw [hcuts, hcuts] at h
      have hdrop := h.drop (by simp) hkept
      rw [Zone.foldl_step_code hzone] at hdrop
      exact ⟨rfl, .code, by simp, .inr (.inl rfl), hdrop⟩
    · obtain ⟨q, rest, rfl, hstart, hq⟩ :
          ∃ q rest, cs = q :: rest ∧ (c = 'b' ∨ c = 'x') ∧ isQuote q = true := by
        cases cs with
        | nil => simp at hbytes
        | cons q rest => exact ⟨q, rest, rfl, by simpa using hbytes⟩
      have hsolid : q ≠ '\n' ∧ q ≠ '#' ∧ q ≠
          '\\' := by refine ⟨?_, ?_, ?_⟩ <;> rintro rfl <;> cases hq
      obtain ⟨rest', rfl, hrest⟩ := h.cons_of_ne (by simp) hsolid.1
      have hopened : Zone.code.step q = .opened q := by simp [Zone.step, Zone.enter, hsolid, hq]
      have hcut : ∀ text, cut c (q :: text) = quotedCut [c, q] q text .bytes := by
        intro text
        obtain rfl | rfl := hstart <;> simp [cut, wordCut, hquote, hblank, isWordStart, hq]
      rw [hcut, hcut]
      exact cutAlike_quotedCut hq (hopened ▸ hrest)

end Lexeme

end Vyper
