import Vyper.Error
import Vyper.Syntax.StringLiteral

/-!
# Lexemes

A source text is cut into lexemes from left to right, each the longest that its first characters
allow. Nothing is lost: the texts of the lexemes, put together, are the source (`cut_append`).
-/

namespace Vyper

/-- What a stretch of source text is. -/
inductive Lexeme where
  /-- Blanks, a comment, or a backslash at the end of a line. -/
  | gap
  | lineFeed
  | token (kind : TokenKind)
  | bad (fault : Fault)
deriving DecidableEq

/-- A lexeme, its text, and the text after it. -/
structure Cut where
  lexeme : Lexeme
  text : List Char
  rest : List Char

namespace Lexeme

def isBlank (c : Char) : Bool := c == ' ' || c == '\t' || c == '\r' || c == '\x0c'

def isQuote (c : Char) : Bool := c == '"' || c == '\''

/-- A character of a number after its first digit. -/
def isDigitOrBar (c : Char) : Bool := c.isDigit || c == '_'

def isHexOrBar (c : Char) : Bool :=
  c.isDigit || ('a' ≤ c && c ≤ 'f') || ('A' ≤ c && c ≤ 'F') || c == '_'

def isWordStart (c : Char) : Bool := c.isAlpha || c == '_'

def isWordPart (c : Char) : Bool := c.isAlphanum || c == '_'

/-- A run of characters of one class after a first part. -/
def run (first : List Char) (p : Char → Bool) (cs : List Char) (make : List Char → Lexeme) : Cut :=
  let text := first ++ cs.takeWhile p
  ⟨make text, text, cs.dropWhile p⟩

def gapCut (first : List Char) (p : Char → Bool) (cs : List Char) : Cut :=
  run first p cs fun _ => .gap

/-- A backslash joins two lines; anywhere else it is no part of the language. -/
def continuationCut (cs : List Char) : Cut :=
  match cs with
  | '\n' :: rest => ⟨.gap, ['\\', '\n'], rest⟩
  | '\r' :: '\n' :: rest => ⟨.gap, ['\\', '\r', '\n'], rest⟩
  | _ => ⟨.bad (.invalidCharacter '\\'), ['\\'], cs⟩

/-- A literal whose opening quote `q` has been read as the end of `opener`. -/
def quotedCut (opener : List Char) (q : Char) (cs : List Char) (make : String → TokenKind) : Cut :=
  let triple := [q, q].isPrefixOf cs
  let more := if triple then [q, q] else []
  match StringLiteral.splitBody triple (q :: more) (cs.drop more.length) with
  | some (body, rest) =>
    ⟨.token (make (String.ofList (StringLiteral.unescape body))),
      opener ++ more ++ body ++ q :: more, rest⟩
  | none => ⟨.bad .unterminatedString, opener, cs⟩

def numeralToken (form : Numeral) (text : List Char) : Lexeme :=
  .token (.numeral form (String.ofList text))

/-- A number written in decimal digits, with a fraction if a digit follows its point. -/
def decimalCut (c : Char) (cs : List Char) : Cut :=
  let whole := c :: cs.takeWhile isDigitOrBar
  let rest := cs.dropWhile isDigitOrBar
  match rest with
  | '.' :: d :: ds =>
    if d.isDigit then run (whole ++ ['.', d]) isDigitOrBar ds (numeralToken .decimal)
    else ⟨numeralToken .int whole, whole, rest⟩
  | _ => ⟨numeralToken .int whole, whole, rest⟩

/-- A number that starts with digit `c`. -/
def numberCut (c : Char) (cs : List Char) : Cut :=
  match cs with
  | x :: h :: hs =>
    if c == '0' && (x == 'x' || x == 'X') && isHexOrBar h then
      run [c, x, h] isHexOrBar hs (numeralToken .hex)
    else decimalCut c cs
  | _ => decimalCut c cs

/-- A word that starts with `c`, or a bytes literal when `c` stands right before a quote. -/
def wordCut (c : Char) (cs : List Char) : Cut :=
  match cs with
  | q :: rest =>
    if (c == 'b' || c == 'x') && isQuote q then quotedCut [c, q] q rest .bytes
    else run [c] isWordPart cs fun text => .token (.name (String.ofList text))
  | [] => ⟨.token (.name (String.ofList [c])), [c], []⟩

def symbolCut (c : Char) (cs : List Char) : Cut :=
  match Punct.scan (c :: cs) with
  | some (p, rest) => ⟨.token (.punct p), p.text.toList, rest⟩
  | none => ⟨.bad (.invalidCharacter c), [c], cs⟩

/-- The first lexeme of a text that starts with `c`. -/
def cut (c : Char) (cs : List Char) : Cut :=
  if isBlank c then gapCut [c] isBlank cs
  else if c == '#' then gapCut [c] (· != '\n') cs
  else if c == '\\' then continuationCut cs
  else if c == '\n' then ⟨.lineFeed, [c], cs⟩
  else if isQuote c then quotedCut [c] c cs .str
  else if c.isDigit then numberCut c cs
  else if isWordStart c then wordCut c cs
  else symbolCut c cs

theorem run_append (first : List Char) (p : Char → Bool) (cs : List Char)
    (make : List Char → Lexeme) :
    (run first p cs make).text ++ (run first p cs make).rest = first ++ cs := by
  simp [run, List.takeWhile_append_dropWhile]

theorem continuationCut_append (cs : List Char) :
    (continuationCut cs).text ++ (continuationCut cs).rest = '\\' :: cs := by
  unfold continuationCut
  split <;> rfl

theorem quotedCut_append (opener : List Char) (q : Char) (cs : List Char)
    (make : String → TokenKind) :
    (quotedCut opener q cs make).text ++ (quotedCut opener q cs make).rest = opener ++ cs := by
  have hmore : (if [q, q].isPrefixOf cs then [q, q] else []) ++
      cs.drop (if [q, q].isPrefixOf cs then [q, q] else []).length = cs := by
    split
    · next h =>
      obtain ⟨t, rfl⟩ := List.isPrefixOf_iff_prefix.1 h
      simp
    · simp
  unfold quotedCut
  simp only
  split
  · next body rest h =>
    have hb := StringLiteral.append_of_splitBody h
    simp only [List.append_assoc] at hb ⊢
    rw [hb, hmore]
  · rfl

theorem decimalCut_append (c : Char) (cs : List Char) :
    (decimalCut c cs).text ++ (decimalCut c cs).rest = c :: cs := by
  have hcs := List.takeWhile_append_dropWhile (p := isDigitOrBar) (l := cs)
  unfold decimalCut
  simp only
  split
  · next d ds h =>
    split
    · rw [run_append]
      rw [h] at hcs
      simp [hcs]
    · simp
  · simp

theorem numberCut_append (c : Char) (cs : List Char) :
    (numberCut c cs).text ++ (numberCut c cs).rest = c :: cs := by
  unfold numberCut
  split
  · split
    · rw [run_append]; rfl
    · exact decimalCut_append c _
  · exact decimalCut_append c _

theorem wordCut_append (c : Char) (cs : List Char) :
    (wordCut c cs).text ++ (wordCut c cs).rest = c :: cs := by
  unfold wordCut
  split
  · split
    · rw [quotedCut_append]; rfl
    · rw [run_append]; rfl
  · rfl

theorem symbolCut_append (c : Char) (cs : List Char) :
    (symbolCut c cs).text ++ (symbolCut c cs).rest = c :: cs := by
  unfold symbolCut
  split
  · next p rest h =>
    obtain ⟨q, _, hq⟩ := List.exists_of_findSome?_eq_some h
    split at hq
    · next hp =>
      obtain ⟨t, ht⟩ := List.isPrefixOf_iff_prefix.1 hp
      cases hq
      simp [← ht]
    · cases hq
  · rfl

/-- The text of the first lexeme and what follows it are the whole text. -/
theorem cut_append (c : Char) (cs : List Char) :
    (cut c cs).text ++ (cut c cs).rest = c :: cs := by
  unfold cut
  split
  · exact run_append [c] isBlank cs _
  split
  · exact run_append [c] (· != '\n') cs _
  split
  · next h => rw [continuationCut_append, eq_of_beq h]
  split
  · rfl
  split
  · exact quotedCut_append [c] c cs _
  split
  · exact numberCut_append c cs
  split
  · exact wordCut_append c cs
  · exact symbolCut_append c cs

theorem run_text_ne_nil {first : List Char} (h : first ≠ []) (p : Char → Bool) (cs : List Char)
    (make : List Char → Lexeme) : (run first p cs make).text ≠ [] := by
  simp [run, h]

theorem quotedCut_text_ne_nil {opener : List Char} (h : opener ≠ []) (q : Char) (cs : List Char)
    (make : String → TokenKind) : (quotedCut opener q cs make).text ≠ [] := by
  unfold quotedCut
  simp only
  split <;> simp [h]

theorem numberCut_text_ne_nil (c : Char) (cs : List Char) : (numberCut c cs).text ≠ [] := by
  have hdec : ∀ ds, (decimalCut c ds).text ≠ [] := by
    intro ds
    unfold decimalCut
    simp only
    split
    · split
      · exact run_text_ne_nil (by simp) _ _ _
      · simp
    · simp
  unfold numberCut
  split
  · split
    · exact run_text_ne_nil (by simp) _ _ _
    · exact hdec _
  · exact hdec _

theorem wordCut_text_ne_nil (c : Char) (cs : List Char) : (wordCut c cs).text ≠ [] := by
  unfold wordCut
  split
  · split
    · exact quotedCut_text_ne_nil (by simp) _ _ _
    · exact run_text_ne_nil (by simp) _ _ _
  · simp

theorem symbolCut_text_ne_nil (c : Char) (cs : List Char) : (symbolCut c cs).text ≠ [] := by
  unfold symbolCut
  split
  · next p _ _ => exact Punct.toList_text_ne_nil p
  · simp

theorem cut_text_ne_nil (c : Char) (cs : List Char) : (cut c cs).text ≠ [] := by
  unfold cut
  split
  · exact run_text_ne_nil (by simp) _ _ _
  split
  · exact run_text_ne_nil (by simp) _ _ _
  split
  · unfold continuationCut
    split <;> simp
  split
  · simp
  split
  · exact quotedCut_text_ne_nil (by simp) _ _ _
  split
  · exact numberCut_text_ne_nil c cs
  split
  · exact wordCut_text_ne_nil c cs
  · exact symbolCut_text_ne_nil c cs

/-- Every lexeme takes at least one character. -/
theorem cut_rest_length_lt (c : Char) (cs : List Char) :
    (cut c cs).rest.length < (c :: cs).length := by
  have happ := congrArg List.length (cut_append c cs)
  have hpos := List.length_pos_iff.2 (cut_text_ne_nil c cs)
  rw [List.length_append] at happ
  omega

end Lexeme

end Vyper
