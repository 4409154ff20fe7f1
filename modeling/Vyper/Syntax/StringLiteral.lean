/-!
# String literals

The text between two quotes. A backslash always takes the next character with it, so an escaped
quote does not close the literal. A literal in single quotes ends with its line; one in triple
quotes may run over many.
-/

namespace Vyper.StringLiteral

/-- The text before the closing quotes and the text after them. -/
def splitBody (triple : Bool) (close : List Char) : List Char → Option (List Char × List Char)
  | [] => none
  | ['\\'] => none
  | '\\' :: c :: cs =>
    (splitBody triple close cs).map fun (body, rest) => ('\\' :: c :: body, rest)
  | c :: cs =>
    if c == '\n' && !triple then none
    else if close.isPrefixOf (c :: cs) then some ([], (c :: cs).drop close.length)
    else (splitBody triple close cs).map fun (body, rest) => (c :: body, rest)

/-- What a body stands for: the known escapes are decoded, an escaped line feed disappears, and any
other escape stays as it is written. -/
def unescape : List Char → List Char
  | [] => []
  | ['\\'] => []
  | '\\' :: 'n' :: cs => '\n' :: unescape cs
  | '\\' :: 't' :: cs => '\t' :: unescape cs
  | '\\' :: '\n' :: cs => unescape cs
  | '\\' :: c :: cs =>
    if c == '\\' || c == '\'' || c == '"' then c :: unescape cs else '\\' :: c :: unescape cs
  | c :: cs => c :: unescape cs

theorem append_of_splitBody {triple : Bool} {close cs body rest : List Char}
    (h : splitBody triple close cs = some (body, rest)) : body ++ close ++ rest = cs := by
  fun_induction splitBody triple close cs generalizing body with
  | case1 => cases h
  | case2 => cases h
  | case3 c cs ih =>
    obtain ⟨⟨b, r⟩, hb, hr⟩ := Option.map_eq_some_iff.1 h
    cases hr
    simp [← ih hb]
  | case4 => cases h
  | case5 c cs _ _ _ hclose =>
    obtain ⟨t, ht⟩ := List.isPrefixOf_iff_prefix.1 hclose
    cases h
    simp [← ht]
  | case6 c cs _ _ _ _ ih =>
    obtain ⟨⟨b, r⟩, hb, hr⟩ := Option.map_eq_some_iff.1 h
    cases hr
    simp [← ih hb]

end Vyper.StringLiteral
