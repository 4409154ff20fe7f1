import Vyper.Host.Address

/-!
# URIs in messages

A message is read only if its URIs are well formed: a scheme, an authority, a path, a query and a
fragment, each optional, each of the characters it may have, everything else escaped.
-/

namespace Vyper.UriReference

def isUnreserved (c : Char) : Bool := c.isAlphanum || "-._~".toList.contains c

def isSubDelimiter (c : Char) : Bool := "!$&'()*+,;=".toList.contains c

/-- A text of unreserved characters, delimiters, escapes and some further characters. -/
def isEncoded (extra : List Char) : List Char → Bool
  | [] => true
  | '%' :: a :: b :: rest => Host.Address.isHexDigit a && Host.Address.isHexDigit b &&
      isEncoded extra rest
  | c :: rest => (isUnreserved c || isSubDelimiter c || extra.contains c) && isEncoded extra rest

def isScheme (name : List Char) : Bool :=
  match name with
  | [] => false
  | first :: rest => first.isAlpha && rest.all fun c => c.isAlphanum || "+-.".toList.contains c

/-- A text cut before the first of some characters. -/
def cutAt (stops : List Char) (text : List Char) : List Char × List Char :=
  (text.takeWhile (!stops.contains ·), text.dropWhile (!stops.contains ·))

/-- A host and perhaps a port. -/
def isHost (text : List Char) : Bool :=
  match text with
  | '[' :: rest =>
    let (address, rest) := cutAt [']'] rest
    match rest with
    | ']' :: port => Host.Address.isVersion6 address && isPort port
    | _ => false
  | text =>
    let (name, port) := cutAt [':'] text
    isEncoded [] name && isPort port
where
  /-- A colon and digits, or nothing. -/
  isPort : List Char → Bool
    | [] => true
    | ':' :: digits => digits.all Char.isDigit
    | _ => false

def isAuthority (text : List Char) : Bool :=
  match cutAt ['@'] text with
  | (user, '@' :: host) => isEncoded [':'] user && isHost host
  | _ => isHost text

def isPath (text : List Char) : Bool := isEncoded [':', '@', '/'] text

/-- An authority, if there is one, and a path. -/
def isHierarchy (text : List Char) : Bool :=
  match text with
  | '/' :: '/' :: rest =>
    let (authority, path) := cutAt ['/'] rest
    isAuthority authority && isPath path
  | text => isPath text

/-- A query and a fragment, each with its mark in front. -/
def isTail (text : List Char) : Bool :=
  let isPart := isEncoded [':', '@', '/', '?']
  match text with
  | [] => true
  | '#' :: fragment => isPart fragment
  | '?' :: rest =>
    match cutAt ['#'] rest with
    | (query, '#' :: fragment) => isPart query && isPart fragment
    | (query, _) => isPart query
  | _ => false

/-- Whether a text is a URI or a reference relative to one. -/
def isValid (uri : String) : Bool :=
  let (head, tail) := cutAt ['?', '#'] uri.toList
  let (first, rest) := cutAt [':', '/'] head
  isTail tail &&
    match rest with
    | ':' :: hierarchy => isScheme first && isHierarchy hierarchy
    | _ => isHierarchy head

end Vyper.UriReference
