import Vyper.Files
import Vyper.Host.Basic

/-!
# Documents addressed by URI

The file a URI stands for, and the URI of a file. A URI with a path and no host, or the host
`localhost`, stands for that path on this machine whatever its scheme; dot segments are resolved,
escapes decoded, query and fragment dropped. A URI without slashes after its scheme has no path.
-/

namespace Vyper.Uri

inductive Scheme where
  | file
  | web
  | other
deriving DecidableEq

def Scheme.ofName (name : List Char) : Scheme :=
  match String.ofList (name.map Char.toLower) with
  | "file" => .file
  | "http" | "https" | "ws" | "wss" | "ftp" => .web
  | _ => .other

/-- The text that is read: no control characters or blanks around it, no line breaks or tabs in it.
-/
def clean (uri : List Char) : List Char :=
  let isEdge (c : Char) : Bool := c.toNat ≤ 0x20
  let inner := ((uri.dropWhile isEdge).reverse.dropWhile isEdge).reverse
  inner.filter fun c => !(c == '\t' || c == '\n' || c == '\r')

/-- The scheme and what follows its colon. -/
def splitScheme (uri : List Char) : Option (Scheme × List Char) :=
  let isInner (c : Char) : Bool := c.isAlphanum || c == '+' || c == '-' || c == '.'
  match uri.takeWhile isInner, uri.dropWhile isInner with
  | first :: name, ':' :: rest =>
    if first.isAlpha then some (.ofName (first :: name), rest) else none
  | _, _ => none

/-- Everything before query and fragment, with one kind of slash. -/
def hierarchy (scheme : Scheme) (rest : List Char) : List Char :=
  let text := rest.takeWhile fun c => !(c == '?' || c == '#')
  if scheme = .other then text else text.map fun c => if c = '\\' then '/' else c

def isDrive : List Char → Bool
  | [letter, mark] => letter.isAlpha && (mark == ':' || mark == '|')
  | _ => false

/-- A dot of a dot segment, which may be escaped. -/
def isDotText (segment : List Char) : Bool :=
  ([['.'], ['%', '2', 'e']] : List (List Char)).contains (segment.map Char.toLower)

def isDoubleDot (segment : List Char) : Bool :=
  (List.range segment.length).any fun i => isDotText (segment.take i) && isDotText (segment.drop i)

/-- One directory up; the root and a drive have nothing above them. -/
def dropLastStep (segments : List (List Char)) : List (List Char) :=
  if segments.getLast?.any isDrive then segments else segments.dropLast

/-- Segments with one more at the end. A drive in front of a file path is written with a colon. -/
def pushStep (scheme : Scheme) (before : List (List Char)) (segment : List Char) :
    List (List Char) :=
  match scheme, before, segment with
  | .file, [], [letter, _] => if isDrive segment then [[letter, ':']] else [segment]
  | _, _, _ => before ++ [segment]

/-- Segments with their dot segments resolved, after the segments before them. A path that ends in
a dot segment ends in a slash. -/
def resolveFrom (scheme : Scheme) (before : List (List Char)) :
    List (List Char) → List (List Char)
  | [] => before
  | [last] =>
    if isDoubleDot last then dropLastStep before ++ [[]]
    else if isDotText last then before ++ [[]]
    else pushStep scheme before last
  | segment :: rest =>
    if isDoubleDot segment then resolveFrom scheme (dropLastStep before) rest
    else if isDotText segment then resolveFrom scheme before rest
    else resolveFrom scheme (pushStep scheme before segment) rest

/-- The segments of a text, resolved. -/
def resolve (scheme : Scheme) (text : List Char) : List (List Char) :=
  resolveFrom scheme [] (Path.splitSlashes text)

/-- A path without the empty segments in front. -/
def trimFront : List (List Char) → List (List Char)
  | [] :: next :: rest => trimFront (next :: rest)
  | segments => segments

/-- A text cut before its first slash. -/
def cutAtSlash (text : List Char) : List Char × List Char :=
  (text.takeWhile (· ≠ '/'), text.dropWhile (· ≠ '/'))

/-- What follows the two slashes of a URI up to its path: who logs in, the host, and the port. -/
structure Authority where
  user : Option (List Char)
  host : List Char
  port : Option (List Char)

namespace Authority

def ofText (text : List Char) : Authority :=
  let hostAndPort := (text.reverse.takeWhile (· ≠ '@')).reverse
  {
    user := if hostAndPort.length < text.length then
        some (text.take (text.length - hostAndPort.length - 1))
      else none
    host := hostAndPort.takeWhile (· ≠ ':')
    port := match hostAndPort.dropWhile (· ≠ ':') with
      | ':' :: port => some port
      | _ => none
  }

/-- Whether the digits of a port make a number below 2^16. -/
def isPort (digits : List Char) : Bool :=
  digits.foldl (fun n c => 10 * n + (c.toNat - 48)) 0 < 65536

/-- What is left of an authority behind its port, if the port is one. A backslash ends it. -/
def afterPort? (a : Authority) : Option (List Char) :=
  let port := a.port.getD []
  let rest := port.dropWhile Char.isDigit
  if isPort (port.takeWhile Char.isDigit) && rest.head?.all (· == '\\') then some rest else none

/-- Whether nobody logs in anywhere: no host, no port, and no name or password. -/
def isVoid (a : Authority) : Bool :=
  a.host.isEmpty && a.port.isNone && a.user.all (· == [':'])

end Authority

/-- The segments of a file path behind two slashes. Without a host, or on this machine, they come
after an empty one. A host that is another machine has no files, but one in front of a drive is no
host. -/
def fileSegments? (text : List Char) : Option (List (List Char)) :=
  let (host, path) := cutAtSlash text
  let steps := Path.splitSlashes (path.drop 1)
  if isDrive host then some (resolve .file text)
  else if host.isEmpty then some (resolveFrom .file [[]] steps)
  else
    match Host.ofText? host with
    | none => none
    | some other =>
      let segments := resolveFrom .file [] steps
      if other = Host.localhost then some (resolveFrom .file [[]] steps)
      else if segments.head?.any isDrive then some segments
      else none

/-- The segments behind two slashes, for the schemes of the web. -/
def webSegments? (text : List Char) : Option (List (List Char)) :=
  let (authority, path) := cutAtSlash text
  let a := Authority.ofText authority
  match a.afterPort? with
  | some _ =>
    if Host.ofText? a.host = some Host.localhost then some (resolve .web (path.drop 1)) else none
  | none => none

/-- The segments behind two slashes, for any other scheme. -/
def otherSegments? (text : List Char) : Option (List (List Char)) :=
  let (authority, path) := cutAtSlash text
  let a := Authority.ofText authority
  if a.host = "localhost".toList || a.isVoid then
    match a.afterPort? with
    | none => none
    | some rest =>
      match rest ++ path with
      | [] => none
      | '/' :: path => some (resolve .other path)
      | path => some (resolve .other path)
  else none

/-- The segments of the path of a URI that stands for a file on this machine. -/
def localSegments? (scheme : Scheme) (text : List Char) : Option (List (List Char)) :=
  match scheme, text with
  | .file, '/' :: '/' :: rest => (fileSegments? rest).map trimFront
  | .file, '/' :: rest => some (trimFront (resolve .file rest))
  | .file, _ => some (trimFront (resolve .file text))
  | .web, _ => webSegments? (text.dropWhile (· == '/'))
  | .other, '/' :: '/' :: rest => otherSegments? rest
  | .other, '/' :: rest => some (resolve .other rest)
  | .other, _ => none

/-- The file a URI stands for. -/
def toPath? (uri : String) : Option Path := do
  let (scheme, rest) ← splitScheme (clean uri.toList)
  let segments ← localSegments? scheme (hierarchy scheme rest)
  let text := Utf8.decode (segments.flatMap fun s => 0x2F :: Percent.decode (Utf8.encode s))
  -- A drive is a directory.
  let ending := if text.length > 2 && isDrive (text.drop (text.length - 2)) then ['/'] else []
  return ⟨String.ofList (text ++ ending)⟩

/-- The characters of a path that a URI escapes. -/
def isEscaped (b : Nat) : Bool :=
  b ≤ 0x20 || b ≥ 0x7F || "\"#<>?`\x7b\x7d%\\/".toList.any (·.toNat == b)

def hexDigit (n : Nat) : Char := (Nat.digitChar n).toUpper

/-- A path component in the spelling of a URI. -/
def percentEncode (component : String) : List Char :=
  (Utf8.encode component.toList).flatMap fun b =>
    if isEscaped b then ['%', hexDigit (b / 16), hexDigit (b % 16)] else [Char.ofNat b]

/-- The URI of a file; a relative path has none. -/
def ofPath? (p : Path) : Option String :=
  if p.isAbsolute then
    let path := p.components.flatMap fun c => '/' :: percentEncode c
    some (String.ofList ("file://".toList ++ if path.isEmpty then ['/'] else path))
  else none

end Vyper.Uri
