import CurlWarden.Text.Search
import CurlWarden.Url.Ipv6

/-!
# The parts of a URL

Splitting a URL reference into scheme, authority, path, query and fragment. Controls and spaces in
front are dropped, and tabs and line breaks are dropped everywhere, before the text is split.
A reference whose authority has unbalanced or misplaced brackets, or characters that compatibility
normalisation would turn into delimiters, cannot be split.
-/

namespace CurlWarden.Url

/-- A URL reference in parts, without the delimiters between them. -/
structure Parts where
  scheme : List Char
  authority : List Char
  path : List Char
  query : List Char
  fragment : List Char
  deriving DecidableEq, Repr

/-! ### Characters -/

def isLineControl (c : Char) : Bool := c == '\t' || c == '\n' || c == '\r'

def isSchemeChar (c : Char) : Bool :=
  c.isAlpha || Text.isAsciiDigit c || c == '+' || c == '-' || c == '.'

def endsAuthority (c : Char) : Bool := c == '/' || c == '?' || c == '#'

/-- The characters whose compatibility normalisation holds one of `/ ? # @ :`. -/
def hiddenDelimiters : List Nat :=
  [0x2047, 0x2048, 0x2049, 0x2100, 0x2101, 0x2105, 0x2106, 0x2A74, 0xFE13, 0xFE16, 0xFE55, 0xFE56,
   0xFE5F, 0xFE6B, 0xFF03, 0xFF0F, 0xFF1A, 0xFF1F, 0xFF20]

/-- Would normalisation turn `c` into a delimiter? -/
def hidesDelimiter (c : Char) : Bool := hiddenDelimiters.contains c.toNat

/-- The text that is split: without controls and spaces in front, and without tabs and line breaks
anywhere. -/
def clean (cs : List Char) : List Char :=
  (cs.dropWhile fun c => c.toNat ≤ 0x20).filter fun c => !isLineControl c

/-! ### Authority -/

/-- The text between the first opening bracket and the next closing one; everything after the
opening bracket if none closes it. -/
def bracketed? (host : List Char) : Option (List Char) :=
  if host.contains '[' then some ((Text.splitAtFirst '[' host).2.takeWhile (· != ']')) else none

/-- The host and port of an authority: what follows its last at sign. -/
def hostPort (authority : List Char) : List Char := Text.afterLast '@' authority

/-- The host of an authority, without brackets or port. -/
def hostOf (authority : List Char) : List Char :=
  let host := hostPort authority
  (bracketed? host).getD (host.takeWhile (· != ':'))

/-- Is the text an address of a future version: `v`, hexadecimal digits, a point and something
more? -/
def isFutureAddress : List Char → Bool
  | 'v' :: cs =>
    let version := cs.takeWhile fun c => (Text.hexValue? c).isSome
    match cs.drop version.length with
    | '.' :: _ :: _ => !version.isEmpty
    | _ => false
  | _ => false

/-- May the text stand between the brackets of an authority? -/
def isBracketHost (cs : List Char) : Bool :=
  if cs.head? == some 'v' then isFutureAddress cs else Ipv6.isScopedAddress cs

/-- Is there nothing before the first opening bracket, and after the next closing one nothing or a
port? -/
def bracketsInPlace (host : List Char) : Bool :=
  let (before, inside) := Text.splitAtFirst '[' host
  let port := (Text.splitAtFirst ']' inside).2
  !host.contains '[' || (before.isEmpty && (port.isEmpty || port.head? == some ':'))

/-- Are the brackets of an authority balanced, in place, and around an address? An authority
without brackets has nothing to check. -/
def bracketsValid (authority : List Char) : Bool :=
  let opened := authority.contains '['
  let closed := authority.contains ']'
  if !opened && !closed then true
  else opened && closed && bracketsInPlace (hostPort authority) && isBracketHost (hostOf authority)

/-- Is the authority free of characters that normalisation would turn into delimiters? -/
def normalisesSafely (authority : List Char) : Bool := !authority.any hidesDelimiter

/-! ### Splitting -/

/-- The scheme in lower case and what follows its colon; no scheme and the whole text if what is
before the first colon is no scheme. -/
def splitScheme (cs : List Char) : List Char × List Char :=
  let (scheme, rest) := Text.splitAtFirst ':' cs
  let isScheme := match scheme with
    | first :: _ => first.isAlpha && scheme.all isSchemeChar && cs.contains ':'
    | [] => false
  if isScheme then (scheme.map Char.toLower, rest) else ([], cs)

/-- The authority after two slashes, and what follows it. -/
def splitAuthority : List Char → List Char × List Char
  | '/' :: '/' :: cs => (cs.takeWhile (!endsAuthority ·), cs.dropWhile (!endsAuthority ·))
  | cs => ([], cs)

/-- Splits a reference, or fails if its authority is malformed. -/
def Parts.split? (reference : List Char) : Option Parts :=
  let (scheme, rest) := splitScheme (clean reference)
  let (authority, rest) := splitAuthority rest
  let (rest, fragment) := Text.splitAtFirst '#' rest
  let (path, query) := Text.splitAtFirst '?' rest
  if bracketsValid authority && normalisesSafely authority then
    some ⟨scheme, authority, path, query, fragment⟩
  else none

namespace Parts

def hasCredentials (parts : Parts) : Bool := parts.authority.contains '@'

def host (parts : Parts) : List Char := hostOf parts.authority

/-- Do the brackets of the authority surround the whole host, once, and is it an IPv6 address? -/
def bracketsHost (authority : List Char) : Bool :=
  let host := hostPort authority
  host.head? == some '[' && host.count '[' == 1 && host.count ']' == 1 &&
    Ipv6.isAddress (((Text.splitAtFirst '[' host).2.takeWhile (· != ']')).takeWhile (· != '%'))

/-- Would the program expand the URL into several? Braces and brackets are patterns, except for the
brackets around an IPv6 host. -/
def isPattern (parts : Parts) : Bool :=
  (parts.path ++ parts.query ++ parts.fragment).any (fun c => "\x7b\x7d[]".toList.contains c) ||
    parts.authority.any (fun c => c == '\x7b' || c == '\x7d') ||
    (parts.authority.any (fun c => c == '[' || c == ']') && !bracketsHost parts.authority)

end Parts

end CurlWarden.Url
