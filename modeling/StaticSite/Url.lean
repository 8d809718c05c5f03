import StaticSite.Bytes.Utf8
import StaticSite.Text.Search
import StaticSite.Text.Word

/-!
# URLs

A URL is split into scheme, authority, path, query and fragment, and put together again. Tabs and
line ends are dropped first. Splitting fails only in the authority: when a bracket has no partner,
or when a character of it stands for one of the marks that separate the parts.
-/

namespace StaticSite.Url

structure Parts where
  scheme : List Char
  authority : List Char
  path : List Char
  query : List Char
  fragment : List Char
deriving DecidableEq, Repr

inductive Error where
  | unbalancedBracket
  | hiddenMark (authority : String)
deriving DecidableEq, Repr

def Error.message : Error → String
  | .unbalancedBracket => "Invalid IPv6 URL"
  | .hiddenMark authority =>
    "netloc " ++ authority ++ " contains invalid characters under NFKC normalization"

def isLineControl (c : Char) : Bool := c = '\t' || c = '\r' || c = '\n'

def isSchemeChar (c : Char) : Bool :=
  Text.isAsciiAlphanumeric c || c = '+' || c = '-' || c = '.'

/-- Whether a text can be a scheme: a letter, then letters, digits, plus, minus and points. -/
def isScheme : List Char → Bool
  | [] => false
  | c :: s => Text.isAsciiLetter c && (c :: s).all isSchemeChar

/-- The scheme in small letters and the rest. -/
def takeScheme (s : List Char) : List Char × List Char :=
  match Text.splitAtMark? [':'] s with
  | some (scheme, rest) =>
    if isScheme scheme then (scheme.map Text.lowerAscii, rest) else ([], s)
  | none => ([], s)

def endsAuthority (c : Char) : Bool := c = '/' || c = '?' || c = '#'

/-- The authority after two slashes and the rest. -/
def takeAuthority : List Char → List Char × List Char
  | '/' :: '/' :: s => s.span (fun c => !endsAuthority c)
  | s => ([], s)

/--
The characters whose compatible form holds one of the marks `/`, `?`, `#`, `@` and `:`, as closed
ranges of code points.
-/
def hiddenMarkRanges : List (Nat × Nat) :=
  [(0x2047, 0x2049), (0x2100, 0x2101), (0x2105, 0x2106), (0x2A74, 0x2A74), (0xFE13, 0xFE13),
   (0xFE16, 0xFE16), (0xFE55, 0xFE56), (0xFE5F, 0xFE5F), (0xFE6B, 0xFE6B), (0xFF03, 0xFF03),
   (0xFF0F, 0xFF0F), (0xFF1A, 0xFF1A), (0xFF1F, 0xFF20)]

def hidesMark (c : Char) : Bool := Text.inRanges hiddenMarkRanges c.toNat

def checkAuthority (authority : List Char) : Except Error Unit :=
  if ('[' ∈ authority) != (']' ∈ authority) then .error .unbalancedBracket
  else if authority.any hidesMark then .error (.hiddenMark (String.ofList authority))
  else .ok ()

/-- The text before a mark and the text after it; without the mark, the latter is empty. -/
def cutAt (mark : Char) (s : List Char) : List Char × List Char :=
  match Text.splitAtMark? [mark] s with
  | some parts => parts
  | none => (s, [])

def split (url : List Char) : Except Error Parts := do
  let (scheme, rest) := takeScheme (url.filter (!isLineControl ·))
  let (authority, rest) := takeAuthority rest
  checkAuthority authority
  let (rest, fragment) := cutAt '#' rest
  let (path, query) := cutAt '?' rest
  return { scheme, authority, path, query, fragment }

/-- The schemes whose URLs have an authority even when it is empty. -/
def authoritySchemes : List String :=
  ["ftp", "http", "gopher", "nntp", "telnet", "imap", "wais", "file", "mms", "https", "shttp",
   "snews", "prospero", "rtsp", "rtspu", "rsync", "svn", "svn+ssh", "sftp", "nfs", "git",
   "git+ssh", "ws", "wss"]

/-- Two slashes, the authority and the path, which must then start with a slash. -/
def joinAuthority (authority path : List Char) : List Char :=
  let path := if path.isEmpty || path.head? = some '/' then path else '/' :: path
  '/' :: '/' :: (authority ++ path)

/-- The URL with these parts; an empty query or fragment leaves no mark. -/
def join (parts : Parts) : List Char :=
  let empty := authoritySchemes.contains (String.ofList parts.scheme) &&
    !Text.startsWith ['/', '/'] parts.path
  let base :=
    if !parts.authority.isEmpty || empty then joinAuthority parts.authority parts.path
    else parts.path
  let base := if parts.scheme.isEmpty then base else parts.scheme ++ ':' :: base
  let base := if parts.query.isEmpty then base else base ++ '?' :: parts.query
  if parts.fragment.isEmpty then base else base ++ '#' :: parts.fragment

/--
The path before its extension and the extension, which is the run of ASCII letters and digits
after a point at the end.
-/
def splitExtension? (path : List Char) : Option (List Char × List Char) :=
  let (reversed, rest) := path.reverse.span Text.isAsciiAlphanumeric
  match reversed, rest with
  | [], _ => none
  | reversed, '.' :: stem => some (stem.reverse, reversed.reverse)
  | _, _ => none

/-- The extension of a URL's path in small letters; empty when there is none. -/
def extension (url : List Char) : List Char :=
  match split url with
  | .error _ => []
  | .ok parts =>
    match splitExtension? parts.path with
    | some (_, ext) => ext.map Text.lowerAscii
    | none => []

/-!
## Percent escapes

A percent sign and two hexadecimal digits stand for a byte. The bytes of a run of ASCII characters
are read as UTF-8 together; other characters stand for themselves.
-/

/-- The bytes of a run of ASCII characters; a percent sign without two digits is a byte itself. -/
def escapeBytes : List Char → Bytes
  | '%' :: a :: b :: s =>
    match Text.hexValue? a, Text.hexValue? b with
    | some high, some low => UInt8.ofNat (high * 16 + low) :: escapeBytes s
    | _, _ => 0x25 :: escapeBytes (a :: b :: s)
  | c :: s => UInt8.ofNat c.toNat :: escapeBytes s
  | [] => []

/-- Decodes the run of ASCII characters collected in reverse. -/
def flushRun (reversed : List Char) : List Char := Utf8.decodeLossy (escapeBytes reversed.reverse)

def decodeRuns (reversed : List Char) : List Char → List Char
  | [] => flushRun reversed
  | c :: s =>
    if c.toNat < 128 then decodeRuns (c :: reversed) s
    else flushRun reversed ++ c :: decodeRuns [] s

/-- The text with its percent escapes read. -/
def unescape (s : List Char) : List Char := if '%' ∈ s then decodeRuns [] s else s

end StaticSite.Url
