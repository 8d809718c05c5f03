import StaticSite.Markdown.Emphasis
import StaticSite.Markdown.Link

/-!
# Reading the text of a block

The passes in their order: code spans, escapes, links, images, addresses in angle brackets, line
breaks, raw tags, character references, marks that stand alone, and emphasis.
-/

namespace StaticSite.Markdown.Span

abbrev Finder := Option Inline → List Inline → Option (List Inline × List Inline)

def isBacktick (p : Inline) : Bool := p.isMark '\x60'

def isBackslash (p : Inline) : Bool := p.isMark '\\'

/-- A run of exactly `count` backticks that follows something else. -/
def closingTicks? (count : Nat) (previous : Option Inline) (s : List Inline) :
    Option (List Inline) :=
  let (ticks, rest) := s.span isBacktick
  if ticks.length = count && !(previous.map isBacktick).getD false then some rest else none

/-- A code span that opens with `count` backticks. -/
def codeWith? (s : List Inline) (count : Nat) : Option (List Inline × List Inline) :=
  (Inline.before? Emphasis.anything (closingTicks? count) 1 none (s.drop count)).map
    fun (content, rest) => ([.code (Text.trim (Inline.plainAll content))], rest)

/-- A code span; of the ways to open it the one with most backticks is tried first. -/
def codeSpan? (s : List Inline) : Option (List Inline × List Inline) :=
  let ticks := (s.takeWhile isBacktick).length
  (List.range ticks).reverse.findSome? fun count => codeWith? s (count + 1)

/-- Pairs of backslashes before a backtick, each one backslash of the text. -/
def backslashes? (s : List Inline) : Option (List Inline × List Inline) :=
  let (slashes, rest) := s.span isBackslash
  let pairs := slashes.length / 2
  if pairs = 0 || slashes.length % 2 ≠ 0 || !(rest.head?.map isBacktick).getD false then none
  else some (List.replicate pairs (.literal '\\'), rest)

def code : Finder := fun previous s =>
  if (previous.map isBackslash).getD false then none
  else (backslashes? s).or (codeSpan? s)

/-- The characters that a backslash takes their meaning from. -/
def escapable : List Char :=
  ['\\', '\x60', '*', '_', '\x7b', '\x7d', '[', ']', '(', ')', '>', '#', '+', '-', '.', '!', '|']

/-- A backslash before a mark; before anything else it stands for itself. -/
def escapes : Finder := fun _ s =>
  match s with
  | .char '\\' :: .char c :: rest =>
    if c ∈ escapable then some ([.literal c], rest)
    else some ([.char '\\', .char c], rest)
  | _ => none

def dropLetters? : List Char → List Inline → Option (List Inline)
  | [], s => some s
  | m :: mark, .char c :: s => if Text.lowerAscii c = m then dropLetters? mark s else none
  | _ :: _, _ => none

def webSchemes : List String := ["http", "https", "ftp", "ftps"]

/-- An address of the web in angle brackets. -/
def addresses : Finder := fun _ s => do
  let s ← Inline.dropMark? ['<'] s
  let (address, rest) := s.span fun p => !p.isMark '<' && !p.isMark '>'
  let rest ← Inline.dropMark? ['>'] rest
  let known := webSchemes.any fun scheme =>
    ((dropLetters? scheme.toList address).bind (Inline.dropMark? "://".toList)).isSome
  if known then
    let text := Inline.plainAll address
    some ([.link text none (text.map .literal)], rest)
  else none

/-- Two blanks at the end of a line. -/
def lineBreaks : Finder := fun _ s =>
  (Inline.dropMark? [' ', ' ', '\n'] s).map ([.lineBreak], ·)

/-- The source of a piece inside a raw tag. -/
def rawText : Inline → List Char
  | .literal c => ['\\', c]
  | .code text => "<code>".toList ++ text ++ "</code>".toList
  | p => p.plain

/-- The inner part of a tag: a name, and after a blank anything but angle brackets. -/
def isTagInside (inside : List Inline) : Bool :=
  let name := if Inline.startsWith ['/'] inside then inside.drop 1 else inside
  match name with
  | .char c :: rest =>
    Text.isAsciiLetter c && !(rest.takeWhile (fun p => !p.isMark ' ')).any (Inline.isMark '@')
  | _ => false

def tag? (s : List Inline) : Option (List Inline × List Inline) := do
  let s ← Inline.dropMark? ['<'] s
  let (inside, rest) := s.span fun p => !p.isMark '<' && !p.isMark '>'
  let rest ← Inline.dropMark? ['>'] rest
  if isTagInside inside then
    some ([.raw ('<' :: (inside.flatMap rawText ++ ['>']))], rest)
  else none

/-- A comment, which holds neither the start nor the end of one. -/
def comment? (s : List Inline) : Option (List Inline × List Inline) := do
  let body ← Inline.dropMark? "<!--".toList s
  let (inside, rest) ← Inline.before? Emphasis.anything
    (fun _ s =>
      if Inline.startsWith "<!--".toList s then some none
      else (Inline.dropMark? "-->".toList s).map some)
    0 none body
  let rest ← rest
  some ([.raw ("<!--".toList ++ inside.flatMap rawText ++ "-->".toList)], rest)

def tags : Finder := fun _ s => (tag? s).or (comment? s)

def isAlphanumeric (p : Inline) : Bool := (p.open?.map Text.isAsciiAlphanumeric).getD false

/-- Whether the inner part of a character reference is a name or a number. -/
def isReference (inside : List Char) : Bool :=
  match inside with
  | '#' :: 'x' :: digits => !digits.isEmpty && digits.all fun c => (Text.hexValue? c).isSome
  | '#' :: digits => !digits.isEmpty && digits.all Text.isAsciiDigit
  | name => !name.isEmpty && name.all Text.isAsciiAlphanumeric

def references : Finder := fun _ s => do
  let s ← Inline.dropMark? ['&'] s
  let (inside, rest) := s.span fun p => p.isMark '#' || isAlphanumeric p
  let rest ← Inline.dropMark? [';'] rest
  let inside := Inline.plainAll inside
  if isReference inside then some ([.raw ('&' :: (inside ++ [';']))], rest) else none

def isBlankOrNone (p : Option Inline) : Bool := (p.map Inline.isBlank).getD true

/-- Marks of emphasis with blanks on both sides. -/
def loneMarks : Finder := fun previous s =>
  match s with
  | .char c :: _ =>
    if (c = '*' ∨ c = '_') ∧ isBlankOrNone previous then
      let (found, rest) := s.span (Inline.isMark c)
      if found.length ≤ 3 && isBlankOrNone rest.head? then
        some (found.map fun _ => .literal c, rest)
      else none
    else none
  | _ => none

/-- The passes after the one for links. -/
def afterLinks (s : List Inline) : List Inline :=
  let found := Inline.pass lineBreaks (Inline.pass addresses (Inline.pass Link.image? s))
  let found := Inline.pass references (Inline.pass tags found)
  Emphasis.asterisks (Inline.pass loneMarks found)

/-- Reads the text of a block. -/
def read (text : List Char) : List Inline :=
  let found := Inline.pass escapes (Inline.pass code (Inline.ofChars text))
  afterLinks (Inline.pass (Link.link? afterLinks) found)

end StaticSite.Markdown.Span
