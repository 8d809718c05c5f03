import StaticSite.Fault
import StaticSite.Yaml.Cursor

/-!
# Reading one token of YAML

Scalars in quotes, plain scalars, block scalars, anchors, tags and directives, each read from a
place in the text. A line end inside a scalar is a space; empty lines stay as line ends. Escapes of
code points that no character has, and version numbers that are too long, are faults of their own.
-/

namespace StaticSite.Yaml

/-!
## Tokens

The marks and scalars of a text. The starts and ends of block collections, which only the indent
shows, are tokens too. A text that cannot be read on has a last token with the fault.
-/

inductive Directive where
  | version (major : Nat)
  | tagHandle (handle expansion : String)
  | other
deriving DecidableEq, Repr

inductive Token where
  | directive (directive : Directive)
  | documentStart | documentEnd | streamEnd
  | blockSequenceStart | blockMappingStart | blockEnd
  | flowSequenceStart | flowSequenceEnd | flowMappingStart | flowMappingEnd
  | blockEntry | flowEntry | key | value
  | alias (name : String)
  | anchor (name : String)
  | tag (handle : Option String) (suffix : String)
  | scalar (text : String) (plain : Bool)
  | unreadable (fault : Fault)
deriving DecidableEq, Repr

/-! ## Reading -/

def orMalformed {α : Type} (found : Option α) : Except Fault α :=
  match found with
  | some value => .ok value
  | none => .error .malformedYaml

def isNameChar (c : Char) : Bool := Text.isAsciiAlphanumeric c || c = '-' || c = '_'

/-- A name of ASCII letters, digits, hyphens and underscores. -/
def name? (cursor : Cursor) : Option (List Char × Cursor) :=
  match cursor.takeWhile isNameChar with
  | ([], _) => none
  | found => some found

/-- The name of an anchor or an alias after its mark. -/
def anchorName? (cursor : Cursor) : Option (String × Cursor) := do
  let (name, cursor) ← name? cursor.next
  let ends := endsToken cursor.rest ||
    (cursor.peek?.map ['?', ':', ',', ']', '\x7d', '%', '@', '\x60'].contains).getD false
  if ends then some (String.ofList name, cursor) else none

def isUriChar (c : Char) : Bool :=
  Text.isAsciiAlphanumeric c || "-;/?:@&=+$,_.!~*()[]".toList.contains c || c.toNat = 39

/-- Escaped bytes of a tag. -/
def uriBytes : Nat → Cursor → Option (Bytes × Cursor)
  | 0, cursor => some ([], cursor)
  | fuel + 1, cursor =>
    match cursor.rest with
    | '%' :: a :: b :: _ => do
      let high ← Text.hexValue? a
      let low ← Text.hexValue? b
      let (bytes, cursor) ← uriBytes fuel (cursor.skip 3)
      some (UInt8.ofNat (high * 16 + low) :: bytes, cursor)
    | '%' :: _ => none
    | _ => some ([], cursor)

def uriChars : Nat → Cursor → Option (List Char × Cursor)
  | 0, cursor => some ([], cursor)
  | fuel + 1, cursor =>
    match cursor.takeWhile isUriChar with
    | ([], cursor) =>
      if cursor.peek? = some '%' then do
        let (bytes, cursor) ← uriBytes cursor.rest.length cursor
        let text ← (Utf8.decode bytes).toOption
        let (more, cursor) ← uriChars fuel cursor
        some (text.toList ++ more, cursor)
      else some ([], cursor)
    | (found, cursor) => do
      let (more, cursor) ← uriChars fuel cursor
      some (found ++ more, cursor)

def uri? (cursor : Cursor) : Option (String × Cursor) := do
  let (found, after) ← uriChars (cursor.rest.length + 1) cursor
  if after.index = cursor.index then none else some (String.ofList found, after)

/-- A tag handle: an exclamation mark, or a name between two of them. -/
def handle? (cursor : Cursor) : Option (String × Cursor) :=
  match cursor.rest with
  | '!' :: ' ' :: _ => some ("!", cursor.next)
  | '!' :: _ =>
    let (name, after) := cursor.next.takeWhile isNameChar
    if after.peek? = some '!' then
      some (String.ofList ('!' :: (name ++ ['!'])), after.next)
    else none
  | _ => none

/-- The handle of a tag, if it has one, and what follows it. -/
def tagParts? (cursor : Cursor) : Option ((Option String × String) × Cursor) :=
  let after := cursor.next
  match after.rest with
  | '<' :: _ => do
    let (suffix, after) ← uri? after.next
    if after.peek? = some '>' then some ((none, suffix), after.next) else none
  | rest =>
    if endsToken rest then some ((none, "!"), after)
    else if (rest.takeWhile (fun c => !(c = ' ' || isBreak c))).contains '!' then do
      let (handle, after) ← handle? cursor
      let (suffix, after) ← uri? after
      some ((some handle, suffix), after)
    else do
      let (suffix, after) ← uri? after
      some ((some "!", suffix), after)

def tag? (cursor : Cursor) : Option (Token × Cursor) := do
  let ((handle, suffix), after) ← tagParts? cursor
  if endsWord after.rest then some (.tag handle suffix, after) else none

/-- One number of a version. -/
def number (cursor : Cursor) : Except Fault (Nat × Cursor) :=
  match cursor.takeWhile Text.isAsciiDigit with
  | ([], _) => .error .malformedYaml
  | (digits, cursor) =>
    if Number.digitLimit < digits.length then
      .error (.yamlValue (Json.digitLimitMessage digits.length))
    else .ok (Text.digitsValue 10 (digits.map fun c => c.toNat - 48), cursor)

def version (cursor : Cursor) : Except Fault (Directive × Cursor) := do
  let (major, cursor) ← number cursor
  if cursor.peek? ≠ some '.' then throw .malformedYaml
  let (_, cursor) ← number cursor.next
  if endsWord cursor.rest then return (.version major, cursor) else throw .malformedYaml

def tagHandle? (cursor : Cursor) : Option (Directive × Cursor) := do
  let (handle, cursor) ← handle? cursor
  if cursor.peek? ≠ some ' ' then none
  let (expansion, cursor) ← uri? (cursor.dropWhile (· = ' '))
  if endsWord cursor.rest then some (.tagHandle handle expansion, cursor) else none

/-- The name of a directive after its mark. -/
def directiveName? (cursor : Cursor) : Option (String × Cursor) := do
  let (name, cursor) ← name? cursor
  if endsWord cursor.rest then some (String.ofList name, cursor) else none

/-- What the directive of a name says. -/
def directiveOf (name : String) (cursor : Cursor) : Except Fault (Directive × Cursor) :=
  if name = "YAML" then version (cursor.dropWhile (· = ' '))
  else if name = "TAG" then orMalformed (tagHandle? (cursor.dropWhile (· = ' ')))
  else .ok (.other, cursor.dropWhile (!isBreak ·))

def directive (cursor : Cursor) : Except Fault (Token × Cursor) := do
  let (name, cursor) ← orMalformed (directiveName? cursor.next)
  let (directive, cursor) ← directiveOf name cursor
  let cursor ← orMalformed cursor.endOfLine?
  return (.directive directive, cursor)

/-- The line ends, and blanks before them, that follow a line end inside quotes. -/
def quotedBreaks : Nat → Cursor → Option (List Char × Cursor)
  | 0, cursor => some ([], cursor)
  | fuel + 1, cursor =>
    if startsSeparator cursor.rest then none
    else
      let cursor := cursor.dropWhile isGap
      match cursor.lineBreak with
      | ([], _) => some ([], cursor)
      | (found, cursor) => do
        let (more, cursor) ← quotedBreaks fuel cursor
        some (found ++ more, cursor)

/-- What a line end and the empty lines after it leave in a scalar. -/
def foldBreak (lineBreak breaks : List Char) : List Char :=
  if lineBreak ≠ ['\n'] then lineBreak ++ breaks
  else if breaks.isEmpty then [' ']
  else breaks

/-- Blanks or line ends inside quotes; the text must not end there. -/
def quotedSpaces? (cursor : Cursor) : Option (List Char × Cursor) :=
  let (gaps, cursor) := cursor.takeWhile isGap
  match cursor.rest with
  | [] => none
  | c :: _ =>
    if isBreak c then do
      let (lineBreak, cursor) := cursor.lineBreak
      let (breaks, cursor) ← quotedBreaks cursor.rest.length cursor
      some (foldBreak lineBreak breaks, cursor)
    else some (gaps, cursor)

/-- The characters that stand for others after a backslash. -/
def escapes : List (Char × Char) :=
  [('0', '\x00'), ('a', '\x07'), ('b', '\x08'), ('t', '\t'), ('\t', '\t'), ('n', '\n'),
   ('v', '\x0b'), ('f', '\x0c'), ('r', '\r'), ('e', '\x1b'), (' ', ' '), ('"', '"'), ('\\', '\\'),
   ('/', '/'), ('N', '\u0085'), ('_', '\u00a0'), ('L', '\u2028'), ('P', '\u2029')]

/-- The number of digits of an escape by code point. -/
def escapeLengths : List (Char × Nat) := [('x', 2), ('u', 4), ('U', 8)]

/-- The character with a code; what stands for half of a pair is the same for all of them. -/
def charOfCode (code : Nat) : Except Fault Char :=
  if 0x7FFFFFFF < code then .error .codePointTooLarge
  else if 0x10FFFF < code then .error (.yamlValue "chr() arg not in range(0x110000)")
  else if 0xD800 ≤ code ∧ code < 0xE000 then .ok '\ufffd'
  else .ok (Char.ofNat code)

/-- The character of an escape by code point. -/
def codePoint (length : Nat) (cursor : Cursor) : Except Fault (List Char × Cursor) := do
  let digits ← orMalformed ((cursor.rest.take length).mapM Text.hexValue?)
  if digits.length ≠ length then throw .malformedYaml
  let char ← charOfCode (Text.digitsValue 16 digits)
  return ([char], cursor.skip length)

/-- The text of an escape; `cursor` is after its backslash. -/
def escape (cursor : Cursor) : Except Fault (List Char × Cursor) :=
  match cursor.peek? with
  | none => .error .malformedYaml
  | some c =>
    match escapes.lookup c, escapeLengths.lookup c with
    | some char, _ => .ok ([char], cursor.next)
    | none, some length => codePoint length cursor.next
    | none, none =>
      if isBreak c then orMalformed (quotedBreaks cursor.rest.length cursor.lineBreak.2)
      else .error .malformedYaml

def isSingleQuote (c : Char) : Bool := c.toNat = 39

def isQuotedChar (c : Char) : Bool :=
  !(isSingleQuote c || c = '"' || c = '\\' || isGap c || isBreak c)

def inside (found : List Char × Cursor) : Option (List Char) × Cursor := (some found.1, found.2)

/-- The next piece of the text in quotes; nothing at the closing one. -/
def quotedPiece (double : Bool) (cursor : Cursor) : Except Fault (Option (List Char) × Cursor) :=
  match cursor.rest with
  | [] => .error .malformedYaml
  | c :: rest =>
    if isSingleQuote c then
      if double then .ok (some [c], cursor.next)
      else if (rest.head?.map isSingleQuote).getD false then .ok (some [c], cursor.skip 2)
      else .ok (none, cursor.next)
    else if c = '"' then .ok (if double then none else some [c], cursor.next)
    else if c = '\\' then
      if double then (escape cursor.next).map inside else .ok (some [c], cursor.next)
    else if isGap c || isBreak c then (orMalformed (quotedSpaces? cursor)).map inside
    else .ok (inside (cursor.takeWhile isQuotedChar))

/-- The text in quotes up to the closing one. -/
def quoted (double : Bool) : Nat → Cursor → Except Fault (List Char × Cursor)
  | 0, _ => .error .malformedYaml
  | fuel + 1, cursor => do
    match ← quotedPiece double cursor with
    | (none, cursor) => return ([], cursor)
    | (some found, cursor) =>
      let (more, cursor) ← quoted double fuel cursor
      return (found ++ more, cursor)

/-- A scalar in quotes. -/
def quotedScalar (double : Bool) (cursor : Cursor) : Except Fault (Token × Cursor) := do
  let (text, cursor) ← quoted double (cursor.rest.length + 1) cursor.next
  return (.scalar (String.ofList text) false, cursor)

def isFlowMark (c : Char) : Bool :=
  c = ',' || c = '[' || c = ']' || c = '\x7b' || c = '\x7d'

/-- One stretch of a plain scalar, without blanks. -/
def plainStretch (flow : Bool) : List Char → List Char
  | [] => []
  | c :: s =>
    let ends := isGap c || isBreak c ||
      (c = ':' && (endsToken s || (flow && (s.head?.map isFlowMark).getD false))) ||
      (flow && (c = '?' || isFlowMark c))
    if ends then [] else c :: plainStretch flow s

/-- The empty lines after a line end of a plain scalar; none when documents are parted there. -/
def plainBreaks : Nat → Cursor → Option (List Char) × Cursor
  | 0, cursor => (some [], cursor)
  | fuel + 1, cursor =>
    match cursor.rest with
    | ' ' :: _ => plainBreaks fuel cursor.next
    | _ =>
      match cursor.lineBreak with
      | ([], _) => (some [], cursor)
      | (found, cursor) =>
        if startsSeparator cursor.rest then (none, cursor)
        else
          match plainBreaks fuel cursor with
          | (some more, cursor) => (some (found ++ more), cursor)
          | (none, cursor) => (none, cursor)

/-- What follows a stretch of a plain scalar: its blanks, and whether a line has ended. -/
structure PlainGap where
  text : Option (List Char)
  lineEnded : Bool
  cursor : Cursor

def plainGap (cursor : Cursor) : PlainGap :=
  let (gaps, cursor) := cursor.takeWhile (· = ' ')
  match cursor.lineBreak with
  | ([], _) => ⟨if gaps.isEmpty then none else some gaps, false, cursor⟩
  | (lineBreak, cursor) =>
    if startsSeparator cursor.rest then ⟨none, true, cursor⟩
    else
      match plainBreaks (cursor.rest.length + 1) cursor with
      | (none, cursor) => ⟨none, true, cursor⟩
      | (some breaks, cursor) => ⟨some (foldBreak lineBreak breaks), true, cursor⟩

/--
A plain scalar from the gap before its next stretch on. It ends at a comment, at a mark, or where a
line is indented less than `indent`. The result tells whether it ended with a line.
-/
def plain (flow : Bool) (indent : Int) : Nat → List Char → Bool → Cursor →
    List Char × Bool × Cursor
  | 0, _, lineEnded, cursor => ([], lineEnded, cursor)
  | fuel + 1, gap, lineEnded, cursor =>
    if cursor.peek? = some '#' then ([], lineEnded, cursor)
    else
      match plainStretch flow cursor.rest with
      | [] => ([], lineEnded, cursor)
      | found =>
        let next := plainGap (cursor.skip found.length)
        let stops := next.cursor.peek? = some '#' || (!flow && (next.cursor.column : Int) < indent)
        match next.text, stops with
        | some nextGap, false =>
          let (more, lineEnded, cursor) := plain flow indent fuel nextGap next.lineEnded next.cursor
          (gap ++ found ++ more, lineEnded, cursor)
        | _, _ => (gap ++ found, next.lineEnded, next.cursor)

/-- How a block scalar ends: with one line end, with none, or with all of them. -/
inductive Chomp where
  | clip | strip | keep
deriving DecidableEq, Repr

def chomp? (c : Option Char) : Option Chomp :=
  if c = some '+' then some .keep else if c = some '-' then some .strip else none

def increment? (c : Option Char) : Option Nat := do
  let c ← c
  if Text.isAsciiDigit c then some (c.toNat - 48) else none

/-- How a block scalar ends and how far it is indented, as its first line says. -/
def blockHeader? (cursor : Cursor) : Option ((Chomp × Option Nat) × Cursor) := do
  let (chomp, increment, cursor) :=
    match chomp? cursor.peek?, increment? cursor.peek? with
    | some chomp, _ =>
      match increment? cursor.next.peek? with
      | some n => (chomp, some n, cursor.skip 2)
      | none => (chomp, none, cursor.next)
    | none, some n =>
      match chomp? cursor.next.peek? with
      | some chomp => (chomp, some n, cursor.skip 2)
      | none => (Chomp.clip, some n, cursor.next)
    | none, none => (Chomp.clip, none, cursor)
  if increment = some 0 || !endsWord cursor.rest then none
  let cursor ← cursor.endOfLine?
  some ((chomp, increment), cursor)

/-- Empty lines before a block scalar, and the greatest indent among them and the line after. -/
def leadingBreaks : Nat → Nat → Cursor → List Char × Nat × Cursor
  | 0, widest, cursor => ([], widest, cursor)
  | fuel + 1, widest, cursor =>
    match cursor.rest with
    | ' ' :: _ => leadingBreaks fuel (max widest cursor.next.column) cursor.next
    | _ =>
      match cursor.lineBreak with
      | ([], _) => ([], widest, cursor)
      | (found, cursor) =>
        let (more, widest, cursor) := leadingBreaks fuel widest cursor
        (found ++ more, widest, cursor)

/-- Skips blanks up to the column `indent`. -/
def skipIndent (indent : Nat) : Nat → Cursor → Cursor
  | 0, cursor => cursor
  | fuel + 1, cursor =>
    if cursor.column < indent ∧ cursor.peek? = some ' ' then skipIndent indent fuel cursor.next
    else cursor

/-- Empty lines inside a block scalar. -/
def blockBreaks (indent : Nat) : Nat → Cursor → List Char × Cursor
  | 0, cursor => ([], cursor)
  | fuel + 1, cursor =>
    let cursor := skipIndent indent cursor.rest.length cursor
    match cursor.lineBreak with
    | ([], _) => ([], cursor)
    | (found, cursor) =>
      let (more, cursor) := blockBreaks indent fuel cursor
      (found ++ more, cursor)

/-- The lines of a block scalar; the text, the last line end, and the empty lines after it. -/
def blockLines (folded : Bool) (indent : Nat) : Nat → List Char → Cursor →
    List Char × List Char × List Char × Cursor
  | 0, breaks, cursor => ([], [], breaks, cursor)
  | fuel + 1, breaks, cursor =>
    if cursor.column ≠ indent ∨ cursor.rest.isEmpty then ([], [], breaks, cursor)
    else
      let startsText (cursor : Cursor) : Bool := !(cursor.peek?.map isGap).getD false
      let plainStart := startsText cursor
      let (line, cursor) := cursor.takeWhile (!isBreak ·)
      let (lineBreak, cursor) := cursor.lineBreak
      let (next, cursor) := blockBreaks indent cursor.rest.length cursor
      if cursor.column = indent ∧ !cursor.rest.isEmpty then
        let joint :=
          if folded && lineBreak = ['\n'] && plainStart && startsText cursor then
            if next.isEmpty then [' '] else []
          else lineBreak
        let (more, last, after, cursor) := blockLines folded indent fuel next cursor
        (breaks ++ line ++ joint ++ more, last, after, cursor)
      else (breaks ++ line, lineBreak, next, cursor)

/-- A block scalar; `outer` is the indent of the collection that it stands in. -/
def blockScalar? (folded : Bool) (outer : Int) (cursor : Cursor) : Option (Token × Cursor) := do
  let ((chomp, increment), cursor) ← blockHeader? cursor.next
  let least : Nat := (max (outer + 1) 1).toNat
  let fuel := cursor.rest.length + 1
  let (breaks, indent, cursor) :=
    match increment with
    | some n =>
      let indent := least + n - 1
      let (breaks, cursor) := blockBreaks indent fuel cursor
      (breaks, indent, cursor)
    | none =>
      let (breaks, widest, cursor) := leadingBreaks fuel 0 cursor
      (breaks, max least widest, cursor)
  let (text, last, after, cursor) := blockLines folded indent fuel breaks cursor
  let ending :=
    match chomp with
    | .strip => []
    | .clip => last
    | .keep => last ++ after
  some (.scalar (String.ofList (text ++ ending)) false, cursor)

end StaticSite.Yaml
