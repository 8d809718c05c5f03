import StaticSite.Yaml.Lexeme

/-!
# Layout

The tokens of a whole text. Deeper columns open block collections and shallower ones close them. A
scalar or collection may turn out to be a key when a colon follows it on the same line; its place is
remembered, and the key token is put there. What cannot be read may be noticed too late: then only
the tokens before it that nothing can change any more are of use.
-/

namespace StaticSite.Yaml

/-- Where a key may have started: the place among the tokens and in the text. -/
structure KeyStart where
  token : Nat
  required : Bool
  index : Nat
  line : Nat
  column : Nat
deriving DecidableEq, Repr

/-- What is known at a place: the open collections, and the possible key of each flow level. -/
structure Layout where
  cursor : Cursor
  tokens : Array Token := #[]
  flow : Nat := 0
  indent : Int := -1
  indents : List Int := []
  keyAllowed : Bool := true
  starts : List (Nat × KeyStart) := []

namespace Layout

def emit (layout : Layout) (token : Token) : Layout :=
  { layout with tokens := layout.tokens.push token }

/-- The longest text that a key without a mark may have. -/
def keyLimit : Nat := 1024

/-- Whether a key can have this start no more. -/
def isStale (layout : Layout) (start : KeyStart) : Bool :=
  start.line ≠ layout.cursor.line || start.index + keyLimit < layout.cursor.index

/-- Forgets the starts that can be keys no more; a start that must be one may not be forgotten. -/
def dropStale (layout : Layout) : Option Layout :=
  if layout.starts.any fun (_, start) => layout.isStale start && start.required then none
  else some { layout with starts := layout.starts.filter fun (_, start) => !layout.isStale start }

/-- The tokens before the first one that may still become a key. -/
def settled (layout : Layout) : List Token :=
  let pending := (layout.starts.filter fun (_, start) => !layout.isStale start).map (·.2.token)
  layout.tokens.toList.take (pending.foldl min layout.tokens.size)

/-- Forgets the start of the current flow level. -/
def dropStart (layout : Layout) : Option Layout :=
  match layout.starts.lookup layout.flow with
  | none => some layout
  | some start =>
    if start.required then none
    else some { layout with starts := layout.starts.filter (·.1 ≠ layout.flow) }

/-- Remembers that a key may start here. -/
def saveStart (layout : Layout) : Option Layout :=
  if layout.keyAllowed then do
    let layout ← layout.dropStart
    let start : KeyStart :=
      { token := layout.tokens.size
        required := layout.flow = 0 && layout.indent = layout.cursor.column
        index := layout.cursor.index, line := layout.cursor.line
        column := layout.cursor.column }
    some { layout with starts := (layout.flow, start) :: layout.starts }
  else some layout

/-- Closes the block collections that are indented more than `column`. -/
def closeTo (column : Int) : Nat → Layout → Layout
  | 0, layout => layout
  | fuel + 1, layout =>
    if column < layout.indent then
      match layout.indents with
      | indent :: indents =>
        closeTo column fuel { layout.emit .blockEnd with indent, indents }
      | [] => layout
    else layout

/-- In flow collections, the indent does not count. -/
def unwind (layout : Layout) (column : Int) : Layout :=
  if layout.flow = 0 then closeTo column (layout.indents.length + 1) layout else layout

/-- Opens a block collection at a column that is indented more, and tells whether it did. -/
def deepen (layout : Layout) (column : Nat) : Bool × Layout :=
  if layout.flow = 0 ∧ layout.indent < column then
    (true, { layout with indent := column, indents := layout.indent :: layout.indents })
  else (false, layout)

def skip (layout : Layout) (count : Nat) : Layout :=
  { layout with cursor := layout.cursor.skip count }

/-- A mark of one character that ends what could be a key. -/
def plainMark (layout : Layout) (token : Token) (keyAllowed : Bool) : Option Layout := do
  let layout ← { layout with keyAllowed }.dropStart
  some ((layout.emit token).skip 1)

/-- The line that starts or ends a document, or a directive: all collections end. -/
def outermost (layout : Layout) : Option Layout := do
  let layout ← (layout.unwind (-1)).dropStart
  some { layout with keyAllowed := false }

def openFlow (layout : Layout) (token : Token) : Option Layout := do
  let layout ← layout.saveStart
  some (({ layout with flow := layout.flow + 1, keyAllowed := true }.emit token).skip 1)

/-- The end of a flow collection; there must be one. -/
def closeFlow (layout : Layout) (token : Token) : Option Layout := do
  if layout.flow = 0 then none
  let layout ← layout.dropStart
  some (({ layout with flow := layout.flow - 1, keyAllowed := false }.emit token).skip 1)

/-- The block collection that a mark stands in, opened if it is the first one there. -/
def openBlock (layout : Layout) (start : Token) : Option Layout :=
  if layout.flow = 0 && !layout.keyAllowed then none
  else
    match layout.deepen layout.cursor.column with
    | (true, layout) => some (layout.emit start)
    | (false, layout) => some layout

/-- A hyphen or a question mark that stands for an entry or a key of a block collection. -/
def blockMark (layout : Layout) (start token : Token) (keyAfter : Bool) : Option Layout := do
  let layout ← layout.openBlock start
  layout.plainMark token keyAfter

/-- Puts tokens before the one at a place. -/
def insertAt (layout : Layout) (place : Nat) (inserted : List Token) : Layout :=
  let before := layout.tokens.toList.take place
  let after := layout.tokens.toList.drop place
  { layout with tokens := (before ++ inserted ++ after).toArray }

/-- Makes what has started somewhere on this level a key. -/
def insertKey (layout : Layout) (start : KeyStart) : Layout :=
  match layout.deepen start.column with
  | (true, layout) => layout.insertAt start.token [.blockMappingStart, .key]
  | (false, layout) => layout.insertAt start.token [.key]

/-- A colon: what started before it on this level is a key, or the key was marked or is empty. -/
def valueMark (layout : Layout) : Option Layout :=
  match layout.starts.lookup layout.flow with
  | some start =>
    let layout :=
      { layout with starts := layout.starts.filter (·.1 ≠ layout.flow), keyAllowed := false }
    some (((layout.insertKey start).emit .value).skip 1)
  | none => layout.blockMark .blockMappingStart .value (layout.flow = 0)

/-- A token that may be, or start, a key. -/
def keyable (layout : Layout) (read : Cursor → Except Fault (Token × Cursor)) :
    Except Fault Layout := do
  let layout ← orMalformed layout.saveStart
  let (token, cursor) ← read layout.cursor
  return { layout with cursor, keyAllowed := false }.emit token

def plainScalar (layout : Layout) : Option Layout := do
  let layout ← layout.saveStart
  let (text, lineEnded, cursor) := plain (layout.flow ≠ 0) (layout.indent + 1)
    (layout.cursor.rest.length + 1) [] false layout.cursor
  some ({ layout with cursor, keyAllowed := lineEnded }.emit (.scalar (String.ofList text) true))

def literal (layout : Layout) (folded : Bool) : Option Layout := do
  let layout ← { layout with keyAllowed := true }.dropStart
  let (token, cursor) ← blockScalar? folded layout.indent layout.cursor
  some ({ layout with cursor }.emit token)

/-- The characters with which no plain scalar starts. -/
def isIndicator (c : Char) : Bool :=
  "-?:,[]\x7b\x7d#&*!|>\"%@\x60".toList.contains c || c.toNat = 39

/-- Whether a plain scalar starts here. -/
def startsPlain (flow : Bool) (s : List Char) : Bool :=
  match s with
  | [] => false
  | c :: rest =>
    (!isGap c && !isBreak c && !isIndicator c) ||
      (!endsToken rest && (c = '-' || (!flow && (c = '?' || c = ':'))))

/-- Skips blanks, comments and line ends; a new line of a block collection may start a key. -/
def skipGap : Nat → Layout → Layout
  | 0, layout => layout
  | fuel + 1, layout =>
    let cursor := layout.cursor.dropWhile (· = ' ')
    let cursor := if cursor.peek? = some '#' then cursor.dropWhile (!isBreak ·) else cursor
    match cursor.lineBreak with
    | ([], _) => { layout with cursor }
    | (_, cursor) =>
      skipGap fuel { layout with cursor, keyAllowed := layout.keyAllowed || layout.flow = 0 }

/-- A line that starts with a percent sign. -/
def directiveLine (layout : Layout) : Except Fault Layout := do
  let layout ← orMalformed layout.outermost
  let (token, cursor) ← directive layout.cursor
  return { layout with cursor }.emit token

/-- A line that parts documents. -/
def separator (layout : Layout) (token : Token) : Option Layout := do
  let layout ← layout.outermost
  some ((layout.emit token).skip 3)

/-- Reads the token that starts with `c`. -/
def token (layout : Layout) (c : Char) (rest : List Char) : Except Fault Layout :=
  let flow := layout.flow ≠ 0
  let atStart := layout.cursor.column = 0
  if c = '%' && atStart then layout.directiveLine
  else if atStart && startsSeparator (c :: rest) then
    orMalformed (layout.separator (if c = '-' then .documentStart else .documentEnd))
  else if c = '[' then orMalformed (layout.openFlow .flowSequenceStart)
  else if c = '\x7b' then orMalformed (layout.openFlow .flowMappingStart)
  else if c = ']' then orMalformed (layout.closeFlow .flowSequenceEnd)
  else if c = '\x7d' then orMalformed (layout.closeFlow .flowMappingEnd)
  else if c = ',' then orMalformed (layout.plainMark .flowEntry true)
  else if c = '-' && endsToken rest then
    orMalformed (layout.blockMark .blockSequenceStart .blockEntry true)
  else if c = '?' && (flow || endsToken rest) then
    orMalformed (layout.blockMark .blockMappingStart .key (!flow))
  else if c = ':' && (flow || endsToken rest) then orMalformed layout.valueMark
  else if c = '*' then
    layout.keyable fun cursor => do
      let (name, cursor) ← orMalformed (anchorName? cursor)
      return (.alias name, cursor)
  else if c = '&' then
    layout.keyable fun cursor => do
      let (name, cursor) ← orMalformed (anchorName? cursor)
      return (.anchor name, cursor)
  else if c = '!' then layout.keyable fun cursor => orMalformed (tag? cursor)
  else if c = '|' && !flow then orMalformed (layout.literal false)
  else if c = '>' && !flow then orMalformed (layout.literal true)
  else if isSingleQuote c then layout.keyable (quotedScalar false)
  else if c = '"' then layout.keyable (quotedScalar true)
  else if startsPlain flow (c :: rest) then orMalformed layout.plainScalar
  else .error .malformedYaml

/-- What is left when the text cannot be read on; a malformed text leaves nothing. -/
def broken (layout : Layout) (fault : Fault) : Except Fault (List Token) :=
  if fault = .malformedYaml then .error fault
  else .ok (layout.settled ++ [.unreadable fault])

/-- Reads tokens to the end of the text. Each step takes at least one character. -/
def run : Nat → Layout → Except Fault (List Token)
  | 0, _ => .error .malformedYaml
  | fuel + 1, layout => do
    let here ← orMalformed (skipGap (layout.cursor.rest.length + 1) layout).dropStale
    let here := here.unwind here.cursor.column
    match here.cursor.rest with
    | [] =>
      let ended ← orMalformed (here.unwind (-1)).dropStart
      return (ended.emit .streamEnd).tokens.toList
    | c :: rest =>
      match here.token c rest with
      | .ok next => run fuel next
      | .error fault => layout.broken fault

end Layout

/-- The characters that a text may hold. -/
def isAllowed (c : Char) : Bool :=
  let n := c.toNat
  n = 9 || n = 10 || n = 13 || (32 ≤ n && n ≤ 126) || n = 0x85 || (0xA0 ≤ n && n ≤ 0xFFFD) ||
    0x10000 ≤ n

/-- The tokens of a text; a byte order mark before it does not count. -/
def tokensOf (text : List Char) : Except Fault (List Token) :=
  if text.all isAllowed then
    let cursor := Cursor.ofText text
    Layout.run (text.length + 1)
      { cursor := if cursor.peek? = some '\ufeff' then cursor.next else cursor }
  else .error .malformedYaml

end StaticSite.Yaml
