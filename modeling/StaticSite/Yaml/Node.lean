import StaticSite.Yaml.Layout

/-!
# Nodes of YAML

The graph that the tokens of one document describe. A node is known by its number; an alias is
another way to the node with its anchor, also from inside it.
-/

namespace StaticSite.Yaml

inductive Content where
  | scalar (text : String)
  | sequence (items : List Nat)
  | mapping (pairs : List (Nat × Nat))
deriving DecidableEq, Repr, Inhabited

/-- A node; without a tag, a `plain` scalar gets its kind from its text. -/
structure Node where
  tag : Option String
  plain : Bool
  content : Content
deriving DecidableEq, Repr, Inhabited

/-- The nodes that have been read, the anchors among them, and the tokens that are left. -/
structure Reader where
  tokens : List Token
  handles : List (String × String)
  nodes : Array Node := #[]
  anchors : List (String × Nat) := []

/-- The number of a node that has been read, and the reader after it. -/
abbrev Reading := Except Fault (Nat × Reader)

namespace Reader

/-- The next token; where the text could not be read on there is none. -/
def peek (reader : Reader) : Except Fault Token :=
  match reader.tokens.headD .streamEnd with
  | .unreadable fault => .error fault
  | token => .ok token

def next (reader : Reader) : Reader := { reader with tokens := reader.tokens.tail }

def add (reader : Reader) (node : Node) : Nat × Reader :=
  (reader.nodes.size, { reader with nodes := reader.nodes.push node })

def set (reader : Reader) (id : Nat) (node : Node) : Reader :=
  { reader with nodes := reader.nodes.setIfInBounds id node }

/-- What stands where a node is missing. -/
def addEmpty (reader : Reader) : Nat × Reader :=
  reader.add { tag := none, plain := true, content := .scalar "" }

/-- Takes a token of a kind, without which the text is malformed. -/
def expect (reader : Reader) (token : Token) : Except Fault Reader := do
  if (← reader.peek) = token then return reader.next else throw .malformedYaml

/-- A comma stands before each member of a flow collection but the first. -/
def separate (reader : Reader) (first : Bool) : Except Fault Reader :=
  if first then .ok reader else reader.expect .flowEntry

/-- The anchor and the tag before a node, in either order. -/
def properties (reader : Reader) :
    Except Fault ((Option String × Option (Option String × String)) × Reader) := do
  match ← reader.peek with
  | .anchor name =>
    match ← reader.next.peek with
    | .tag handle suffix => return ((some name, some (handle, suffix)), reader.next.next)
    | _ => return ((some name, none), reader.next)
  | .tag handle suffix =>
    match ← reader.next.peek with
    | .anchor name => return ((some name, some (handle, suffix)), reader.next.next)
    | _ => return ((none, some (handle, suffix)), reader.next)
  | _ => return ((none, none), reader)

/-- The full tag; its handle must be known. -/
def fullTag? (reader : Reader) : Option (Option String × String) → Option (Option String)
  | none => some none
  | some (none, suffix) => some (some suffix)
  | some (some handle, suffix) =>
    (reader.handles.lookup handle).map fun expansion => some (expansion ++ suffix)

/-- The text of a scalar and whether it is plain; a node with properties may be empty. -/
def scalar (reader : Reader) (anchor tag : Option String) :
    Token → Except Fault ((String × Bool) × Reader)
  | .scalar text plain => .ok ((text, (plain && tag.isNone) || tag = some "!"), reader.next)
  | _ =>
    if anchor.isSome || tag.isSome then .ok (("", tag.isNone || tag = some "!"), reader)
    else .error .malformedYaml

/-- Gives a node its anchor, which no other node may have. -/
def name? (reader : Reader) (anchor : Option String) (id : Nat) : Option Reader :=
  match anchor with
  | none => some reader
  | some name =>
    if (reader.anchors.lookup name).isSome then none
    else some { reader with anchors := (name, id) :: reader.anchors }

end Reader

/-- The collections that the tokens can open. -/
inductive Shape where
  | blockSequence | bareSequence | blockMapping | flowSequence | flowMapping
deriving DecidableEq, Repr

/-- The collection that a token opens; `block` and `bare` tell what may stand here. -/
def shape? (block bare : Bool) : Token → Option Shape
  | .blockEntry => if bare then some .bareSequence else none
  | .flowSequenceStart => some .flowSequence
  | .flowMappingStart => some .flowMapping
  | .blockSequenceStart => if block then some .blockSequence else none
  | .blockMappingStart => if block then some .blockMapping else none
  | _ => none

/-- The tokens before which a node of a flow collection is missing. -/
def endsFlowNode (close : Token) (token : Token) : Bool :=
  token = close || token = .flowEntry

/-- The tokens before which an entry of a block sequence is missing. -/
def endsEntry (bare : Bool) (token : Token) : Bool :=
  token = .blockEntry || token = .blockEnd || (bare && (token = .key || token = .value))

/-- The tokens before which a key or a value of a block mapping is missing. -/
def endsMember (token : Token) : Bool := token = .key || token = .value || token = .blockEnd

mutual

/-- A node. Every step takes a token or goes one level into the grammar, which bounds the steps. -/
def readNode (block bare : Bool) : Nat → Reader → Reading
  | 0, _ => .error .malformedYaml
  | fuel + 1, reader => do
    match ← reader.peek with
    | .alias name => return (← orMalformed (reader.anchors.lookup name), reader.next)
    | _ =>
      let ((anchor, tag), reader) ← reader.properties
      let tag ← orMalformed (reader.fullTag? tag)
      let known := if tag = some "!" then none else tag
      let first ← reader.peek
      match shape? block bare first with
      | some shape =>
        let start := if shape = .bareSequence then reader else reader.next
        let (id, start) := start.add { tag := known, plain := false, content := .sequence [] }
        let start ← orMalformed (start.name? anchor id)
        let (content, reader) ← readContent shape fuel start
        return (id, reader.set id { tag := known, plain := false, content })
      | none =>
        let ((text, plain), reader) ← reader.scalar anchor tag first
        let (id, reader) := reader.add { tag := known, plain, content := .scalar text }
        let reader ← orMalformed (reader.name? anchor id)
        return (id, reader)

/-- The items or pairs of a collection whose first token has been taken. -/
def readContent (shape : Shape) : Nat → Reader → Except Fault (Content × Reader)
  | 0, _ => .error .malformedYaml
  | fuel + 1, reader =>
    match shape with
    | .blockSequence => do
      let (items, reader) ← readEntries false fuel reader
      return (.sequence items, ← reader.expect .blockEnd)
    | .bareSequence => do
      let (items, reader) ← readEntries true fuel reader
      return (.sequence items, reader)
    | .blockMapping => do
      let (pairs, reader) ← readPairs fuel reader
      return (.mapping pairs, ← reader.expect .blockEnd)
    | .flowSequence => do
      let (items, reader) ← readFlowItems true fuel reader
      return (.sequence items, reader)
    | .flowMapping => do
      let (pairs, reader) ← readFlowPairs true fuel reader
      return (.mapping pairs, reader)

/-- The entries of a block sequence; a bare one is indented like the mapping around it. -/
def readEntries (bare : Bool) : Nat → Reader → Except Fault (List Nat × Reader)
  | 0, _ => .error .malformedYaml
  | fuel + 1, reader => do
    if (← reader.peek) = .blockEntry then
      let reader := reader.next
      let (item, reader) ←
        if endsEntry bare (← reader.peek) then .ok reader.addEmpty
        else readNode true false fuel reader
      let (items, reader) ← readEntries bare fuel reader
      return (item :: items, reader)
    else return ([], reader)

/-- A node of a block mapping, which may be missing. -/
def readMember : Nat → Reader → Reading
  | 0, _ => .error .malformedYaml
  | fuel + 1, reader => do
    if endsMember (← reader.peek) then return reader.addEmpty else readNode true true fuel reader

/-- The pairs of a block mapping; a value that is missing is empty. -/
def readPairs : Nat → Reader → Except Fault (List (Nat × Nat) × Reader)
  | 0, _ => .error .malformedYaml
  | fuel + 1, reader => do
    if (← reader.peek) = .key then
      let (key, reader) ← readMember fuel reader.next
      let (value, reader) ←
        if (← reader.peek) = .value then readMember fuel reader.next else .ok reader.addEmpty
      let (pairs, reader) ← readPairs fuel reader
      return ((key, value) :: pairs, reader)
    else return ([], reader)

/-- A node of a flow collection that ends with `close`; it may be missing. -/
def readFlowMember (close : Token) : Nat → Reader → Reading
  | 0, _ => .error .malformedYaml
  | fuel + 1, reader => do
    if endsFlowNode close (← reader.peek) then return reader.addEmpty
    else readNode false false fuel reader

/-- The value of a key in a flow collection; without a colon it is empty. -/
def readFlowValue (close : Token) : Nat → Reader → Reading
  | 0, _ => .error .malformedYaml
  | fuel + 1, reader => do
    if (← reader.peek) = .value then readFlowMember close fuel reader.next
    else return reader.addEmpty

/-- The key after its mark in a flow collection; before a colon it is empty. -/
def readFlowKey (close : Token) : Nat → Reader → Reading
  | 0, _ => .error .malformedYaml
  | fuel + 1, reader => do
    if (← reader.peek) = .value then return reader.addEmpty else readFlowMember close fuel reader

/-- An item of a flow sequence; a pair is a mapping of its own. -/
def readFlowItem : Nat → Reader → Reading
  | 0, _ => .error .malformedYaml
  | fuel + 1, reader => do
    if (← reader.peek) = .key then
      let (id, reader) := reader.next.add { tag := none, plain := false, content := .mapping [] }
      let (key, reader) ← readFlowKey .flowSequenceEnd fuel reader
      let (value, reader) ← readFlowValue .flowSequenceEnd fuel reader
      let node : Node := { tag := none, plain := false, content := .mapping [(key, value)] }
      return (id, reader.set id node)
    else readNode false false fuel reader

/-- The items of a flow sequence; a comma may come before its end. -/
def readFlowItems (first : Bool) : Nat → Reader → Except Fault (List Nat × Reader)
  | 0, _ => .error .malformedYaml
  | fuel + 1, reader => do
    if (← reader.peek) = .flowSequenceEnd then return ([], reader.next)
    let reader ← reader.separate first
    if (← reader.peek) = .flowSequenceEnd then return ([], reader.next)
    let (item, reader) ← readFlowItem fuel reader
    let (items, reader) ← readFlowItems false fuel reader
    return (item :: items, reader)

/-- A pair of a flow mapping; a node without a colon is a key with an empty value. -/
def readFlowPair : Nat → Reader → Except Fault ((Nat × Nat) × Reader)
  | 0, _ => .error .malformedYaml
  | fuel + 1, reader => do
    if (← reader.peek) = .key then
      let (key, reader) ← readFlowKey .flowMappingEnd fuel reader.next
      let (value, reader) ← readFlowValue .flowMappingEnd fuel reader
      return ((key, value), reader)
    else
      let (key, reader) ← readNode false false fuel reader
      let (value, reader) := reader.addEmpty
      return ((key, value), reader)

/-- The pairs of a flow mapping; a comma may come before its end. -/
def readFlowPairs (first : Bool) : Nat → Reader → Except Fault (List (Nat × Nat) × Reader)
  | 0, _ => .error .malformedYaml
  | fuel + 1, reader => do
    if (← reader.peek) = .flowMappingEnd then return ([], reader.next)
    let reader ← reader.separate first
    if (← reader.peek) = .flowMappingEnd then return ([], reader.next)
    let (pair, reader) ← readFlowPair fuel reader
    let (pairs, reader) ← readFlowPairs false fuel reader
    return (pair :: pairs, reader)

end

/-- A graph of nodes and the number of its root. -/
structure Document where
  nodes : Array Node
  root : Nat
deriving DecidableEq, Repr

def defaultHandles : List (String × String) := [("!", "!"), ("!!", "tag:yaml.org,2002:")]

/-- The handles that the directives define; each may be defined once, and one version given. -/
def readDirectives (version : Bool) (handles : List (String × String)) :
    List Token → Except Fault (List (String × String) × List Token)
  | .directive (.version major) :: tokens =>
    if version || major ≠ 1 then .error .malformedYaml else readDirectives true handles tokens
  | .directive (.tagHandle handle expansion) :: tokens =>
    if (handles.lookup handle).isSome then .error .malformedYaml
    else readDirectives version ((handle, expansion) :: handles) tokens
  | .directive .other :: tokens => readDirectives version handles tokens
  | .unreadable fault :: _ => .error fault
  | tokens => .ok (handles, tokens)

def isDocumentEnd (token : Token) : Bool := token = .documentEnd

/-- The tokens before which an explicit document is missing. -/
def endsDocument (token : Token) : Bool :=
  match token with
  | .directive _ => true
  | .documentStart => true
  | .documentEnd => true
  | .streamEnd => true
  | _ => false

/-- Nothing may follow a document; the directives of another one are read before it is refused. -/
def expectEnd (tokens : List Token) : Except Fault Unit := do
  let rest := tokens.dropWhile isDocumentEnd
  let _ ← readDirectives false [] rest
  if rest = [.streamEnd] then return () else throw .malformedYaml

/-- The root of a document whose start has been taken. -/
def readRoot (explicit : Bool) (reader : Reader) : Except Fault Document := do
  let fuel := 8 * reader.tokens.length + 8
  let first ← reader.peek
  let (root, reader) ←
    if explicit && endsDocument first then .ok reader.addEmpty
    else readNode true false fuel reader
  expectEnd reader.tokens
  return ⟨reader.nodes, root⟩

/-- A document after its directives and its start. -/
def readExplicit (tokens : List Token) : Except Fault Document := do
  let (handles, tokens) ← readDirectives false [] tokens
  match tokens with
  | .documentStart :: tokens => readRoot true { tokens, handles := handles ++ defaultHandles }
  | _ => throw .malformedYaml

/-- The one document of a text; a text without one is no error. -/
def readDocument (text : List Char) : Except Fault (Option Document) := do
  let tokens ← tokensOf text
  match tokens with
  | [.streamEnd] => return none
  | .directive _ :: _ => return some (← readExplicit tokens)
  | .documentStart :: _ => return some (← readExplicit tokens)
  | _ => return some (← readRoot false { tokens, handles := defaultHandles })

end StaticSite.Yaml
