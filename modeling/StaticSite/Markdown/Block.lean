import StaticSite.Markdown.Table
import StaticSite.Text.Digit

/-!
# Blocks

A document is cut at blank lines. What stands between them is a heading, a rule, a list, a quote, a
table, a listing or a paragraph; lists and quotes hold blocks themselves. A list whose items are
separated by blank lines has paragraphs in its items, any other list has their bare text.
-/

namespace StaticSite.Markdown

inductive Block where
  | paragraph (text : List Char)
  | bare (text : List Char)
  | heading (level : Nat) (text : List Char)
  | rule
  | listing (code : List Char)
  | fenced (language code : List Char)
  | list (ordered : Bool) (items : List (List Block))
  | quote (content : List Block)
  | table (table : Table)
deriving Repr, Inhabited

namespace Block

/-- The pieces between blank lines; a further line end starts the next piece. -/
def chunks (text : List Char) : List (List Char) :=
  match Text.splitAtMark? ['\n', '\n'] text with
  | none => [text]
  | some (before, rest) =>
    if rest.length < text.length then before :: chunks rest else [before, rest]
termination_by text.length

def lines (text : List Char) : List (List Char) := Text.splitOnChar '\n' text

def unlines (lines : List (List Char)) : List Char := Text.join ['\n'] lines

def dropBlanks (s : List Char) : List Char := s.dropWhile Text.isBlank

/-- The line without up to three blanks before it. -/
def dropIndent : Nat → List Char → List Char
  | n + 1, ' ' :: s => dropIndent n s
  | _, s => s

def isIndented (line : List Char) : Bool := Text.startsWith [' ', ' ', ' ', ' '] line

/-- The rest of a heading's line, if only marks are left. -/
def headingEnd? (s : List Char) : Bool := (s.dropWhile (· = '#')).isEmpty

/-- The text of a heading up to the marks that may close it. -/
def headingText? : List Char → Option (List Char)
  | [] => some []
  | ['\\'] => none
  | '\\' :: c :: s =>
    if headingEnd? ('\\' :: c :: s) then some []
    else (headingText? s).map fun text => '\\' :: c :: text
  | c :: s => if headingEnd? (c :: s) then some [] else (headingText? s).map (c :: ·)

/-- A heading that starts with marks: its level and its text. -/
def markedHeading? (line : List Char) : Option Block :=
  let marks := (line.takeWhile (· = '#')).length
  if marks = 0 then none
  else
    let level := min marks 6
    (headingText? (line.drop level)).map fun text => .heading level (Text.trim text)

/-- The level that a line gives to the line before it. -/
def underlineLevel? (line : List Char) : Option Nat :=
  let marks := line.takeWhile fun c => c = '=' || c = '-'
  if marks.isEmpty || !(line.drop marks.length).all (· = ' ') then none
  else some (if line.head? = some '=' then 1 else 2)

/-- Whether a line has the same mark three times or more, with at most two blanks between. -/
def isRuleOf (mark : Char) (line : List Char) : Bool :=
  let body := Text.dropTail (· = ' ') (dropIndent 3 line)
  body.head? = some mark && body.all (fun c => c = mark || c = ' ') && 3 ≤ body.count mark &&
    !Text.contains [' ', ' ', ' '] body

def isRule (line : List Char) : Bool := ['-', '_', '*'].any fun mark => isRuleOf mark line

/-- What follows the blanks that must follow a list mark. -/
def afterMark? : List Char → Option (List Char)
  | ' ' :: s => some (s.dropWhile (· = ' '))
  | _ => none

def numbered? (line : List Char) : Option (List Char) :=
  let (digits, rest) := (dropIndent 3 line).span fun c => (Text.digitValue? c).isSome
  match digits, rest with
  | _ :: _, '.' :: rest => afterMark? rest
  | _, _ => none

def bulleted? (line : List Char) : Option (List Char) :=
  match dropIndent 3 line with
  | c :: rest => if c = '*' || c = '+' || c = '-' then afterMark? rest else none
  | [] => none

/-- The text of an item whose mark starts the line. -/
def item? (line : List Char) : Option (List Char) := (numbered? line).or (bulleted? line)

/-- The texts of the items; a line without a mark belongs to the item before it. -/
def itemTexts (current : List Char) : List (List Char) → List (List Char)
  | [] => [current]
  | line :: lines =>
    match item? line with
    | some text => current :: itemTexts text lines
    | none => itemTexts (current ++ '\n' :: line) lines

/-- What a quoted line says. -/
def quotedText? (line : List Char) : Option (List Char) :=
  match dropIndent 3 line with
  | '>' :: ' ' :: s => some s
  | '>' :: s => some s
  | _ => none

def unquote (line : List Char) : List Char :=
  if Text.trim line = ['>'] then [] else (quotedText? line).getD line

/-- The lines before the first one that satisfies `p`, that line, and the lines after it. -/
def cutAtLine? {α : Type} (p : List Char → Option α) :
    List (List Char) → Option (List (List Char) × α × List (List Char))
  | [] => none
  | line :: lines =>
    match p line with
    | some found => some ([], found, lines)
    | none =>
      (cutAtLine? p lines).map fun (before, found, after) => (line :: before, found, after)

/-- Puts the bare text of an item into a paragraph. -/
def loosenItem : List Block → List Block
  | .bare text :: rest => .paragraph text :: rest
  | blocks => blocks

/-- Puts the bare text of the last item into a paragraph. -/
def loosenLast : List (List Block) → List (List Block)
  | [] => []
  | [item] => [loosenItem item]
  | item :: items => item :: loosenLast items

/-- The lines of a listing without their indent, and the lines after it. -/
def takeListing : List (List Char) → List (List Char) × List (List Char)
  | [] => ([], [])
  | line :: lines =>
    if isIndented line then
      let (code, rest) := takeListing lines
      (line.drop 4 :: code, rest)
    else if (Text.trim line).isEmpty then
      let (code, rest) := takeListing lines
      ([] :: code, rest)
    else ([], line :: lines)

/-- How texts are taken: as bare text in items, as paragraphs elsewhere. -/
inductive Mode where
  | bare | paragraphs
deriving DecidableEq, Repr

/-- Adds a text to the blocks before it, which are given in reverse. -/
def addText (mode : Mode) (text : List Char) (reversed : List Block) : List Block :=
  if (Text.trim text).isEmpty then reversed
  else
    match mode, reversed with
    | .paragraphs, _ => .paragraph (dropBlanks text) :: reversed
    | .bare, .bare before :: rest => .bare (before ++ '\n' :: dropBlanks text) :: rest
    | .bare, [] => [.bare (dropBlanks text)]
    | .bare, _ => .bare text :: reversed

/-- Adds a listing; one that follows a listing continues it after a blank line. -/
def addListing (code : List Char) (reversed : List Block) : List Block :=
  let code := Text.dropTail Text.isBlank code ++ ['\n']
  match reversed with
  | .listing before :: rest => .listing (before ++ '\n' :: code) :: rest
  | _ => .listing code :: reversed

/-- Keeps the empty lines that follow a listing. -/
def addEmpty (chunk : List Char) (reversed : List Block) : List Block :=
  match reversed with
  | .listing before :: rest =>
    .listing (before ++ (if chunk.isEmpty then ['\n', '\n'] else ['\n'])) :: rest
  | _ => reversed

/--
Reads chunks after the blocks in `reversed`. Every step takes a chunk away or puts back a shorter
one, and what is read inside is shorter too, so the length of the text bounds the steps.
-/
def read : Nat → Mode → List Block → List (List Char) → List Block
  | 0, _, reversed, _ => reversed
  | _ + 1, _, reversed, [] => reversed
  | fuel + 1, mode, reversed, chunk :: chunks =>
    let continueWith (reversed : List Block) (rest : List (List Char)) : List Block :=
      read fuel mode reversed (if rest.isEmpty then chunks else unlines rest :: chunks)
    let before (rest : List (List Char)) : List Block :=
      if rest.isEmpty then reversed else read fuel mode reversed [unlines rest]
    let all := lines chunk
    if chunk.isEmpty then read fuel mode (addEmpty chunk reversed) chunks
    else if chunk.head? = some '\n' then
      let rest := chunk.drop 1
      read fuel mode (addEmpty chunk reversed) (if rest.isEmpty then chunks else rest :: chunks)
    else if isIndented chunk then
      let (code, rest) := takeListing all
      continueWith (addListing (unlines code) reversed) rest
    else
      match Table.read? all with
      | some found => read fuel mode (.table found :: reversed) chunks
      | none =>
        match cutAtLine? markedHeading? all with
        | some (lead, found, rest) => continueWith (found :: before lead) rest
        | none =>
          match all with
          | first :: second :: rest =>
            match underlineLevel? second with
            | some level =>
              continueWith (.heading level (Text.trim first) :: reversed) rest
            | none => readMarked fuel mode reversed chunk chunks
          | _ => readMarked fuel mode reversed chunk chunks
where
  /-- Reads a chunk that starts with neither a listing, a table nor a heading. -/
  readMarked : Nat → Mode → List Block → List Char → List (List Char) → List Block
    | 0, _, reversed, _, _ => reversed
    | fuel + 1, mode, reversed, chunk, chunks =>
      let all := lines chunk
      match cutAtLine? (fun line => if isRule line then some () else none) all with
      | some (lead, _, rest) =>
        let before := if lead.isEmpty then reversed else read fuel mode reversed [unlines lead]
        let rest := rest.dropWhile (·.isEmpty)
        read fuel mode (.rule :: before) (if rest.isEmpty then chunks else unlines rest :: chunks)
      | none =>
        match all with
        | [] => reversed
        | line :: more =>
          match (numbered? line).map (true, ·) |>.or ((bulleted? line).map (false, ·)) with
          | some (ordered, text) =>
            let texts := itemTexts text more
            match reversed with
            | .list ordered items :: others =>
              let first := (read fuel .paragraphs [] [texts.headD []]).reverse
              let rest := (texts.drop 1).map fun text => (read fuel .bare [] [text]).reverse
              read fuel mode (.list ordered (loosenLast items ++ first :: rest) :: others) chunks
            | _ =>
              let items := texts.map fun text => (read fuel .bare [] [text]).reverse
              read fuel mode (.list ordered items :: reversed) chunks
          | none =>
            match cutAtLine? (fun line => (quotedText? line).map fun _ => line) all with
            | some (lead, quoted, rest) =>
              let before :=
                if lead.isEmpty then reversed else read fuel mode reversed [unlines lead]
              let text := unlines ((quoted :: rest).map unquote)
              let (inside, before) :=
                match before with
                | .quote content :: others => (content.reverse, others)
                | _ => ([], before)
              let content := (read fuel .paragraphs inside (Block.chunks text)).reverse
              read fuel mode (.quote content :: before) chunks
            | none => read fuel mode (addText mode chunk reversed) chunks

/-- The blocks of a text. -/
def ofText (text : List Char) : List Block :=
  (read (4 * text.length + 8) .paragraphs [] (chunks text)).reverse

end Block

end StaticSite.Markdown
