import StaticSite.Markdown.Inline

/-!
# Links and images

A link is a text in brackets followed by a target in parentheses: an address, and a title in quotes
if there is one. The address may hold parentheses that match, or stand in angle brackets.
-/

namespace StaticSite.Markdown.Link

/-- The pieces up to the bracket that closes the one before them, and the rest after it. -/
def label? (depth : Nat) : List Inline → Option (List Inline × List Inline)
  | [] => none
  | p :: s =>
    if p.isMark ']' then
      if depth ≤ 1 then some ([], s)
      else (label? (depth - 1) s).map fun (content, rest) => (p :: content, rest)
    else
      let depth := if p.isMark '[' then depth + 1 else depth
      (label? depth s).map fun (content, rest) => (p :: content, rest)

structure Target where
  href : List Char
  title : Option (List Char)
  rest : List Inline

/-- A title without the quotes around it; blanks of any kind become spaces. -/
def cleanTitle (title : List Inline) : List Char :=
  let text := Inline.plainAll title
  let text :=
    match text, text.getLast? with
    | q :: inner, some last =>
      if (q = '"' ∨ q.toNat = 39) ∧ last = q then inner.dropLast else text
    | _, _ => text
  text.map fun c => if Text.isBlank c then ' ' else c

def trimPieces (s : List Inline) : List Inline :=
  ((s.dropWhile Inline.isBlank).reverse.dropWhile Inline.isBlank).reverse

def isQuote (c : Char) : Bool := c = '"' || c.toNat = 39

/-- A quoted text and the rest after it. -/
def quoted? : List Inline → Option (List Inline × List Inline)
  | .char q :: s =>
    if isQuote q then
      match s.span (fun p => !p.isMark q) with
      | (inner, _ :: rest) => some (inner, rest)
      | (_, []) => none
    else none
  | _ => none

/-- A target whose address stands in angle brackets; `s` starts with its bracket. -/
def bracketed? (s : List Inline) : Option Target := do
  let s ← Inline.dropMark? ['<'] s
  let (address, rest) := s.span fun p => !p.isMark '<' && !p.isMark '>'
  let rest ← Inline.dropMark? ['>'] rest
  let rest := rest.dropWhile Inline.isBlank
  let (title, rest) :=
    match quoted? rest with
    | some (title, rest) => (some title, rest.dropWhile Inline.isBlank)
    | none => (none, rest)
  let rest ← Inline.dropMark? [')'] rest
  let title := title.map fun title => cleanTitle (trimPieces title)
  some { href := Text.trim (Inline.plainAll address), title, rest }

/-- What has been seen of a target: where its quotes start and end, and the open parentheses. -/
structure Scan where
  position : Nat := 0
  depth : Nat := 1
  spare : Nat := 1
  spareEnd : Option Nat := none
  quote : Option (Char × Nat) := none
  quoteEnd : Option Nat := none
  other : Option (Char × Nat) := none
  otherEnd : Option Nat := none
  last : Option Char := none

/-- Whether a quote that has been opened and closed is the last character. -/
def Scan.closedBy (scan : Scan) (quote : Option (Char × Nat)) (closed : Option Nat) : Bool :=
  closed.isSome && scan.last.isSome && quote.map (·.1) = scan.last

def Scan.openParen (scan : Scan) : Scan :=
  if scan.quote.isNone then { scan with depth := scan.depth + 1 }
  else { scan with spare := scan.spare - 1 }

def Scan.closeParen (scan : Scan) : Scan :=
  if scan.closedBy scan.quote scan.quoteEnd || scan.closedBy scan.other scan.otherEnd then
    { scan with depth := 0 }
  else if scan.quote.isNone then { scan with depth := scan.depth - 1 }
  else if scan.spare = 0 then scan
  else
    let spareEnd := if scan.spare = 1 then some (scan.position + 1) else scan.spareEnd
    { scan with spare := scan.spare - 1, spareEnd }

def Scan.takeQuote (scan : Scan) (c : Char) : Scan :=
  match scan.quote, scan.other with
  | none, _ =>
    { scan with spare := scan.depth, depth := 1, quote := some (c, scan.position + 1) }
  | some (q, _), none =>
    if c = q then { scan with quoteEnd := some (scan.position + 1) }
    else { scan with other := some (c, scan.position + 1) }
  | some (q, _), some _ =>
    if c = q then { scan with quoteEnd := some (scan.position + 1) }
    else { scan with otherEnd := some (scan.position + 1) }

/-- Takes one piece of a target. -/
def Scan.take (scan : Scan) (p : Inline) : Scan :=
  let next :=
    match p.open? with
    | some c =>
      if c = '(' then scan.openParen
      else if c = ')' then scan.closeParen
      else if isQuote c then scan.takeQuote c
      else scan
    | none => scan
  { next with position := scan.position + 1 }

/-- Scans until the target is closed or the text ends. -/
def Scan.run (scan : Scan) : List Inline → Scan
  | [] => scan
  | p :: s =>
    let next := scan.take p
    if next.depth = 0 then next
    else Scan.run { next with last := if p.isMark ' ' then next.last else p.open? } s

def slice (s : List Inline) (first last : Nat) : List Inline := (s.take last).drop first

/-- The target that a scan of `s` has found. -/
def Scan.target? (scan : Scan) (s : List Inline) : Option Target :=
  let closedTitle : Option (Nat × Nat) :=
    match scan.quote, scan.quoteEnd, scan.other, scan.otherEnd with
    | some (q, start), some stop, other, otherEnd =>
      if scan.last = some q then some (start, stop)
      else
        match other, otherEnd with
        | some (o, start), some stop => if scan.last = some o then some (start, stop) else none
        | _, _ => none
    | _, none, some (o, start), some stop =>
      if scan.last = some o then some (start, stop) else none
    | _, _, _, _ => none
  if scan.depth = 0 then
    let rest := s.drop scan.position
    match closedTitle with
    | some (start, stop) =>
      some { href := Text.trim (Inline.plainAll (s.take (start - 1)))
             title := some (cleanTitle (trimPieces (slice s start (stop - 1)))), rest }
    | none =>
      some { href := Text.trim (Inline.plainAll (s.take (scan.position - 1)))
             title := none, rest }
  else
    match scan.spare, scan.spareEnd with
    | 0, some stop =>
      some { href := Text.trim (Inline.plainAll (s.take (stop - 1))), title := none
             rest := s.drop stop }
    | _, _ => none

/-- The target in parentheses with which the pieces start. -/
def target? (s : List Inline) : Option Target := do
  let s ← Inline.dropMark? ['('] s
  let s := s.dropWhile Inline.isBlank
  match bracketed? s with
  | some target => some target
  | none => Scan.target? (Scan.run {} s) s

/-- A link; `read` reads its text. An exclamation mark before the bracket makes it an image. -/
def link? (read : List Inline → List Inline) (previous : Option Inline) (s : List Inline) :
    Option (List Inline × List Inline) := do
  if (previous.map (Inline.isMark '!')).getD false then none
  let s ← Inline.dropMark? ['['] s
  let (content, s) ← label? 1 s
  let target ← target? s
  some ([.link target.href target.title (read content)], target.rest)

def image? (_ : Option Inline) (s : List Inline) : Option (List Inline × List Inline) := do
  let s ← Inline.dropMark? ['!', '['] s
  let (content, s) ← label? 1 s
  let target ← target? s
  some ([.image target.href target.title (Inline.plainAll content)], target.rest)

end StaticSite.Markdown.Link
