import StaticSite.Text.Blank
import StaticSite.Text.Search

/-!
# Tables

A table has a line of headings, a line of hyphens that may name the side of each column, and lines
of cells. Cells are parted by bars; a bar in a code span or after a backslash belongs to its cell.
-/

namespace StaticSite.Markdown

inductive Side where
  | left | right | center
deriving DecidableEq, Repr

def Side.name : Side → String
  | .left => "left"
  | .right => "right"
  | .center => "center"

structure Table where
  columns : List (Option Side)
  headings : List (List Char)
  rows : List (List (List Char))
deriving DecidableEq, Repr

namespace Table

/-- A part of a line: a code span or an escape, a bar, or another character. -/
inductive Part where
  | kept (text : List Char)
  | bar
deriving DecidableEq, Repr

def backtick : Char := '\x60'

/-- A run of exactly `count` backticks, with all before it, and the rest. -/
def toTicks? (count : Nat) : Nat → List Char → Option (List Char × List Char)
  | 0, _ => none
  | _ + 1, [] => none
  | fuel + 1, '\\' :: c :: s =>
    if c = backtick then
      let (ticks, rest) := (c :: s).span (· = backtick)
      if ticks.length = count then some ('\\' :: ticks, rest)
      else (toTicks? count fuel rest).map fun (text, rest) => ('\\' :: ticks ++ text, rest)
    else (toTicks? count fuel s).map fun (text, rest) => ('\\' :: c :: text, rest)
  | fuel + 1, c :: s =>
    if c = backtick then
      let (ticks, rest) := (c :: s).span (· = backtick)
      if ticks.length = count then some (ticks, rest)
      else (toTicks? count fuel rest).map fun (text, rest) => (ticks ++ text, rest)
    else (toTicks? count fuel s).map fun (text, rest) => (c :: text, rest)

/-- Cuts a line into parts. -/
def parts : Nat → List Char → List Part
  | 0, _ => []
  | _ + 1, [] => []
  | fuel + 1, c :: s =>
    if c = '|' then .bar :: parts fuel s
    else if c = '\\' then
      match s with
      | d :: rest =>
        if d = '\\' || d = '|' then .kept [c, d] :: parts fuel rest else .kept [c] :: parts fuel s
      | [] => [.kept [c]]
    else if c = backtick then
      let (ticks, rest) := (c :: s).span (· = backtick)
      match toTicks? ticks.length (rest.length + 1) rest with
      | some (text, rest) => .kept (ticks ++ text) :: parts fuel rest
      | none => .kept ticks :: parts fuel rest
    else .kept [c] :: parts fuel s

/-- The texts between the bars. -/
def joinParts : List Part → List (List Char)
  | [] => [[]]
  | .bar :: rest => [] :: joinParts rest
  | .kept text :: rest =>
    match joinParts rest with
    | [] => [text]
    | cell :: cells => (text ++ cell) :: cells

def isSpace (c : Char) : Bool := c = ' '

def trimSpaces (s : List Char) : List Char := Text.trimBy isSpace s

/-- Whether a line ends with a bar that no backslash escapes. -/
def endsWithBar (line : List Char) : Bool :=
  match line.reverse with
  | '|' :: before => (before.takeWhile (· = '\\')).length % 2 = 0
  | _ => false

def dropLastBar (line : List Char) : List Char :=
  if endsWithBar line then line.dropLast else line

/-- The cells of a line; `bordered` tells whether bars stand at the ends of lines. -/
def cells (bordered : Bool) (line : List Char) : List (List Char) :=
  let line :=
    if bordered then dropLastBar (if line.head? = some '|' then line.drop 1 else line) else line
  joinParts (parts (line.length + 1) line)

/-- The side that a cell of the second line names. -/
def side (cell : List Char) : Option Side :=
  let cell := trimSpaces cell
  let starts := cell.head? = some ':'
  let ends := cell.getLast? = some ':'
  if starts ∧ ends then some .center
  else if starts then some .left
  else if ends then some .right
  else none

/-- One cell for each column. -/
def fit (columns : List (Option Side)) (found : List (List Char)) : List (List Char) :=
  (List.range columns.length).map fun index => trimSpaces (found.getD index [])

/-- A block of lines that is a table. -/
def read? (lines : List (List Char)) : Option Table :=
  match lines.map trimSpaces with
  | first :: second :: others =>
    let bordered := first.head? = some '|'
    let headings := cells bordered first
    let single := headings.length = 1 && bordered &&
      (second :: others).all fun line => line.head? = some '|' || endsWithBar line
    let separators := cells bordered second
    if (1 < headings.length || single) && separators.length = headings.length &&
        separators.all (·.all fun c => c = '|' || c = ':' || c = '-' || c = ' ') then
      let columns := separators.map side
      some { columns, headings := fit columns headings
             rows := others.map fun line => fit columns (cells bordered line) }
    else none
  | _ => none

end Table

end StaticSite.Markdown
