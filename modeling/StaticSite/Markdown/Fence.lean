import StaticSite.Markdown.Block

/-!
# Fenced listings

A fence is a line of three or more backticks or tildes, which may name a language. The lines up to
the next line with the same fence are a listing, whatever they hold; a fence that is not closed is
text.
-/

namespace StaticSite.Markdown.Fence

def isNameChar (c : Char) : Bool := Text.isWord c || c = '#' || c = '.' || c = '+' || c = '-'

/-- The marks of an opening fence and the language that it names. -/
def opening? (line : List Char) : Option (List Char × List Char) :=
  match line with
  | [] => none
  | c :: _ =>
    if c = Table.backtick || c = '~' then
      let (marks, rest) := line.span (· = c)
      let rest := rest.dropWhile (· = ' ')
      let rest := if rest.head? = some '.' then rest.drop 1 else rest
      let (name, rest) := rest.span isNameChar
      if 3 ≤ marks.length && rest.all (· = ' ') then some (marks, name) else none
    else none

def closes (marks line : List Char) : Bool :=
  match Text.dropMark? marks line with
  | some rest => rest.all (· = ' ')
  | none => false

/-- The lines before the closing fence and the lines after it. -/
def body? (marks : List Char) (lines : List (List Char)) :
    Option (List (List Char) × List (List Char)) :=
  (Block.cutAtLine? (fun line => if closes marks line then some () else none) lines).map
    fun (body, _, rest) => (body, rest)

/-- The blocks before a listing; a blank line sets them apart from it. -/
def lead (reversed : List (List Char)) : List Block :=
  if reversed.isEmpty then []
  else Block.ofText (Block.unlines reversed.reverse ++ ['\n', '\n'])

/-- Reads lines, of which those in `reversed` stand before and hold no listing. -/
def read : Nat → List (List Char) → List (List Char) → List Block
  | 0, reversed, _ => Block.ofText (Block.unlines reversed.reverse)
  | _ + 1, reversed, [] => Block.ofText (Block.unlines reversed.reverse)
  | fuel + 1, reversed, line :: lines =>
    match (opening? line).bind fun (marks, name) =>
      (body? marks lines).map fun (body, rest) => (name, body, rest) with
    | some (name, body, rest) =>
      lead reversed ++
        .fenced name (body.flatMap (· ++ ['\n'])) :: read fuel [] rest
    | none => read fuel (line :: reversed) lines

end StaticSite.Markdown.Fence
