import StaticSite.Bytes.Utf8
import StaticSite.Markdown.Fence
import StaticSite.Markdown.Writer

/-!
# Markdown

The markup of a text with headings, paragraphs, emphasis, code, links, images, lists, quotes, tables
and listings.
-/

namespace StaticSite.Markdown

/-- The column after a tab: the next multiple of four. -/
def tabWidth (column : Nat) : Nat := 4 - column % 4

/-- Replaces tabs by blanks up to the next multiple of four columns. -/
def expandTabs (column : Nat) : List Char → List Char
  | [] => []
  | c :: s =>
    if c = '\t' then List.replicate (tabWidth column) ' ' ++ expandTabs 0 s
    else if c = '\n' then c :: expandTabs 0 s
    else c :: expandTabs (column + 1) s

/-- A line that holds only spaces is empty, unless it is the first one. -/
def emptyBlankLines : List (List Char) → List (List Char)
  | [] => []
  | first :: lines => first :: lines.map fun line => if line.all (· = ' ') then [] else line

def lines (source : List Char) : List (List Char) :=
  let source := source.filter fun c => c.toNat ≠ 2 && c.toNat ≠ 3
  let text := expandTabs 0 (Utf8.unifyLines source ++ ['\n', '\n'])
  emptyBlankLines (Block.lines text)

/-- The markup of a source text. -/
def markup (source : String) : String :=
  if (Text.trim source.toList).isEmpty then ""
  else
    let found := lines source.toList
    let blocks := Fence.read (found.length + 1) [] found
    String.ofList (Text.trim (blocks.flatMap fun block => writeBlock block ++ ['\n']))

end StaticSite.Markdown
