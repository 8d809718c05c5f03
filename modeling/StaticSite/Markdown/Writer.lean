import StaticSite.Markdown.Block
import StaticSite.Markdown.Span
import StaticSite.Markup.Node

/-!
# Writing blocks

Every block stands on lines of its own. In text, an ampersand that starts a character reference is
left alone; elements without content are closed in their tag.
-/

namespace StaticSite.Markdown

/-- Whether a character reference starts after an ampersand. -/
def startsReference (s : List Char) : Bool :=
  let inside := s.takeWhile fun c => c = '#' || Text.isAsciiAlphanumeric c
  let lowered := inside.map Text.lowerAscii
  (s.drop inside.length).head? = some ';' && Span.isReference lowered

/-- Text with its ampersands and angle brackets escaped, and the double quote if `quote` is set. -/
def escapeText (quote : Bool) : List Char → List Char
  | [] => []
  | c :: s =>
    let rest := escapeText quote s
    if c = '&' then (if startsReference s then '&' :: rest else "&amp;".toList ++ rest)
    else if c = '<' then "&lt;".toList ++ rest
    else if c = '>' then "&gt;".toList ++ rest
    else if quote && c = '"' then "&quot;".toList ++ rest
    else c :: rest

/-- Code has all its ampersands escaped. -/
def escapeCode (s : List Char) : List Char :=
  s.flatMap fun c =>
    if c = '&' then "&amp;".toList
    else if c = '<' then "&lt;".toList
    else if c = '>' then "&gt;".toList
    else [c]

/-- An attribute with a blank before it. -/
def attributeText (name : String) (value : List Char) : List Char :=
  ' ' :: (name.toList ++ '=' :: '"' :: (escapeText true value ++ ['"']))

def titleText (title : Option (List Char)) : List Char :=
  (title.map (attributeText "title")).getD []

def wrap (tag : String) (content : List Char) : List Char :=
  '<' :: (tag.toList ++ '>' :: (content ++ '<' :: '/' :: (tag.toList ++ ['>'])))

mutual

/-- Writes pieces; `run` holds the characters before them in reverse, which are escaped together. -/
def writeInlines (run : List Char) : List Inline → List Char
  | [] => escapeText false run.reverse
  | .char c :: s => writeInlines (c :: run) s
  | .literal c :: s => writeInlines (c :: run) s
  | .lineBreak :: s =>
    escapeText false run.reverse ++ "<br />\n".toList ++ writeInlines [] s
  | p :: s => escapeText false run.reverse ++ writeInline p ++ writeInlines [] s

def writeInline : Inline → List Char
  | .char c => [c]
  | .literal c => [c]
  | .raw markup => markup
  | .code text => wrap "code" (escapeCode text)
  | .lineBreak => "<br />\n".toList
  | .link href title content =>
    "<a".toList ++ attributeText "href" href ++ titleText title ++ '>' ::
      (writeInlines [] content ++ "</a>".toList)
  | .image source title alt =>
    "<img".toList ++ attributeText "alt" alt ++ attributeText "src" source ++ titleText title ++
      " />".toList
  | .emphasis content => wrap "em" (writeInlines [] content)
  | .strong content => wrap "strong" (writeInlines [] content)

end

/-- The markup of a block's text. -/
def writeText (text : List Char) : List Char := writeInlines [] (Span.read text)

/-- A cell of a table, set to the side of its column. -/
def writeCell (tag : String) (side : Option Side) (text : List Char) : List Char :=
  let style :=
    (side.map fun side => attributeText "style" ("text-align: " ++ side.name ++ ";").toList).getD []
  '<' :: (tag.toList ++ style ++ '>' :: (writeText text ++ '<' :: '/' ::
    (tag.toList ++ ['>', '\n'])))

def writeRow (tag : String) (columns : List (Option Side)) (cells : List (List Char)) :
    List Char :=
  "<tr>\n".toList ++ (columns.zip cells).flatMap (fun (side, text) => writeCell tag side text) ++
    "</tr>\n".toList

/-- A table without rows gets an empty one. -/
def writeTable (table : Table) : List Char :=
  let rows :=
    if table.rows.isEmpty then
      "<tr>\n".toList ++ table.columns.flatMap (fun _ => "<td></td>\n".toList) ++ "</tr>\n".toList
    else table.rows.flatMap (writeRow "td" table.columns)
  "<table>\n<thead>\n".toList ++ writeRow "th" table.columns table.headings ++
    "</thead>\n<tbody>\n".toList ++ rows ++ "</tbody>\n</table>".toList

mutual

def writeBlock : Block → List Char
  | .paragraph text => wrap "p" (writeText text)
  | .bare text => writeText text
  | .heading level text => wrap ("h" ++ toString level) (writeText text)
  | .rule => "<hr />".toList
  | .listing code =>
    wrap "pre" (wrap "code" (escapeCode (Text.dropTail Text.isBlank code ++ ['\n'])))
  | .fenced language code =>
    let attributes :=
      if language.isEmpty then []
      else attributeText "class" ("language-".toList ++ language)
    "<pre><code".toList ++ attributes ++ '>' :: (code.flatMap fenceChar ++ "</code></pre>".toList)
  | .list ordered items =>
    let tag := if ordered then "ol" else "ul"
    wrap tag ('\n' :: writeItems items)
  | .quote content => wrap "blockquote" (writeContent content)
  | .table table => writeTable table

/-- A listing between fences has its double quotes escaped, too. -/
def fenceChar (c : Char) : List Char :=
  if c = '"' then "&quot;".toList else escapeCode [c]

/-- Blocks inside another one start after a line end, bare text at once. -/
def writeContent : List Block → List Char
  | [] => []
  | .bare text :: rest => writeText text ++ writeEach rest
  | block :: rest => '\n' :: writeEach (block :: rest)

/-- Blocks one after the other, each with a line end after it. -/
def writeEach : List Block → List Char
  | [] => []
  | block :: .bare text :: rest => writeBlock block ++ '\n' :: (writeText text ++ writeEach rest)
  | block :: rest => writeBlock block ++ '\n' :: writeEach rest

def writeItems : List (List Block) → List Char
  | [] => []
  | item :: items => wrap "li" (writeContent item) ++ '\n' :: writeItems items

end

end StaticSite.Markdown
