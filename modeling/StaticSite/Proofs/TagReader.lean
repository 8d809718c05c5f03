import StaticSite.Proofs.Machine
import StaticSite.Proofs.Reader
import StaticSite.Proofs.References

/-!
# A reader of tags

The reader knows quotes: in a quoted value no character but the quote has a meaning. It tells
opening and closing tags with their attributes from text, comments and declarations, and takes the
content of the elements without markup of their own as it is.
-/

namespace StaticSite.Markup

/-! ## Lexemes -/

/-- An attribute as it is written; a value may stand in quotes of either kind, or in none. -/
inductive Found where
  | value (quote : Option Char) (name text : List Char)
  | flag (name : List Char)
deriving DecidableEq, Repr

def Found.name : Found → List Char
  | .value _ name _ => name
  | .flag name => name

structure Tag where
  closing : Bool
  name : List Char
  attributes : List Found := []
deriving DecidableEq, Repr

/-- The tag with one more attribute. -/
def Tag.plus (tag : Tag) (found : Found) : Tag :=
  { tag with attributes := tag.attributes ++ [found] }

inductive Lexeme where
  | char (c : Char)
  | tag (tag : Tag)
  /-- a comment or a declaration -/
  | aside
  /-- a character of an element without markup of its own -/
  | raw (c : Char)
deriving DecidableEq, Repr

/-! ## Modes -/

/-- How much of the mark that ends a comment has been read. -/
inductive CommentMode where
  | start | startDash | inside | dash | dashes | bang
deriving DecidableEq, Repr

/-- What a reader of tags is in the middle of. -/
inductive Mode where
  | text
  /-- behind `<` -/
  | bracket
  /-- behind `</` -/
  | endBracket
  | tagName (tag : Tag)
  /-- between attributes -/
  | gap (tag : Tag)
  | attributeName (tag : Tag) (name : List Char)
  /-- behind the name of an attribute and blanks -/
  | afterAttribute (tag : Tag) (name : List Char)
  | equals (tag : Tag) (name : List Char)
  | quoted (tag : Tag) (name : List Char) (quote : Char) (value : List Char)
  | unquoted (tag : Tag) (name value : List Char)
  /-- behind `<!` -/
  | bang
  /-- behind `<!-` -/
  | bangDash
  | declaration
  | comment (mode : CommentMode)
  /-- in an element without markup of its own -/
  | raw (element : List Char)
  | rawBracket (element : List Char)
  /-- behind `</` in such an element, and what has been read since -/
  | rawEnd (element read : List Char)
deriving DecidableEq, Repr

/-- The elements in which only their own closing tag is one. -/
def isRawElement (name : List Char) : Bool :=
  ["script".toList, "style".toList, "textarea".toList, "title".toList].contains name

def finish (tag : Tag) : Mode × List Lexeme :=
  (if !tag.closing && isRawElement tag.name then .raw tag.name else .text, [.tag tag])

def textStep (c : Char) : Mode × List Lexeme :=
  if c = '<' then (.bracket, []) else (.text, [.char c])

def rawStep (element : List Char) (c : Char) : Mode × List Lexeme :=
  if c = '<' then (.rawBracket element, []) else (.raw element, [.raw c])

/-- Puts characters that turned out to open nothing in front. -/
def behind (held : List Lexeme) (next : Mode × List Lexeme) : Mode × List Lexeme :=
  (next.1, held ++ next.2)

/-- How a character between attributes is read. -/
def gapStep (tag : Tag) (c : Char) : Mode × List Lexeme :=
  if isSpace c || c = '/' then (.gap tag, [])
  else if c = '>' then finish tag
  else (.attributeName tag [Text.lowerAscii c], [])

/-- How a character of the name of a tag, or behind it, is read. -/
def nameStep (tag : Tag) (c : Char) : Mode × List Lexeme :=
  if isSpace c || c = '/' then (.gap tag, [])
  else if c = '>' then finish tag
  else (.tagName { tag with name := tag.name ++ [Text.lowerAscii c] }, [])

def CommentMode.step : CommentMode → Char → Option CommentMode
  | .start, c => if c = '-' then some .startDash else if c = '>' then none else some .inside
  | .startDash, c => if c = '-' then some .dashes else if c = '>' then none else some .inside
  | .inside, c => if c = '-' then some .dash else some .inside
  | .dash, c => if c = '-' then some .dashes else some .inside
  | .dashes, c =>
    if c = '-' then some .dashes else if c = '!' then some .bang
    else if c = '>' then none else some .inside
  | .bang, c => if c = '-' then some .dash else if c = '>' then none else some .inside

def Mode.step : Mode → Char → Mode × List Lexeme
  | .text, c => textStep c
  | .bracket, c =>
    if Text.isAsciiLetter c then (.tagName { closing := false, name := [Text.lowerAscii c] }, [])
    else if c = '/' then (.endBracket, [])
    else if c = '!' then (.bang, [])
    else if c = '?' then (.declaration, [])
    else behind [.char '<'] (textStep c)
  | .endBracket, c =>
    if Text.isAsciiLetter c then (.tagName { closing := true, name := [Text.lowerAscii c] }, [])
    else if c = '>' then (.text, [])
    else (.declaration, [])
  | .tagName tag, c => nameStep tag c
  | .gap tag, c => gapStep tag c
  | .attributeName tag name, c =>
    if isSpace c then (.afterAttribute tag name, [])
    else if c = '=' then (.equals tag name, [])
    else if c = '/' || c = '>' then gapStep (tag.plus (.flag name)) c
    else (.attributeName tag (name ++ [Text.lowerAscii c]), [])
  | .afterAttribute tag name, c =>
    if isSpace c then (.afterAttribute tag name, [])
    else if c = '=' then (.equals tag name, [])
    else gapStep (tag.plus (.flag name)) c
  | .equals tag name, c =>
    if isSpace c then (.equals tag name, [])
    else if c = '"' || c = '\'' then (.quoted tag name c [], [])
    else if c = '>' then finish (tag.plus (.value none name []))
    else (.unquoted tag name [c], [])
  | .quoted tag name quote value, c =>
    if c = quote then (.gap (tag.plus (.value (some quote) name value)), [])
    else (.quoted tag name quote (value ++ [c]), [])
  | .unquoted tag name value, c =>
    if isSpace c || c = '>' then gapStep (tag.plus (.value none name value)) c
    else (.unquoted tag name (value ++ [c]), [])
  | .bang, c =>
    if c = '-' then (.bangDash, []) else if c = '>' then (.text, [.aside]) else (.declaration, [])
  | .bangDash, c =>
    if c = '-' then (.comment .start, [])
    else if c = '>' then (.text, [.aside]) else (.declaration, [])
  | .declaration, c => if c = '>' then (.text, [.aside]) else (.declaration, [])
  | .comment mode, c =>
    match mode.step c with
    | some mode => (.comment mode, [])
    | none => (.text, [.aside])
  | .raw element, c => rawStep element c
  | .rawBracket element, c =>
    if c = '/' then (.rawEnd element [], []) else behind [.raw '<'] (rawStep element c)
  | .rawEnd element read, c =>
    if Text.isAsciiLetter c then (.rawEnd element (read ++ [c]), [])
    else if read.map Text.lowerAscii = element && (isSpace c || c = '/' || c = '>') then
      nameStep { closing := true, name := element } c
    else behind (.raw '<' :: .raw '/' :: read.map .raw) (rawStep element c)

def tagLexer : Machine Mode Char Lexeme := ⟨Mode.step⟩

/-! ## Items -/

/-- What markup consists of; in texts and values the references have been put in. -/
inductive Item where
  | text (s : List Char)
  | tag (tag : Tag)
  | aside
  | raw (c : Char)
deriving DecidableEq, Repr

def Found.map (f : List Char → List Char) : Found → Found
  | .value quote name text => .value quote name (f text)
  | .flag name => .flag name

def Tag.map (f : List Char → List Char) (tag : Tag) : Tag :=
  { tag with attributes := tag.attributes.map (Found.map f) }

/-- The text between two other items; an empty one is none. -/
def textItem (s : List Char) : List Item := if s = [] then [] else [.text s]

/-- The items of lexemes; `s` holds the characters since the last item. -/
def itemsFrom (refs : References) (s : List Char) : List Lexeme → List Item
  | [] => textItem (refs.decode s)
  | .char c :: lexemes => itemsFrom refs (s ++ [c]) lexemes
  | .tag tag :: lexemes =>
    textItem (refs.decode s) ++ .tag (tag.map refs.decode) :: itemsFrom refs [] lexemes
  | .aside :: lexemes => textItem (refs.decode s) ++ .aside :: itemsFrom refs [] lexemes
  | .raw c :: lexemes => textItem (refs.decode s) ++ .raw c :: itemsFrom refs [] lexemes

/-- The characters that were held back when the markup ended. -/
def Mode.held : Mode → List Lexeme
  | .bracket => [.char '<']
  | .endBracket => [.char '<', .char '/']
  | .rawBracket _ => [.raw '<']
  | .rawEnd _ read => .raw '<' :: .raw '/' :: read.map .raw
  | _ => []

/-- The lexemes of a whole text. -/
def lexemes (s : List Char) : List Lexeme :=
  (tagLexer.run .text s).2 ++ (tagLexer.run .text s).1.held

/-- What markup consists of, as the reader sees it. -/
def items (refs : References) (markup : String) : List Item :=
  itemsFrom refs [] (lexemes markup.toList)

/-- Texts that meet are one text. -/
def mergedFrom (s : List Char) : List Item → List Item
  | [] => textItem s
  | .text t :: items => mergedFrom (s ++ t) items
  | .tag tag :: items => textItem s ++ .tag tag :: mergedFrom [] items
  | .aside :: items => textItem s ++ .aside :: mergedFrom [] items
  | .raw c :: items => textItem s ++ .raw c :: mergedFrom [] items

def merged (items : List Item) : List Item := mergedFrom [] items

example : lexemes "<A b=' \"> ' c>x<!-- > --></a>".toList =
    [.tag ⟨false, ['a'], [.value (some '\'') ['b'] [' ', '"', '>', ' '], .flag ['c']]⟩, .char 'x',
      .aside, .tag ⟨true, ['a'], []⟩] := by
  decide +kernel

end StaticSite.Markup
