import StaticSite.Fault
import StaticSite.Markup.Node
import StaticSite.Markup.Template
import StaticSite.Page

/-!
# The document of a page

The document around a page's markup, and the tags that bring in its style sheet.
-/

namespace StaticSite.Page

open Markup (Node)

def template : String :=
  "<!DOCTYPE html>\n<html lang=\"\x7b\x7blang\x7d\x7d\">\n<head>\n<meta charset=\"utf-8\">\n" ++
  "<meta name=\"viewport\" content=\"width=device-width, initial-scale=1\">\n" ++
  "<title>\x7b\x7btitle\x7d\x7d</title>\n" ++
  "\x7b\x7bdescription\x7d\x7d<link rel=\"canonical\" href=\"\x7b\x7bcanonical\x7d\x7d\">\n" ++
  "\x7b\x7bstyles\x7d\x7d\n\x7b\x7bhead_content\x7d\x7d\n</head>\n<body>\n" ++
  "\x7b\x7bbody\x7d\x7d\n\x7b\x7bscripts\x7d\x7d\n</body>\n</html>\n"

def stylesheetName : String := "styles.css"

def stylesheetLink (href : String) : Node :=
  .void "link" [.value "rel" "stylesheet", .value "href" href]

/-- A link that is fetched early and becomes the style sheet once it is there. -/
def preloadLink (href : String) : Node :=
  .ready ("<link rel=\"preload\" href=\"" ++ Markup.escape href ++
    "\" as=\"style\" onload=\"this.onload=null;this.rel='stylesheet'\">")

/-- The tags of a style sheet, linked or inlined. -/
def styleTags (sheet : String) (inlined : Bool) (href : String) : String :=
  if inlined then
    Markup.writeAll [.element "style" [] [.ready sheet], Markup.line, preloadLink href, Markup.line,
      .element "noscript" [] [stylesheetLink href]]
  else (stylesheetLink href).write

/-- What stands around the markup of a page. -/
structure Surroundings where
  baseUrl : Value := .str ""
  headContent : String := ""
  bodyScripts : String := ""
  lang : String := "en"
deriving Repr

/-- The tag for a description; only text can be one. -/
def descriptionTag (heap : Heap) (description : Value) : Except Fault String :=
  if heap.isTruthy description then
    match description with
    | .str s =>
      let tag := Node.void "meta" [.value "name" "description", .value "content" s]
      .ok (Markup.writeAll [tag, Markup.line])
    | .date _ => .error (.notInteger .str)
    | .datetime _ => .error (.notInteger .str)
    | .time _ => .error (.notInteger .str)
    | value => .error (.missingOperation (heap.kind value) "replace")
  else .ok ""

/-- The whole document. -/
def document (page : Page) (heap : Heap) (body styles : String) (around : Surroundings) :
    Except Fault String := do
  let description ← descriptionTag heap page.description
  let base ← baseText heap around.baseUrl
  return Markup.fill template
    [("lang", Markup.escape around.lang), ("title", Markup.escape (page.title.getD "")),
     ("description", description), ("canonical", Markup.escape (page.address base)),
     ("styles", styles), ("head_content", around.headContent), ("body", body),
     ("scripts", around.bodyScripts)]

end StaticSite.Page
