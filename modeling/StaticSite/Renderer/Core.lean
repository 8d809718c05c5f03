import StaticSite.Catalog
import StaticSite.Markdown
import StaticSite.Number.Reading
import StaticSite.Renderer
import StaticSite.Renderer.Code
import StaticSite.Style.Text

/-!
# The core renderers

One renderer for each core component type. Props are inserted as text or as attribute values, which
the writer of markup escapes; only rich text, listings and raw markup are ready when inserted.
-/

namespace StaticSite.Renderer

open Markup (Node Attribute)

/-- The text of a prop, or a text that stands for an absent one. -/
def propText (heap : Heap) (props : Entries) (key absent : String) : String :=
  match props.get? key with
  | some value => value.text heap
  | none => absent

/-- The text of a prop that is present and not empty. -/
def filledText? (heap : Heap) (props : Entries) (key : String) : Option String :=
  let value := props.get key
  if heap.isTruthy value then some (value.text heap) else none

/-- Whether a prop is set; an absent one counts as `absent`. -/
def isSet (heap : Heap) (props : Entries) (key : String) (absent : Bool) : Bool :=
  match props.get? key with
  | some value => heap.isTruthy value
  | none => absent

/-- The integer of a prop; `fallback` for what stands for none. An infinity is refused. -/
def integerOr (fallback : Int) : Option Value → Except Fault Int
  | some (.bool b) => .ok (if b then 1 else 0)
  | some (.int n) => .ok n
  | some (.float (.infinity _)) => .error .infiniteInteger
  | some (.float x) => .ok (x.truncate?.getD fallback)
  | some (.str s) => .ok ((Number.readInt? s).getD fallback)
  | _ => .ok fallback

def classOf (context : Context) : Attribute := .value "class" context.className

/-- The class of a component with one more class beside it. -/
def classWith (context : Context) (more : String) : Attribute :=
  .value "class" (context.className ++ " " ++ more)

/-- An attribute for a prop that is present and not empty. -/
def filled (heap : Heap) (props : Entries) (key name : String) : List Attribute :=
  ((filledText? heap props key).map (.value name)).toList

/-- Nodes on lines of their own, between two line ends. -/
def onLines (nodes : List Node) : List Node :=
  [Markup.line] ++ nodes.intersperse Markup.line ++ [Markup.line]

def backgroundStyle : Value → List Attribute
  | .str url =>
    if url = "" then []
    else [.value "style" ("background-image: url(\"" ++ Style.urlText url ++ "\")")]
  | _ => []

def sectionNode (heap : Heap) (props : Entries) (children : Children) (context : Context) : Node :=
  let attributes := [classOf context] ++ filled heap props "anchor" "id" ++
    backgroundStyle (props.get "backgroundImage")
  let heading :=
    match filledText? heap props "title" with
    | some title => [.element "h2" [] [.text title], Markup.line]
    | none => []
  .element "section" attributes
    ([Markup.line] ++ heading ++ [.ready children.joined, Markup.line])

def containerTags : List String := ["div", "main", "header", "footer", "nav", "aside"]

/-- The tag of a container; a list or a mapping cannot be looked for among the tags. -/
def containerTag (heap : Heap) (props : Entries) : Except Fault String :=
  match props.get "tag" with
  | .str tag => .ok (if tag ∈ containerTags then tag else "div")
  | .unknown => .ok "div"
  | value =>
    match heap.unhashable? value with
    | some kind => .error (.notHashable kind)
    | none => .ok "div"

def containerNode (heap : Heap) (props : Entries) (children : Children) (context : Context) :
    Except Fault Node := do
  let tag ← containerTag heap props
  return .element tag [classOf context] [Markup.line, .ready children.joined, Markup.line]

def columnsNode (children : Children) (context : Context) : Node :=
  let columns := (Ordered.values children).map fun markup =>
    Node.element "div" [.value "class" "column"] [.ready markup]
  .element "div" [classWith context "columns"] (onLines columns)

/-- The level of a heading, from one to six. -/
def headingLevel (value : Option Value) : Except Fault Int := do
  let level ← integerOr 2 value
  return min (max level 1) 6

def headingNode (heap : Heap) (props : Entries) (context : Context) : Except Fault Node := do
  let level ← headingLevel (props.get? "level")
  return .element ("h" ++ toString level) [classOf context]
    [.text (propText heap props "text" "")]

/-- A paragraph; line ends of its text become line breaks. -/
def textNode (heap : Heap) (props : Entries) (context : Context) : Node :=
  let lines := Text.splitOnChar '\n' (propText heap props "text" "").toList
  let nodes := lines.map fun line => Node.text (String.ofList line)
  .element "p" [classOf context] (nodes.intersperse (.void "br" []))

def richTextNode (heap : Heap) (props : Entries) (context : Context) : Node :=
  let body := Markdown.markup (propText heap props "content" "")
  .element "div" [classWith context "rich-text"] (onLines [.ready body])

/-- An image with the attributes that its props give, after those given here. -/
def imageNode (heap : Heap) (props : Entries) (attributes : List Attribute) : Node :=
  let loading := if isSet heap props "lazy" true then [Attribute.value "loading" "lazy"] else []
  .void "img" (attributes ++
    [.value "src" (propText heap props "src" ""), .value "alt" (propText heap props "alt" "")] ++
    filled heap props "width" "width" ++ filled heap props "height" "height" ++ loading)

def linkedImageNode (heap : Heap) (props : Entries) (context : Context) : Node :=
  match filledText? heap props "href" with
  | some href => .element "a" [classOf context, .value "href" href] [imageNode heap props []]
  | none => imageNode heap props [classOf context]

/-- A picture of a gallery; what is no mapping or has no source is no picture. -/
def figureNode? (heap : Heap) (item : Value) : Option Node := do
  let props ← heap.dict? item
  let _ ← filledText? heap props "src"
  let caption :=
    match filledText? heap props "caption" with
    | some caption => [Node.element "figcaption" [] [.text caption]]
    | none => []
  some (.element "figure" [] (imageNode heap props [] :: caption))

/-- The items of a gallery; a text or a mapping has no pictures among its parts. -/
def galleryItems (heap : Heap) (value : Value) : Except Fault (List Value) :=
  if !heap.isTruthy value then .ok []
  else
    match value with
    | .str _ => .ok []
    | .tuple _ items => .ok items
    | .ref id =>
      match heap.container? id with
      | some (.list items) => .ok items
      | _ => .ok []
    | value => .error (.notIterable (heap.kind value))

def galleryNode (heap : Heap) (props : Entries) (context : Context) : Except Fault Node := do
  let items ← galleryItems heap (props.get "items")
  return .element "div" [classWith context "gallery"]
    (onLines (items.filterMap (figureNode? heap)))

def buttonNode (heap : Heap) (props : Entries) (context : Context) : Node :=
  let label := Node.text (propText heap props "label" "")
  match filledText? heap props "href" with
  | some href => .element "a" [classWith context "button", .value "href" href] [label]
  | none => .element "button" [classOf context, .value "type" "button"] [label]

def linkNode (heap : Heap) (props : Entries) (context : Context) : Node :=
  let tab :=
    if isSet heap props "newTab" false then
      [Attribute.value "target" "_blank", .value "rel" "noopener"]
    else []
  .element "a" ([classOf context, .value "href" (propText heap props "href" "#")] ++ tab)
    [.text (propText heap props "text" "")]

def videoNode (heap : Heap) (props : Entries) (context : Context) : Node :=
  let flags := ["controls", "autoplay", "loop", "muted"].filter fun flag =>
    isSet heap props flag (flag = "controls")
  .element "video" ([classOf context, .value "src" (propText heap props "src" "")] ++
    filled heap props "poster" "poster" ++ flags.map .flag) []

def spacerNode (props : Entries) (context : Context) : Except Fault Node := do
  let height ← integerOr 32 (props.get? "height")
  return .element "div" [classOf context, .value "style" ("height: " ++ toString height ++ "px"),
    .value "aria-hidden" "true"] []

def codeNode (heap : Heap) (props : Entries) (context : Context) : Node :=
  let language := Listing.language heap props
  let numbered := isSet heap props "lineNumbers" false
  .element "div" [classOf context, .value "data-lang" language]
    [Listing.markup (propText heap props "code" "") language numbered]

def rawNode (heap : Heap) (props : Entries) (context : Context) : Node :=
  .element "div" [classOf context] [.ready (propText heap props "html" "")]

/-- The core component types and their renderers. -/
def core : Registry :=
  [("Section", ⟨"section", fun heap props children context =>
      .ok (sectionNode heap props children context)⟩),
   ("Container", ⟨"container", containerNode⟩),
   ("Columns", ⟨"columns", fun _ _ children context => .ok (columnsNode children context)⟩),
   ("Heading", ⟨"heading", fun heap props _ context => headingNode heap props context⟩),
   ("Text", ⟨"text", fun heap props _ context => .ok (textNode heap props context)⟩),
   ("RichText", ⟨"rich_text", fun heap props _ context => .ok (richTextNode heap props context)⟩),
   ("Image", ⟨"image", fun heap props _ context => .ok (linkedImageNode heap props context)⟩),
   ("Gallery", ⟨"gallery", fun heap props _ context => galleryNode heap props context⟩),
   ("Button", ⟨"button", fun heap props _ context => .ok (buttonNode heap props context)⟩),
   ("Link", ⟨"link", fun heap props _ context => .ok (linkNode heap props context)⟩),
   ("Video", ⟨"video", fun heap props _ context => .ok (videoNode heap props context)⟩),
   ("Spacer", ⟨"spacer", fun _ props _ context => spacerNode props context⟩),
   ("Divider", ⟨"divider", fun _ _ _ context => .ok (.void "hr" [classOf context])⟩),
   ("CodeBlock", ⟨"code_block", fun heap props _ context => .ok (codeNode heap props context)⟩),
   ("Html", ⟨"html", fun heap props _ context => .ok (rawNode heap props context)⟩)]

end StaticSite.Renderer

namespace StaticSite.Catalog

/-- What the core component types declare. -/
def core : Catalog :=
  ⟨[("Section", [("backgroundImage", "image"), ("title", "text")]),
    ("Container", [("backgroundImage", "image")]),
    ("Columns", []),
    ("Heading", [("text", "text"), ("level", "number")]),
    ("Text", [("text", "textarea")]),
    ("RichText", [("content", "markdown")]),
    ("Image", [("src", "image"), ("alt", "text"), ("href", "link")]),
    ("Gallery", [("src", "image"), ("alt", "text"), ("caption", "text")]),
    ("Button", [("label", "text"), ("href", "link")]),
    ("Link", [("text", "text"), ("href", "link")]),
    ("Video", [("src", "video"), ("poster", "image")]),
    ("Spacer", [("height", "number")]),
    ("Divider", []),
    ("CodeBlock", [("code", "code"), ("language", "text"), ("filename", "text")]),
    ("Html", [("html", "code")])]⟩

end StaticSite.Catalog
