import StaticSite.Fault
import StaticSite.Text.Blank
import StaticSite.Value.Setting

/-!
# Pages

A page has an id, a slug that gives its address, and the ids of the components at its root.
-/

namespace StaticSite

structure Page where
  id : String
  slug : Option String
  title : Option String
  roots : List String := []
  description : Value := .null
  updatedAt : Option String := none
deriving Repr

/-- A base and a path with one slash between them. -/
def joinAddress (base path : String) : String :=
  let isSlash (c : Char) : Bool := c = '/'
  String.ofList (Text.dropTail isSlash base.toList) ++ "/" ++
    String.ofList (path.toList.dropWhile isSlash)

/-- The text of a base; what is no text is no base. -/
def baseText (heap : Heap) : Value → Except Fault String
  | .str s => .ok s
  | value => .error (.missingOperation (heap.kind value) "rstrip")

namespace Page

/-- The directory of the page's files: the slug without slashes around it, or else the id. -/
def pathSegment (page : Page) : String :=
  let stripped := String.ofList (Text.trimBy (· = '/') (page.slug.getD "").toList)
  if stripped = "" then page.id else stripped

/-- The address of the page below `base`. -/
def address (page : Page) (base : String) : String :=
  let slug := page.slug.getD ""
  joinAddress base (if slug = "" then page.id else slug)

def homeSlugs : List String := ["", "home"]

/-- The home page comes before all others. -/
def priority (page : Page) : String :=
  match page.slug with
  | some slug => if slug ∈ homeSlugs then "1.0" else "0.8"
  | none => "0.8"

end Page

end StaticSite
