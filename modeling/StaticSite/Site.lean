import StaticSite.Catalog
import StaticSite.Component
import StaticSite.Fault
import StaticSite.Page

/-!
# Site definitions

A site file holds pages and the field kinds of component types. Components come as a list or keyed
by id; a page comes with its components beside its root, or in the form of an editor, where zones
name their parents.
-/

namespace StaticSite

/-- The items that a value holds: those of a list, the keys of a mapping, the letters of a text. -/
def Heap.items (heap : Heap) : Value → Except Fault (List Value)
  | .tuple _ items => .ok items
  | .str s => .ok (s.toList.map fun c => .str c.toString)
  | .unknown => .ok []
  | .ref id =>
    match heap.container? id with
    | some (.list items) => .ok items
    | some (.dict entries) => .ok (entries.map (·.1))
    | none => .ok []
  | value => .error (.notIterable (heap.kind value))

/-- The items of a value; none where it is absent or empty. -/
def Heap.itemsOrNone (heap : Heap) (value : Value) : Except Fault (List Value) :=
  if heap.isTruthy value then heap.items value else .ok []

/-- The entries of a value that must be a mapping unless it is absent or empty. -/
def Heap.entriesOrNone (heap : Heap) (value : Value) (operation : String) :
    Except Fault Entries :=
  if heap.isTruthy value then
    match heap.dict? value with
    | some entries => .ok entries
    | none => .error (.missingOperation (heap.kind value) operation)
  else .ok []

/-- The first of two values that is present and not empty, or else the second. -/
def Heap.either (heap : Heap) (first second : Value) : Value :=
  if heap.isTruthy first then first else second

/-- The text of a value; none where it is absent or empty. -/
def Heap.textOrEmpty (heap : Heap) (value : Value) : String :=
  if heap.isTruthy value then value.text heap else ""

structure SitePage where
  page : Page
  components : List Component
deriving Repr

structure Site where
  pages : List SitePage := []
  schemas : Catalog := {}
deriving Repr

namespace Site

abbrev Zones := Ordered (List String)

def defaultZone : String := "default"

/-- Adds ids to a zone, which is made if it is not there. -/
def extendZone (zones : Zones) (zone : String) (ids : List String) : Zones :=
  Ordered.put zones zone ((Ordered.get? zones zone).getD [] ++ ids)

/-- The ids that a value lists. -/
def ids (heap : Heap) (value : Value) : Except Fault (List String) := do
  let items ← heap.itemsOrNone value
  return items.map (Value.text heap)

/-- The zones of a component, with its children in the default zone. -/
def componentZones (heap : Heap) (data : Entries) : Except Fault Zones := do
  let named ← heap.entriesOrNone (data.get "zones") "items"
  let zones ← named.foldlM
    (fun zones (name, children) => do
      let children ← ids heap children
      return Ordered.put zones (name.text heap) children)
    ([] : Zones)
  if heap.isTruthy (data.get "children") then
    let children ← ids heap (data.get "children")
    return extendZone zones defaultZone children
  else return zones

/-- A component's props; without any it gets an empty mapping of its own. -/
def componentProps (heap : Heap) (id : String) (value : Value) : Except Fault (Value × Heap) :=
  if heap.isTruthy value then
    match heap.dict? value with
    | some _ => .ok (value, heap)
    | none => .error (.propsNotMapping id)
  else
    let (place, heap) := heap.add (.dict [])
    .ok (.ref place, heap)

/-- A component from its data; `fallback` is its id when the data names none. -/
def readComponent (heap : Heap) (data fallback : Value) : Except Fault (Component × Heap) := do
  let some entries := heap.dict? data | throw (.componentNotMapping (heap.kind data))
  let id := Text.trimString (heap.textOrEmpty (heap.either (entries.get "id") fallback))
  if id = "" then throw .componentWithoutId
  let type := entries.get "type"
  if !heap.isTruthy type then throw (.componentWithoutType id)
  let (props, heap) ← componentProps heap id (entries.get "props")
  let zones ← componentZones heap entries
  return ({ id, type := type.text heap, props, zones }, heap)

/-- Components one after the other, each with its fallback id. -/
def readEach (heap : Heap) : List (Value × Value) → Except Fault (List Component × Heap)
  | [] => .ok ([], heap)
  | (data, fallback) :: rest => do
    let (component, heap) ← readComponent heap data fallback
    let (components, heap) ← readEach heap rest
    return (component :: components, heap)

/-- The components of a list, or of a mapping keyed by id. -/
def readComponents (heap : Heap) (value : Value) : Except Fault (List Component × Heap) :=
  match heap.dict? value, heap.list? value, value with
  | some entries, _, _ => readEach heap (entries.map fun (key, data) => (data, key))
  | none, some items, _ => readEach heap (items.map fun data => (data, .null))
  | none, none, .null => .ok ([], heap)
  | none, none, _ => .error .componentsNotListed

/-- The parent and the zone that a key names; without a zone it is the default one. -/
def zoneKey (key : String) : String × String :=
  match Text.splitAtMark? [':'] key.toList with
  | some (parent, []) => (String.ofList parent, defaultZone)
  | some (parent, zone) => (String.ofList parent, String.ofList zone)
  | none => (key, defaultZone)

/-- Changes the last component with an id. -/
def changeLast (id : String) (change : Component → Component) (components : List Component) :
    List Component :=
  match components with
  | [] => []
  | component :: rest =>
    if component.id = id ∧ !(rest.any fun other => other.id = id) then change component :: rest
    else component :: changeLast id change rest

/-- Adds the ids of one zone to its parent; a zone without a parent is left out. -/
def addZone (heap : Heap) (components : List Component) (entry : Value × Value) :
    Except Fault (List Component) := do
  let (parent, zone) := zoneKey (entry.1.text heap)
  if components.any fun component => component.id = parent then
    let children ← ids heap entry.2
    return changeLast parent
      (fun component => { component with zones := extendZone component.zones zone children })
      components
  else return components

/-- The content of a page: its root ids, its components and the props of its root. -/
structure Content where
  roots : List String
  components : List Component
  rootProps : Value

/-- The form of an editor: zones keyed by parent, and a root with children and props. -/
def readEditorContent (heap : Heap) (content : Entries) : Except Fault (Content × Heap) := do
  let (components, heap) ← readComponents heap (content.get "components")
  let zones ← heap.entriesOrNone (content.get "zones") "items"
  let components ← zones.foldlM (addZone heap) components
  let root ← heap.entriesOrNone (content.get "root") "get"
  let roots ← ids heap (root.get "children")
  return ({ roots, components, rootProps := root.get "props" }, heap)

/-- The flat form: the root's ids beside the components. -/
def readFlatContent (heap : Heap) (data : Entries) : Except Fault (Content × Heap) := do
  let root ← heap.entriesOrNone (data.get "rootZone") "get"
  let roots ← ids heap (root.get "componentIds")
  let (components, heap) ← readComponents heap (data.get "components")
  return ({ roots, components, rootProps := .null }, heap)

def readContent (heap : Heap) (data : Entries) : Except Fault (Content × Heap) :=
  match heap.dict? (data.get "content") with
  | some content => readEditorContent heap content
  | none => readFlatContent heap data

/-- A field of the page; where it is absent or empty, the field of the root's props. -/
def fieldOr (heap : Heap) (data : Entries) (rootProps : Value) (key : String) :
    Except Fault Value :=
  if heap.isTruthy (data.get key) then .ok (data.get key)
  else do
    let props ← heap.entriesOrNone rootProps "get"
    return props.get key

/-- The slug without blanks and slashes around it. -/
def slugText (heap : Heap) (value : Value) : String :=
  String.ofList (Text.trimBy (· = '/') (Text.trim (heap.textOrEmpty value).toList))

def readPage (heap : Heap) (value : Value) : Except Fault (SitePage × Heap) := do
  let some data := heap.dict? value | throw .pageNotMapping
  let id := Text.trimString (heap.textOrEmpty (data.get "id"))
  if id = "" then throw .pageWithoutId
  let (content, heap) ← readContent heap data
  let title ← fieldOr heap data content.rootProps "title"
  let description ← fieldOr heap data content.rootProps "description"
  let page : Page :=
    { id, slug := some (slugText heap (data.get "slug")), title := some (heap.textOrEmpty title)
      roots := content.roots, description
      updatedAt := (data.get "updatedAt").timestamp? heap }
  return ({ page, components := content.components }, heap)

def readPages (heap : Heap) : List Value → Except Fault (List SitePage × Heap)
  | [] => .ok ([], heap)
  | value :: values => do
    let (page, heap) ← readPage heap value
    let (pages, heap) ← readPages heap values
    return (page :: pages, heap)

/-- The field kinds of one component type. -/
def declareSchema (heap : Heap) (catalog : Catalog) (entry : Value × Value) :
    Except Fault Catalog := do
  let some fields := heap.dict? entry.2 | throw (.missingOperation (heap.kind entry.2) "items")
  let fields := fields.map fun (key, kind) => (key.text heap, kind.text heap)
  return catalog.declare (entry.1.text heap) (Ordered.ofList fields)

/-- The fields of a site; a list is a site that has only pages. -/
def siteFields (heap : Heap) (value : Value) : Except Fault Entries :=
  match heap.list? value, heap.dict? value with
  | some _, _ => .ok [(.str "pages", value)]
  | none, some entries => .ok entries
  | none, none => .error .siteNotMapping

def ofValue (heap : Heap) (value : Value) : Except Fault (Site × Heap) := do
  let fields ← siteFields heap value
  let values ← heap.itemsOrNone (fields.get "pages")
  let (pages, heap) ← readPages heap values
  let declared ← heap.entriesOrNone (fields.get "schemas") "items"
  let schemas ← declared.foldlM (declareSchema heap) {}
  return ({ pages, schemas }, heap)

end Site

end StaticSite
