import StaticSite.Asset
import StaticSite.Asset.Reference
import StaticSite.Asset.Walk
import StaticSite.Component

/-!
# Finding the assets of a page

Every reference in the props of the components is recorded once, at its first occurrence, together
with the ids of all components that refer to it.
-/

namespace StaticSite.Asset

/-- The accepted references of a component, each with its key. -/
def references (heap : Heap) (catalog : Option Catalog) (component : Component) :
    List Value.Occurrence :=
  let fields := Catalog.urlFields? catalog component.type
  match heap.dict? component.props with
  | none => []
  | some _ =>
    (Value.strings heap none component.props).filter fun (key, s) => isReference key s fields

/-- The kind that a component type declares for a key. -/
def declaredKind (catalog : Option Catalog) (type : String) (key : Option String) :
    Option String :=
  match Catalog.urlFields? catalog type, key with
  | some fields, some key => Ordered.get? fields key
  | _, _ => none

/-- The record of a URL at its first occurrence. -/
def found (url componentId : String) (kind : Option String) : Asset :=
  let (type, mimeType) := classify url kind
  { id := idOf url, url, optimizedUrl := url, type, mimeType,
    usedBy := [componentId] }

def addUser (asset : Asset) (componentId : String) : Asset :=
  if componentId ∈ asset.usedBy then asset
  else { asset with usedBy := asset.usedBy ++ [componentId] }

/-- Records a reference: a new URL goes last, a known one gets one more user. -/
def record (assets : List Asset) (url componentId : String) (kind : Option String) : List Asset :=
  match assets with
  | [] => [found url componentId kind]
  | asset :: rest =>
    if asset.id = idOf url then asset.addUser componentId :: rest
    else asset :: record rest url componentId kind

def recordComponent (heap : Heap) (catalog : Option Catalog) (assets : List Asset)
    (component : Component) : List Asset :=
  (references heap catalog component).foldl
    (fun assets (key, url) =>
      record assets url component.id (declaredKind catalog component.type key))
    assets

/-- The assets that the components refer to, in the order of their first occurrence. -/
def extract (heap : Heap) (catalog : Option Catalog) (entries : List Entry) : List Asset :=
  (entries.filterMap Entry.component?).foldl (recordComponent heap catalog) []

end StaticSite.Asset
