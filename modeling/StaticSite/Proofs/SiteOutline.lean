import StaticSite.Proofs.Growth

/-!
# Outlines of sites

What the data of a site says it is, read without any check: what has the wrong kind counts as empty.
An outline still holds the values that a list of references lists, at the places where the site will
have their texts. Beside it stand the defects of the data, all of them, in reading order.
-/

namespace StaticSite

/-! ## Ordered maps -/

namespace Ordered

variable {α β : Type}

/-- The same names with other values. -/
def mapValues (f : α → β) (map : Ordered α) : Ordered β := map.map fun entry => (entry.1, f entry.2)

theorem put_mapValues (f : α → β) (map : Ordered α) (name : String) (value : α) :
    put (mapValues f map) name (f value) = mapValues f (put map name value) := by
  induction map with
  | nil => rfl
  | cons entry map ih =>
    obtain ⟨n, v⟩ := entry
    by_cases same : n = name
    · simp [put, mapValues, same]
    · simpa [put, mapValues, same] using ih

theorem get?_mapValues (f : α → β) (map : Ordered α) (name : String) :
    get? (mapValues f map) name = (get? map name).map f := by
  induction map with
  | nil => rfl
  | cons entry map ih =>
    obtain ⟨n, v⟩ := entry
    by_cases same : n = name
    · simp [get?, mapValues, same]
    · simpa [get?, mapValues, same] using ih

end Ordered

/-! ## Values of whatever kind -/

/-- The kinds that can be gone through. -/
def Kind.isIterable : Kind → Bool
  | .str => true
  | .unknown => true
  | .tuple => true
  | .dict => true
  | .list => true
  | _ => false

namespace Heap

variable (heap : Heap) (value : Value)

/-- The items of a value; none where it is absent or cannot be gone through. -/
def listed : List Value := (heap.itemsOrNone value).toOption.getD []

/-- The entries of a mapping; none where it is absent or no mapping. -/
def entries : Entries := (heap.dict? value).getD []

/-- A value that is present is wanted as a list, and cannot be gone through. -/
def listDefects : List Fault :=
  if heap.isTruthy value ∧ (heap.kind value).isIterable = false then
    [.notIterable (heap.kind value)]
  else []

/-- A value that is present is wanted as a mapping, and is none. -/
def mappingDefects (operation : String) : List Fault :=
  if heap.isTruthy value ∧ heap.dict? value = none then
    [.missingOperation (heap.kind value) operation]
  else []

theorem entries_of_dict? {heap : Heap} {value : Value} {entries : Entries}
    (found : heap.dict? value = some entries) : heap.entries value = entries := by
  rw [Heap.entries, found, Option.getD_some]

end Heap

namespace Site

/-! ## Components -/

/-- A component whose zones still hold the values that they list. -/
structure Outline where
  id : String
  type : String
  props : Value
  zones : Ordered (List Value)

/-- The zones with the texts of their values. -/
def zoneTexts (heap : Heap) (zones : Ordered (List Value)) : Zones :=
  zones.mapValues fun values => values.map (Value.text heap)

/-- The component: a value refers to the component that has its text as an id. -/
def Outline.component (heap : Heap) (outline : Outline) : Component :=
  { id := outline.id, type := outline.type, props := outline.props
    zones := zoneTexts heap outline.zones }

/-- Adds values to a zone, which is made if it is not there. -/
def extendList (zones : Ordered (List Value)) (zone : String) (values : List Value) :
    Ordered (List Value) :=
  zones.put zone ((zones.get? zone).getD [] ++ values)

@[simp]
theorem Outline.id_component (heap : Heap) (outline : Outline) :
    (outline.component heap).id = outline.id := rfl

theorem put_texts (heap : Heap) (zones : Ordered (List Value)) (zone : String)
    (values : List Value) :
    Ordered.put (zoneTexts heap zones) zone (values.map (Value.text heap)) =
      zoneTexts heap (Ordered.put zones zone values) :=
  Ordered.put_mapValues _ zones zone values

theorem extendZone_texts (heap : Heap) (zones : Ordered (List Value)) (zone : String)
    (values : List Value) :
    extendZone (zoneTexts heap zones) zone (values.map (Value.text heap)) =
      zoneTexts heap (extendList zones zone values) := by
  have before : ((zoneTexts heap zones).get? zone).getD [] =
      ((zones.get? zone).getD []).map (Value.text heap) := by
    rw [zoneTexts, Ordered.get?_mapValues]
    cases zones.get? zone <;> rfl
  rw [extendZone, before, ← List.map_append, put_texts]
  rfl

/-- The zones that a component names, and its children in the default zone. -/
def zoneLists (heap : Heap) (data : Entries) : Ordered (List Value) :=
  let named := (heap.entries (data.get "zones")).foldl
    (fun zones entry => Ordered.put zones (entry.1.text heap) (heap.listed entry.2)) []
  if heap.isTruthy (data.get "children") then
    extendList named defaultZone (heap.listed (data.get "children"))
  else named

def zoneDefects (heap : Heap) (data : Entries) : List Fault :=
  heap.mappingDefects (data.get "zones") "items" ++
    ((heap.entries (data.get "zones")).flatMap (fun entry => heap.listDefects entry.2) ++
      heap.listDefects (data.get "children"))

/-- The id of an entry, or else the key that it stands under, without blanks around it. -/
def componentId (heap : Heap) (data : Entries) (key : Value) : String :=
  Text.trimString (heap.textOrEmpty (heap.either (data.get "id") key))

/-- The id of the component that an entry under a key describes. -/
def pairId (heap : Heap) (pair : Value × Value) : String :=
  componentId heap (heap.entries pair.1) pair.2

/-- Components without props have an empty mapping of their own, which `after` does not hold yet. -/
def propsOf (after : Heap) (value : Value) : Value × Heap :=
  if after.isTruthy value then (value, after)
  else (.ref (after.add (.dict [])).1, (after.add (.dict [])).2)

theorem grows_propsOf (after : Heap) (value : Value) : after.Grows (propsOf after value).2 := by
  unfold propsOf
  split
  · exact .refl after
  · exact after.grows_add (.dict [])

/-- The outlines of entries, each with the key that it stands under. -/
def outlinesOf (heap : Heap) : Heap → List (Value × Value) → List Outline × Heap
  | after, [] => ([], after)
  | after, pair :: pairs =>
    let data := heap.entries pair.1
    let props := propsOf after (data.get "props")
    let rest := outlinesOf heap props.2 pairs
    (⟨pairId heap pair, (data.get "type").text heap, props.1, zoneLists heap data⟩ :: rest.1,
      rest.2)

theorem grows_outlinesOf (heap after : Heap) (pairs : List (Value × Value)) :
    after.Grows (outlinesOf heap after pairs).2 := by
  induction pairs generalizing after with
  | nil => exact .refl after
  | cons pair pairs ih =>
    exact (grows_propsOf after ((heap.entries pair.1).get "props")).trans (ih _)

theorem map_id_outlinesOf (heap after : Heap) (pairs : List (Value × Value)) :
    (outlinesOf heap after pairs).1.map (·.id) = pairs.map (pairId heap) := by
  induction pairs generalizing after with
  | nil => rfl
  | cons pair pairs ih => simp only [outlinesOf, List.map_cons, ih]

def componentDefects (heap : Heap) (pair : Value × Value) : List Fault :=
  match heap.dict? pair.1 with
  | none => [.componentNotMapping (heap.kind pair.1)]
  | some data =>
    let id := componentId heap data pair.2
    let props := data.get "props"
    (if id = "" then [.componentWithoutId] else []) ++
      ((if !heap.isTruthy (data.get "type") then [.componentWithoutType id] else []) ++
        ((if heap.isTruthy props ∧ heap.dict? props = none then [.propsNotMapping id] else []) ++
          zoneDefects heap data))

/-- The entries of components, each with the key that it stands under; in a list there is none. -/
def componentPairs (heap : Heap) (value : Value) : List (Value × Value) :=
  match heap.dict? value, heap.list? value with
  | some entries, _ => entries.map fun entry => (entry.2, entry.1)
  | none, some items => items.map fun data => (data, .null)
  | none, none => []

def componentsDefects (heap : Heap) (value : Value) : List Fault :=
  (if heap.dict? value = none ∧ heap.list? value = none ∧ heap.kind value ≠ .null then
      [.componentsNotListed]
    else []) ++
    (componentPairs heap value).flatMap (componentDefects heap)

/-! ## Contents -/

/-- The content of a page whose lists still hold their values. -/
structure ContentOutline where
  roots : List Value
  components : List Outline
  rootProps : Value

def ContentOutline.content (heap : Heap) (outline : ContentOutline) : Content :=
  { roots := outline.roots.map (Value.text heap)
    components := outline.components.map (Outline.component heap)
    rootProps := outline.rootProps }

/-- Adds values to a zone of the last outline with an id. -/
def extendLast (id zone : String) (values : List Value) : List Outline → List Outline
  | [] => []
  | outline :: rest =>
    if outline.id = id ∧ !(rest.any fun other => other.id = id) then
      { outline with zones := extendList outline.zones zone values } :: rest
    else outline :: extendLast id zone values rest

theorem any_id_iff {id : String} {outlines : List Outline} :
    (outlines.any fun outline => outline.id = id) = true ↔ id ∈ outlines.map (·.id) := by
  simp

theorem any_id_component (heap : Heap) (id : String) (outlines : List Outline) :
    (outlines.map (Outline.component heap)).any (fun component => component.id = id) =
      outlines.any fun outline => outline.id = id := by
  rw [List.any_map]
  rfl

theorem changeLast_component (heap : Heap) (id zone : String) (values : List Value)
    (outlines : List Outline) :
    changeLast id
        (fun component =>
          { component with
            zones := extendZone component.zones zone (values.map (Value.text heap)) })
        (outlines.map (Outline.component heap)) =
      (extendLast id zone values outlines).map (Outline.component heap) := by
  induction outlines with
  | nil => rfl
  | cons outline rest ih =>
    rw [List.map_cons, changeLast, extendLast, any_id_component, ih, Outline.id_component]
    by_cases isLast : outline.id = id ∧ !(rest.any fun other => other.id = id)
    · rw [if_pos isLast, if_pos isLast, List.map_cons]
      simp only [Outline.component, extendZone_texts]
    · rw [if_neg isLast, if_neg isLast, List.map_cons]

theorem map_id_extendLast (id zone : String) (values : List Value) (outlines : List Outline) :
    (extendLast id zone values outlines).map (·.id) = outlines.map (·.id) := by
  induction outlines with
  | nil => rfl
  | cons outline rest ih =>
    unfold extendLast
    split
    · rfl
    · rw [List.map_cons, ih, List.map_cons]

/-- Adds the values of one zone to its parent; a zone without a parent is left out. -/
def placeZone (heap : Heap) (outlines : List Outline) (entry : Value × Value) : List Outline :=
  let key := zoneKey (entry.1.text heap)
  if outlines.any fun outline => outline.id = key.1 then
    extendLast key.1 key.2 (heap.listed entry.2) outlines
  else outlines

theorem map_id_placeZone (heap : Heap) (outlines : List Outline) (entry : Value × Value) :
    (placeZone heap outlines entry).map (·.id) = outlines.map (·.id) := by
  unfold placeZone
  dsimp only
  split
  · exact map_id_extendLast _ _ _ outlines
  · rfl

/-- A zone is only looked at if one of the ids is its parent. -/
def placedDefects (heap : Heap) (ids : List String) (entry : Value × Value) : List Fault :=
  if (zoneKey (entry.1.text heap)).1 ∈ ids then heap.listDefects entry.2 else []

def editorOutline (heap after : Heap) (content : Entries) : ContentOutline × Heap :=
  let components := outlinesOf heap after (componentPairs heap (content.get "components"))
  let root := heap.entries (content.get "root")
  ({ roots := heap.listed (root.get "children")
     components := (heap.entries (content.get "zones")).foldl (placeZone heap) components.1
     rootProps := root.get "props" }, components.2)

def editorDefects (heap : Heap) (content : Entries) : List Fault :=
  let ids := (componentPairs heap (content.get "components")).map (pairId heap)
  componentsDefects heap (content.get "components") ++
    (heap.mappingDefects (content.get "zones") "items" ++
      ((heap.entries (content.get "zones")).flatMap (placedDefects heap ids) ++
        (heap.mappingDefects (content.get "root") "get" ++
          heap.listDefects ((heap.entries (content.get "root")).get "children"))))

def flatOutline (heap after : Heap) (data : Entries) : ContentOutline × Heap :=
  let components := outlinesOf heap after (componentPairs heap (data.get "components"))
  ({ roots := heap.listed ((heap.entries (data.get "rootZone")).get "componentIds")
     components := components.1, rootProps := .null }, components.2)

def flatDefects (heap : Heap) (data : Entries) : List Fault :=
  heap.mappingDefects (data.get "rootZone") "get" ++
    (heap.listDefects ((heap.entries (data.get "rootZone")).get "componentIds") ++
      componentsDefects heap (data.get "components"))

def contentOutline (heap after : Heap) (data : Entries) : ContentOutline × Heap :=
  match heap.dict? (data.get "content") with
  | some content => editorOutline heap after content
  | none => flatOutline heap after data

theorem rootProps_contentOutline (heap after other : Heap) (data : Entries) :
    (contentOutline heap after data).1.rootProps =
      (contentOutline heap other data).1.rootProps := by
  unfold contentOutline
  split <;> rfl

theorem grows_contentOutline (heap after : Heap) (data : Entries) :
    after.Grows (contentOutline heap after data).2 := by
  unfold contentOutline
  split <;> exact grows_outlinesOf heap after _

def contentDefects (heap : Heap) (data : Entries) : List Fault :=
  match heap.dict? (data.get "content") with
  | some content => editorDefects heap content
  | none => flatDefects heap data

/-! ## Pages and sites -/

/-- A field of the page; where it is absent or empty, the field of the root's props. -/
def fieldOf (heap : Heap) (data : Entries) (rootProps : Value) (key : String) : Value :=
  if heap.isTruthy (data.get key) then data.get key else (heap.entries rootProps).get key

/-- The root's props are only looked at for a field that the page does not have itself. -/
def fieldDefects (heap : Heap) (data : Entries) (rootProps : Value) (key : String) : List Fault :=
  if heap.isTruthy (data.get key) then [] else heap.mappingDefects rootProps "get"

def pageId (heap : Heap) (data : Entries) : String :=
  Text.trimString (heap.textOrEmpty (data.get "id"))

/-- The page that a value describes, with the heap that holds its components' props. -/
def pageOf (heap after : Heap) (value : Value) : SitePage × Heap :=
  let data := heap.entries value
  let outline := contentOutline heap after data
  let rootProps := outline.1.rootProps
  let content := outline.1.content heap
  ({ page :=
       { id := pageId heap data
         slug := some (slugText heap (data.get "slug"))
         title := some (heap.textOrEmpty (fieldOf heap data rootProps "title"))
         roots := content.roots
         description := fieldOf heap data rootProps "description"
         updatedAt := (data.get "updatedAt").timestamp? heap }
     components := content.components }, outline.2)

def pageDefects (heap : Heap) (value : Value) : List Fault :=
  match heap.dict? value with
  | none => [.pageNotMapping]
  | some data =>
    let rootProps := (contentOutline heap heap data).1.rootProps
    (if pageId heap data = "" then [.pageWithoutId] else []) ++
      (contentDefects heap data ++
        (fieldDefects heap data rootProps "title" ++
          fieldDefects heap data rootProps "description"))

def pagesOf (heap : Heap) : Heap → List Value → List SitePage × Heap
  | after, [] => ([], after)
  | after, value :: values =>
    let page := pageOf heap after value
    let rest := pagesOf heap page.2 values
    (page.1 :: rest.1, rest.2)

/-- The fields of a site; a list is a site that has only pages. -/
def fieldsOf (heap : Heap) (value : Value) : Entries :=
  if (heap.list? value).isSome then [(.str "pages", value)] else heap.entries value

def schemaOf (heap : Heap) (catalog : Catalog) (entry : Value × Value) : Catalog :=
  let fields := (heap.entries entry.2).map fun field => (field.1.text heap, field.2.text heap)
  catalog.declare (entry.1.text heap) (Ordered.ofList fields)

/-- The fields of a type must be a mapping even where they are empty. -/
def schemaDefects (heap : Heap) (entry : Value × Value) : List Fault :=
  if heap.dict? entry.2 = none then [.missingOperation (heap.kind entry.2) "items"] else []

/-- The site that a value describes. -/
def outlined (heap : Heap) (value : Value) : Site × Heap :=
  let fields := fieldsOf heap value
  let pages := pagesOf heap heap (heap.listed (fields.get "pages"))
  ({ pages := pages.1
     schemas := (heap.entries (fields.get "schemas")).foldl (schemaOf heap) {} }, pages.2)

/-- All defects of a value that should describe a site. -/
def defects (heap : Heap) (value : Value) : List Fault :=
  let fields := fieldsOf heap value
  (if heap.list? value = none ∧ heap.dict? value = none then [.siteNotMapping] else []) ++
    (heap.listDefects (fields.get "pages") ++
      ((heap.listed (fields.get "pages")).flatMap (pageDefects heap) ++
        (heap.mappingDefects (fields.get "schemas") "items" ++
          (heap.entries (fields.get "schemas")).flatMap (schemaDefects heap))))

end Site

end StaticSite
