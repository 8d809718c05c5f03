import StaticSite.Log
import StaticSite.Markup.Attribute
import StaticSite.Markup.Minify
import StaticSite.Renderer
import StaticSite.Style.Text

/-!
# Rendering a page

The components of a page contain each other. One pass renders a component after the components of
its zones, and renders none twice: a second visit to an id ends the pass. An id without a component
leaves nothing.
-/

namespace StaticSite.Rendering

structure Options where
  minify : Bool := false
  annotate : Bool := false
  classStart : String := "dc"
deriving DecidableEq, Repr

/-- What stays the same during a pass. -/
structure Scene where
  heap : Heap
  components : Ordered Component
  registry : Registry
  options : Options

/-- What a pass has done; `missing` holds the ids without a component, the first one first. -/
structure State where
  visited : List String := []
  rendered : Nat := 0
  missing : List String := []
deriving DecidableEq, Repr

/-- The components of a page by id; of several with one id the last one counts. -/
def Scene.ofEntries (heap : Heap) (entries : List Entry) (registry : Registry)
    (options : Options) : Except Fault Scene := do
  let strays := entries.filterMap fun
    | .stray value => some value
    | _ => none
  match strays with
  | value :: _ => throw (.missingOperation (heap.kind value) "id")
  | [] =>
    let components := (entries.filterMap Entry.component?).map fun c => (c.id, c)
    return { heap, components := Ordered.ofList components, registry, options }

/-- The markup of one component, given the markup of its zones. -/
def componentMarkup (heap : Heap) (registry : Registry) (options : Options)
    (component : Component) (children : Children) : Except Fault String :=
  match registry.get? component.type with
  | none => .error (.unknownType component.id component.type)
  | some renderer => do
    let node ← renderer.render heap (component.entries heap) children
      { id := component.id, type := component.type, minify := options.minify
        className := Style.className component.id options.classStart }
    let markup := node.write
    return if options.annotate then
      Markup.addRootAttribute markup "data-component-id" component.id
    else markup

/-- A step of a pass: it changes the state also when it fails. -/
abbrev Step (α : Type) := State → Except Fault α × State

/-- Renders ids one after the other and stops at the first fault. -/
def renderEach (enter : String → Step String) : List String → Step (List String)
  | [], state => (.ok [], state)
  | id :: ids, state =>
    match enter id state with
    | (.error fault, state) => (.error fault, state)
    | (.ok markup, state) =>
      match renderEach enter ids state with
      | (.error fault, state) => (.error fault, state)
      | (.ok others, state) => (.ok (markup :: others), state)

/-- Renders ids and joins what they leave. -/
def renderIdsBy (enter : String → Step String) (ids : List String) : Step String := fun state =>
  match renderEach enter ids state with
  | (.error fault, state) => (.error fault, state)
  | (.ok parts, state) => (.ok ("\n".intercalate (parts.filter (· ≠ ""))), state)

def renderZones (enter : String → Step String) : Ordered (List String) → Step Children
  | [], state => (.ok [], state)
  | (zone, ids) :: zones, state =>
    match renderIdsBy enter ids state with
    | (.error fault, state) => (.error fault, state)
    | (.ok markup, state) =>
      match renderZones enter zones state with
      | (.error fault, state) => (.error fault, state)
      | (.ok others, state) => (.ok ((zone, markup) :: others), state)

/-- Renders a component whose id has just been visited. -/
def renderFound (scene : Scene) (enter : String → Step String) (component : Component) :
    Step String := fun state =>
  if Ordered.contains scene.registry component.type then
    match renderZones enter component.zones state with
    | (.error fault, state) => (.error fault, state)
    | (.ok children, state) =>
      match componentMarkup scene.heap scene.registry scene.options component children with
      | .error fault => (.error fault, state)
      | .ok markup => (.ok markup, { state with rendered := state.rendered + 1 })
  else (.error (.unknownType component.id component.type), state)

/--
Renders one id. Each level of depth visits an id that has a component, so as many levels as there
are components, and one more, are enough.
-/
def renderWith (scene : Scene) : Nat → String → Step String
  | 0, id, state => (.error (.cyclicContainment id), state)
  | fuel + 1, id, state =>
    if id ∈ state.visited then (.error (.cyclicContainment id), state)
    else
      let state := { state with visited := id :: state.visited }
      match Ordered.get? scene.components id with
      | none => (.ok "", { state with missing := state.missing ++ [id] })
      | some component => renderFound scene (renderWith scene fuel) component state

def renderId (scene : Scene) (id : String) : Step String :=
  renderWith scene (scene.components.length + 1) id

def renderIds (scene : Scene) (ids : List String) : Step String :=
  renderIdsBy (renderId scene) ids

/-- What a pass reports. -/
def State.events (state : State) : List Log.Event := state.missing.map .missingComponent

/-- The markup of a page's roots. -/
def renderPage (scene : Scene) (roots : List String) : Except Fault String × State :=
  match renderIds scene roots {} with
  | (.error fault, state) => (.error fault, state)
  | (.ok markup, state) =>
    (.ok (if scene.options.minify then Markup.minify markup else markup), state)

end StaticSite.Rendering
