import StaticSite.Ordered
import StaticSite.Value

/-!
# Components

A component is one configured occurrence of a component type on a page. Its zones name, in order,
the components that it contains.
-/

namespace StaticSite

structure Component where
  id : String
  type : String
  props : Value
  zones : Ordered (List String)
deriving Repr

/--
What a list of components can hold: components, components that have no id, and values that are no
components at all.
-/
inductive Entry where
  | component (component : Component)
  | nameless (type : String) (props : Value) (zones : Ordered (List String))
  | stray (value : Value)
deriving Repr

namespace Component

/-- The props of a component; whatever is no mapping counts as an empty one. -/
def entries (component : Component) (heap : Heap) : Entries :=
  (heap.dict? component.props).getD []

end Component

namespace Entry

/-- The components of a list that can be found by their id. -/
def component? : Entry → Option Component
  | .component c => some c
  | _ => none

theorem filterMap_component?_map (components : List Component) :
    (components.map component).filterMap component? = components := by
  rw [List.filterMap_map]
  exact List.filterMap_some

end Entry

end StaticSite
