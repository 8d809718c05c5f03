import StaticSite.Component
import StaticSite.Fault
import StaticSite.Markup.Node

/-!
# Renderers

A renderer turns the props of one component, and the finished markup of its zones, into markup. A
registry finds the renderer of a component type.
-/

namespace StaticSite

/-- The finished markup of each zone, in the order of the zones. -/
abbrev Children := Ordered String

/-- The zones that hold anything, each on lines of its own. -/
def Children.joined (children : Children) : String :=
  "\n".intercalate ((Ordered.values children).filter (· ≠ ""))

/-- What a renderer knows about the component besides its props. -/
structure Renderer.Context where
  id : String
  type : String
  className : String
  minify : Bool
deriving DecidableEq, Repr

structure Renderer where
  name : String
  render : Heap → Entries → Children → Renderer.Context → Except Fault Markup.Node

/-- The renderers by component type, in the order in which the types were first registered. -/
abbrev Registry := Ordered Renderer

namespace Registry

def register (registry : Registry) (type : String) (renderer : Renderer) : Registry :=
  Ordered.put registry type renderer

def get? (registry : Registry) (type : String) : Option Renderer := Ordered.get? registry type

/-- Whether a value is a registered type; what cannot be a key cannot be looked for. -/
def holds (registry : Registry) (heap : Heap) (value : Value) : Except Fault Bool :=
  match heap.unhashable? value with
  | some kind => .error (.notHashable kind)
  | none => .ok ((value.str?.map (Ordered.contains registry)).getD false)

end Registry

end StaticSite
