import StaticSite.Ordered
import StaticSite.Value

/-!
# JSON data

A JSON document is a tree. Objects keep the order of their keys; a repeated key keeps its first
place and takes its last value.
-/

namespace StaticSite

inductive Json where
  | null
  | bool (b : Bool)
  | int (n : Int)
  | float (x : Binary64)
  | str (s : String)
  | arr (items : List Json)
  | obj (members : List (String × Json))
deriving Repr, Inhabited

namespace Json

/-- The member of an object under a name. -/
def member? (name : String) : Json → Option Json
  | .obj members => Ordered.get? members name
  | _ => none

mutual

/-- The same data as a value, each array and object being a new container of the heap. -/
def toValue (heap : Heap) : Json → Value × Heap
  | .null => (.null, heap)
  | .bool b => (.bool b, heap)
  | .int n => (.int n, heap)
  | .float x => (.float x, heap)
  | .str s => (.str s, heap)
  | .arr items =>
    let (items, heap) := toValues heap items
    let (id, heap) := heap.add (.list items)
    (.ref id, heap)
  | .obj members =>
    let (entries, heap) := toEntries heap members
    let (id, heap) := heap.add (.dict entries)
    (.ref id, heap)

def toValues (heap : Heap) : List Json → List Value × Heap
  | [] => ([], heap)
  | item :: items =>
    let (value, heap) := toValue heap item
    let (values, heap) := toValues heap items
    (value :: values, heap)

def toEntries (heap : Heap) : List (String × Json) → Entries × Heap
  | [] => ([], heap)
  | (name, item) :: members =>
    let (value, heap) := toValue heap item
    let (entries, heap) := toEntries heap members
    ((.str name, value) :: entries, heap)

end

end Json

end StaticSite
