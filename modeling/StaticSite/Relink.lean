import StaticSite.Asset
import StaticSite.Asset.Extract
import StaticSite.Fault

/-!
# Relinking components

The components are copied, with everything their props reach, and in the copy the addresses of
assets are replaced. The copy is a relocated image of the whole heap behind the old one, so the old
containers stay as they are. Each container of the copy is relinked once, under the key and with
the fields by which the walk first reached it; a string is replaced at most once.
-/

namespace StaticSite

namespace Value

mutual

/-- The same value with every container reference moved up by `offset`. -/
def shift (offset : Nat) : Value → Value
  | .ref id => .ref (id + offset)
  | .tuple label items => .tuple label (shiftAll offset items)
  | value => value

def shiftAll (offset : Nat) : List Value → List Value
  | [] => []
  | item :: items => shift offset item :: shiftAll offset items

end

end Value

namespace Container

def shift (offset : Nat) : Container → Container
  | .dict entries => .dict (entries.map fun (k, v) => (k.shift offset, v.shift offset))
  | .list items => .list (items.map (Value.shift offset))

end Container

namespace Heap

/-- Appends a copy of every container; the copy of a place lies `objects.size` further. -/
def withCopy (heap : Heap) : Heap :=
  ⟨heap.objects ++ heap.objects.map (Container.shift heap.objects.size)⟩

end Heap

namespace Relink

/-- The new address of each old one. -/
abbrev UrlMap := Ordered String

/-- The address that a page uses for an asset: the embedded data if there is any. -/
def target (asset : Asset) : String :=
  match asset.inlined, asset.dataUri with
  | true, some uri => if uri = "" then asset.optimizedUrl else uri
  | _, _ => asset.optimizedUrl

def urlMap (assets : List Asset) : UrlMap :=
  Ordered.ofList (assets.map fun asset => (asset.url, target asset))

/-- The key and the fields by which a container was reached. -/
structure Context where
  key : Option String
  fields : Option Fields

/-- Whether strings under a key are replaced; without a schema all of them are. -/
def Context.accepts (context : Context) : Bool :=
  match context.fields, context.key with
  | none, _ => true
  | some fields, some key => Ordered.contains fields key
  | some _, none => false

def replaceString (map : UrlMap) (context : Context) (s : String) : String :=
  if context.accepts then (Ordered.get? map s).getD s else s

mutual

/-- The value with its own strings replaced, those in tuples too. -/
def replace (map : UrlMap) (context : Context) : Value → Value
  | .str s => .str (replaceString map context s)
  | .tuple label items => .tuple label (replaceAll map context items)
  | value => value

def replaceAll (map : UrlMap) (context : Context) : List Value → List Value
  | [] => []
  | item :: items => replace map context item :: replaceAll map context items

end

/-- The context of the values under a dict key. -/
def Context.inner (context : Context) (key : Value) : Context :=
  { context with key := Value.innerKey context.key key }

/-- A container with its own strings replaced. -/
def replaceContainer (map : UrlMap) (context : Context) : Container → Container
  | .dict entries =>
    .dict (entries.map fun (key, value) => (key, replace map (context.inner key) value))
  | .list items => .list (items.map (replace map context))

/-- The containers reached, each with the context of its first visit, latest first. -/
abbrev Visits := List (Nat × Context)

abbrev Enter := Context → Nat → Visits → Visits

mutual

/-- Visits the containers that a value holds; `enter` continues into one. -/
def visit (enter : Enter) (context : Context) : Value → Visits → Visits
  | .tuple _ items, visits => visitAll enter context items visits
  | .ref id, visits => enter context id visits
  | _, visits => visits

def visitAll (enter : Enter) (context : Context) : List Value → Visits → Visits
  | [], visits => visits
  | item :: items, visits => visitAll enter context items (visit enter context item visits)

end

def visitEntries (enter : Enter) (context : Context) : Entries → Visits → Visits
  | [], visits => visits
  | (key, value) :: entries, visits =>
    visitEntries enter context entries (visit enter (context.inner key) value visits)

/--
Visits a container and what it holds, unless that has been done. Each level visits a container of
the heap that is new, so as many levels as the heap has containers are enough.
-/
def enterContainer (heap : Heap) : Nat → Enter
  | 0, _, _, visits => visits
  | fuel + 1, context, id, visits =>
    if id ∈ visits.map (·.1) then visits
    else
      let visits := (id, context) :: visits
      match heap.container? id with
      | none => visits
      | some (.dict entries) => visitEntries (enterContainer heap fuel) context entries visits
      | some (.list items) => visitAll (enterContainer heap fuel) context items visits

/-- Replaces the strings of every visited container. -/
def replaceVisited (map : UrlMap) (heap : Heap) (visits : Visits) : Heap :=
  visits.foldl
    (fun heap (id, context) =>
      match heap.container? id with
      | some container => heap.set id (replaceContainer map context container)
      | none => heap)
    heap

/-- Visits what the props of a component hold. -/
def visitComponent (heap : Heap) (catalog : Option Catalog) (type : String) (props : Value)
    (visits : Visits) : Visits :=
  match heap.dict? props with
  | none => visits
  | some _ =>
    visit (enterContainer heap heap.objects.size) ⟨none, Catalog.urlFields? catalog type⟩ props
      visits

/-- Visits an entry; what is no component has neither a type nor props. -/
def visitEntry (heap : Heap) (catalog : Option Catalog) (visits : Visits) :
    Entry → Except Fault Visits
  | .component c => .ok (visitComponent heap catalog c.type c.props visits)
  | .nameless type props _ => .ok (visitComponent heap catalog type props visits)
  | .stray value =>
    .error (.missingOperation (heap.kind value) (if catalog.isSome then "type" else "props"))

def shiftEntry (offset : Nat) : Entry → Entry
  | .component c => .component { c with props := c.props.shift offset }
  | .nameless type props zones => .nameless type (props.shift offset) zones
  | .stray value => .stray (value.shift offset)

/-- The copied components with their addresses replaced, and the heap that holds both lists. -/
def relink (heap : Heap) (catalog : Option Catalog) (assets : List Asset)
    (entries : List Entry) : Except Fault (Heap × List Entry) := do
  let map := urlMap assets
  let copied := heap.withCopy
  let entries := entries.map (shiftEntry heap.objects.size)
  if map.isEmpty then return (copied, entries)
  let visits ← entries.foldlM (visitEntry copied catalog) []
  return (replaceVisited map copied visits, entries)

end Relink

end StaticSite
