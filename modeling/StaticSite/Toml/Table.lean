import StaticSite.Ordered
import StaticSite.Value

/-!
# Tables of TOML

The tree that a document builds up. A table may be opened once by its header; tables that dotted
keys have made are closed by the next header; arrays and tables written as values are never changed.
-/

namespace StaticSite.Toml

inductive Item where
  | scalar (value : Value)
  | array (items : List Item)
  | inlineTable (entries : List (String × Item))
  | table (opened : Bool) (entries : List (String × Item))
  | tables (elements : List (List (String × Item)))
deriving Repr, Inhabited

/-- The items of a table under their keys. -/
abbrev Entries := Ordered Item

/--
Changes the table under a path. Tables that are missing are made; in an array of tables the last one
is meant; a value is no table.
-/
def modify? (change : Entries → Option Entries) : List String → Entries → Option Entries
  | [], entries => change entries
  | key :: path, entries =>
    match Ordered.get? entries key with
    | none => do
      let inner ← modify? change path []
      some (Ordered.put entries key (.table false inner))
    | some (.table opened inner) => do
      let inner ← modify? change path inner
      some (Ordered.put entries key (.table opened inner))
    | some (.tables elements) => do
      let inner ← modify? change path (elements.getLast?.getD [])
      some (Ordered.put entries key (.tables (elements.dropLast ++ [inner])))
    | some _ => none

/-- Whether the table under a path has been opened. -/
def isOpened : List String → Entries → Bool
  | [], _ => false
  | [key], entries =>
    match Ordered.get? entries key with
    | some (.table opened _) => opened
    | some (.tables _) => true
    | _ => false
  | key :: path, entries =>
    match Ordered.get? entries key with
    | some (.table _ inner) => isOpened path inner
    | some (.tables elements) => isOpened path (elements.getLast?.getD [])
    | _ => false

/-- The path of the table that holds a key, and the key itself. -/
def splitLast (path : List String) : List String × String :=
  (path.dropLast, path.getLast?.getD "")

/-- Opens a table; what has been opened, and what is no table, cannot be. -/
def openTable? (path : List String) (entries : Entries) : Option Entries :=
  let (parent, key) := splitLast path
  modify?
    (fun entries =>
      match Ordered.get? entries key with
      | none => some (Ordered.put entries key (.table true []))
      | some (.table false inner) => some (Ordered.put entries key (.table true inner))
      | some _ => none)
    parent entries

/-- Adds a table to an array of tables. -/
def appendTable? (path : List String) (entries : Entries) : Option Entries :=
  let (parent, key) := splitLast path
  modify?
    (fun entries =>
      match Ordered.get? entries key with
      | none => some (Ordered.put entries key (.tables [[]]))
      | some (.tables elements) =>
        some (Ordered.put entries key (.tables (elements ++ [[]])))
      | some _ => none)
    parent entries

/-- Gives a new key its value. -/
def assign? (path : List String) (value : Item) (entries : Entries) : Option Entries :=
  let (parent, key) := splitLast path
  modify?
    (fun entries =>
      if Ordered.contains entries key then none else some (Ordered.put entries key value))
    parent entries

/-- Closes the tables that dotted keys have made. -/
def close (paths : List (List String)) (entries : Entries) : Entries :=
  paths.foldl (fun entries path => (openTable? path entries).getD entries) entries

mutual

/-- The value of an item, each table and array being a new container of the heap. -/
def Item.toValue (heap : Heap) : Item → Value × Heap
  | .scalar value => (value, heap)
  | .array items =>
    let (values, heap) := toValues heap items
    let (id, heap) := heap.add (.list values)
    (.ref id, heap)
  | .inlineTable entries => tableValue heap entries
  | .table _ entries => tableValue heap entries
  | .tables elements =>
    let (values, heap) := tableValues heap elements
    let (id, heap) := heap.add (.list values)
    (.ref id, heap)

def toValues (heap : Heap) : List Item → List Value × Heap
  | [] => ([], heap)
  | item :: items =>
    let (value, heap) := item.toValue heap
    let (values, heap) := toValues heap items
    (value :: values, heap)

def tableValue (heap : Heap) : List (String × Item) → Value × Heap
  | entries =>
    let (found, heap) := entryValues heap entries
    let (id, heap) := heap.add (.dict found)
    (.ref id, heap)

def tableValues (heap : Heap) : List (List (String × Item)) → List Value × Heap
  | [] => ([], heap)
  | entries :: elements =>
    let (value, heap) := tableValue heap entries
    let (values, heap) := tableValues heap elements
    (value :: values, heap)

def entryValues (heap : Heap) : List (String × Item) → StaticSite.Entries × Heap
  | [] => ([], heap)
  | (key, item) :: entries =>
    let (value, heap) := item.toValue heap
    let (found, heap) := entryValues heap entries
    ((.str key, value) :: found, heap)

end

end StaticSite.Toml
