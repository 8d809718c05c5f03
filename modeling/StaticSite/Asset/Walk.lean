import StaticSite.Value

/-!
# The strings inside a value

The walk goes through a value from left to right, outer before inner, and enters every container
once. A string belongs to the nearest string key above it; lists and tuples pass on the key they are
stored under.
-/

namespace StaticSite.Value

/-- The containers and tuples that have been entered. -/
structure Seen where
  containers : List Nat
  tuples : List Nat
deriving DecidableEq, Repr

/-- A string and the nearest string key above it. -/
abbrev Occurrence := Option String × String

/-- The strings found, and what had been entered afterwards. -/
abbrev Found := List Occurrence × Seen

/-- How a walk enters the container at a place, under a key. -/
abbrev Enter := Option String → Nat → Seen → Found

mutual

/-- The strings of a value; `enter` continues into a container. -/
def stringsIn (enter : Enter) (key : Option String) : Value → Seen → Found
  | .str s, seen => ([(key, s)], seen)
  | .tuple label items, seen =>
    if label ∈ seen.tuples then ([], seen)
    else stringsInAll enter key items { seen with tuples := label :: seen.tuples }
  | .ref id, seen => enter key id seen
  | _, seen => ([], seen)

def stringsInAll (enter : Enter) (key : Option String) : List Value → Seen → Found
  | [], seen => ([], seen)
  | item :: items, seen =>
    let first := stringsIn enter key item seen
    let others := stringsInAll enter key items first.2
    (first.1 ++ others.1, others.2)

end

/-- The key of the values under a dict key. -/
def innerKey (outer : Option String) : Value → Option String
  | .str name => some name
  | _ => outer

/-- The strings of a dict's values, each under its own key. -/
def stringsInEntries (enter : Enter) (key : Option String) : Entries → Seen → Found
  | [], seen => ([], seen)
  | (name, value) :: entries, seen =>
    let first := stringsIn enter (innerKey key name) value seen
    let others := stringsInEntries enter key entries first.2
    (first.1 ++ others.1, others.2)

/--
Enters a container unless that has been done. Each level enters a container of the heap that is new,
so as many levels as the heap has containers are enough.
-/
def enterContainer (heap : Heap) : Nat → Enter
  | 0, _, _, seen => ([], seen)
  | fuel + 1, key, id, seen =>
    if id ∈ seen.containers then ([], seen)
    else
      let inside := { seen with containers := id :: seen.containers }
      match heap.container? id with
      | none => ([], inside)
      | some (.dict entries) => stringsInEntries (enterContainer heap fuel) key entries inside
      | some (.list items) => stringsInAll (enterContainer heap fuel) key items inside

/-- The strings of a value in the order of the walk. -/
def strings (heap : Heap) (key : Option String) (value : Value) : List Occurrence :=
  (stringsIn (enterContainer heap heap.objects.size) key value ⟨[], []⟩).1

end StaticSite.Value
