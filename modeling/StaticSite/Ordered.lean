/-!
# Ordered maps

A map from names to values that remembers the order in which names were first set. Setting a known
name changes its value and keeps its place.
-/

namespace StaticSite

abbrev Ordered (α : Type) := List (String × α)

namespace Ordered

variable {α : Type}

def get? (map : Ordered α) (name : String) : Option α :=
  match map with
  | [] => none
  | (n, value) :: rest => if n = name then some value else get? rest name

def contains (map : Ordered α) (name : String) : Bool := (get? map name).isSome

def put (map : Ordered α) (name : String) (value : α) : Ordered α :=
  match map with
  | [] => [(name, value)]
  | (n, v) :: rest => if n = name then (n, value) :: rest else (n, v) :: put rest name value

/-- Sets the names of `other` in their order. -/
def putAll (map other : Ordered α) : Ordered α :=
  other.foldl (fun map (name, value) => put map name value) map

/-- The map whose names were set in the order of the pairs. -/
def ofList (pairs : List (String × α)) : Ordered α := putAll [] pairs

def names (map : Ordered α) : List String := map.map (·.1)

def values (map : Ordered α) : List α := map.map (·.2)

theorem get?_put_self (map : Ordered α) (name : String) (value : α) :
    get? (put map name value) name = some value := by
  induction map with
  | nil => simp [put, get?]
  | cons entry rest ih =>
    obtain ⟨n, v⟩ := entry
    by_cases h : n = name
    · simp [put, get?, h]
    · simp [put, get?, h, ih]

theorem get?_put_of_ne (map : Ordered α) {name other : String} (value : α) (h : name ≠ other) :
    get? (put map name value) other = get? map other := by
  induction map with
  | nil => simp [put, get?, h]
  | cons entry rest ih =>
    obtain ⟨n, v⟩ := entry
    by_cases same : n = name
    · subst same
      simp [put, get?, h]
    · by_cases found : n = other
      · subst found
        simp [put, get?, same]
      · simp [put, get?, same, found, ih]

end Ordered

end StaticSite
