import StaticSite.Relink

/-!
# Page data unfolded

Data in which no container holds itself can be read as a tree, where what is shared stands at every
place from which it is reached. A tree keeps the label of every container and tuple, so that shared
data can be told from data that is merely equal; its plain form forgets the labels.
-/

namespace StaticSite

inductive Shape where
  | tuple | list | dict
deriving DecidableEq, Repr

/-- What tells apart the containers and the tuples of a heap. -/
abbrev Mark := Bool × Nat

def Shape.mark (shape : Shape) (label : Nat) : Mark := (shape = .tuple, label)

/-- What a container holds, in order: each member with its dict key, if it has one. -/
inductive Members (ι : Type) where
  | nil
  | atom (key : Option Value) (value : Value) (rest : Members ι)
  | str (key : Option Value) (s : String) (rest : Members ι)
  | node (key : Option Value) (shape : Shape) (label : ι) (inside rest : Members ι)

namespace Value

/-- A value that is no string and holds nothing. -/
def isAtom : Value → Bool
  | .str _ => false
  | .tuple .. => false
  | .ref _ => false
  | _ => true

/-- The key of what stands under a member's key; items of lists and tuples have none. -/
def keyUnder (outer : Option String) : Option Value → Option String
  | none => outer
  | some key => innerKey outer key

mutual

/-- The value without the labels of its tuples. -/
def erase : Value → Value
  | .tuple _ items => .tuple 0 (eraseAll items)
  | value => value

def eraseAll : List Value → List Value
  | [] => []
  | item :: items => erase item :: eraseAll items

end

theorem keyUnder_erase (outer : Option String) (key : Option Value) :
    keyUnder outer (key.map erase) = keyUnder outer key := by
  cases key with
  | none => rfl
  | some key => cases key <;> rfl

end Value

namespace Container

def shape : Container → Shape
  | .dict _ => .dict
  | .list _ => .list

def members : Container → List (Option Value × Value)
  | .dict entries => entries.map fun (key, value) => (some key, value)
  | .list items => items.map fun item => (none, item)

end Container

/-- The value that holds the members; a container is referred to by its place. -/
def Shape.value (label : Nat) (members : List (Option Value × Value)) : Shape → Value
  | .tuple => .tuple label (members.map (·.2))
  | _ => .ref label

namespace Heap

/-- Whether the members are those of the tuple, or of the container at the place. -/
def Stands (heap : Heap) (shape : Shape) (label : Nat) (members : List (Option Value × Value)) :
    Prop :=
  match shape with
  | .tuple => ∀ member ∈ members, member.1 = none
  | shape =>
    ∃ container, heap.container? label = some container ∧ container.shape = shape ∧
      container.members = members

/-- A dict key is hashable. -/
def IsKey (heap : Heap) (key : Option Value) : Prop := ∀ k ∈ key, heap.unhashable? k = none

end Heap

theorem Shape.value_container {shape : Shape} (container : shape ≠ .tuple) (label : Nat)
    (members : List (Option Value × Value)) : shape.value label members = .ref label := by
  cases shape with
  | tuple => exact absurd rfl container
  | _ => rfl

theorem Shape.mark_container {shape : Shape} (container : shape ≠ .tuple) (label : Nat) :
    shape.mark label = (false, label) := by
  simp [Shape.mark, container]

theorem Heap.Stands.container {heap : Heap} {shape : Shape} {label : Nat}
    {members : List (Option Value × Value)} (stands : heap.Stands shape label members)
    (container : shape ≠ .tuple) :
    ∃ container, heap.container? label = some container ∧ container.shape = shape ∧
      container.members = members := by
  cases shape with
  | tuple => exact absurd rfl container
  | _ => exact stands

theorem Heap.Stands.ofContainer {heap : Heap} {shape : Shape} {label : Nat}
    {members : List (Option Value × Value)} {container : Container} (isContainer : shape ≠ .tuple)
    (found : heap.container? label = some container) (isShape : container.shape = shape)
    (held : container.members = members) : heap.Stands shape label members := by
  cases shape with
  | tuple => exact absurd rfl isContainer
  | _ => exact ⟨container, found, isShape, held⟩

theorem map_item_map_snd {members : List (Option Value × Value)}
    (keyless : ∀ member ∈ members, member.1 = none) :
    (members.map (·.2)).map (fun item => ((none : Option Value), item)) = members := by
  induction members with
  | nil => rfl
  | cons member members ih =>
    obtain ⟨key, value⟩ := member
    simp only [List.forall_mem_cons] at keyless
    obtain ⟨rfl, keyless⟩ := keyless
    simp only [List.map_cons, ih keyless]

namespace Members

section

variable {ι : Type}

/-- The members as they are held by a container of their own shape. -/
def toList : Members Nat → List (Option Value × Value)
  | .nil => []
  | .atom key value rest => (key, value) :: rest.toList
  | .str key s rest => (key, .str s) :: rest.toList
  | .node key shape label inside rest => (key, shape.value label inside.toList) :: rest.toList

/-- Whether the heap holds what the tree shows. -/
def In (heap : Heap) : Members Nat → Prop
  | .nil => True
  | .atom key value rest => heap.IsKey key ∧ value.isAtom = true ∧ rest.In heap
  | .str key _ rest => heap.IsKey key ∧ rest.In heap
  | .node key shape label inside rest =>
    heap.IsKey key ∧ heap.Stands shape label inside.toList ∧ inside.In heap ∧ rest.In heap

/-- The data without labels. -/
def plain : Members ι → Members Unit
  | .nil => .nil
  | .atom key value rest => .atom (key.map Value.erase) value rest.plain
  | .str key s rest => .str (key.map Value.erase) s rest.plain
  | .node key shape _ inside rest =>
    .node (key.map Value.erase) shape () inside.plain rest.plain

def size : Members ι → Nat
  | .nil => 0
  | .atom _ _ rest => rest.size + 1
  | .str _ _ rest => rest.size + 1
  | .node _ _ _ inside rest => inside.size + rest.size + 1

/-- The strings in order, each with the nearest string key above it. -/
def strings (key : Option String) : Members ι → List Value.Occurrence
  | .nil => []
  | .atom _ _ rest => rest.strings key
  | .str k s rest => (Value.keyUnder key k, s) :: rest.strings key
  | .node k _ _ inside rest => inside.strings (Value.keyUnder key k) ++ rest.strings key

/-- The data with every string replaced, depending on the nearest string key above it. -/
def mapStrings (change : Option String → String → String) (key : Option String) :
    Members ι → Members ι
  | .nil => .nil
  | .atom k value rest => .atom k value (rest.mapStrings change key)
  | .str k s rest => .str k (change (Value.keyUnder key k) s) (rest.mapStrings change key)
  | .node k shape label inside rest =>
    .node k shape label (inside.mapStrings change (Value.keyUnder key k))
      (rest.mapStrings change key)

/-- A container or tuple of the tree and the key it is reached under. -/
structure Reach (ι : Type) where
  shape : Shape
  label : ι
  key : Option String
  inside : Members ι

/-- The containers and tuples of the tree, outer before inner and from left to right. -/
def reaches (key : Option String) : Members ι → List (Reach ι)
  | .nil => []
  | .atom _ _ rest => rest.reaches key
  | .str _ _ rest => rest.reaches key
  | .node k shape label inside rest =>
    ⟨shape, label, Value.keyUnder key k, inside⟩ ::
      (inside.reaches (Value.keyUnder key k) ++ rest.reaches key)

def Reach.mark (reach : Reach Nat) : Mark := reach.shape.mark reach.label

theorem strings_plain (key : Option String) (members : Members ι) :
    members.plain.strings key = members.strings key := by
  induction members generalizing key with
  | nil => rfl
  | atom k value rest ih => exact ih key
  | str k s rest ih => simp only [plain, strings, Value.keyUnder_erase, ih]
  | node k shape label inside rest ihInside ih =>
    simp only [plain, strings, Value.keyUnder_erase, ihInside, ih]

theorem mapStrings_id (key : Option String) (members : Members ι) :
    members.mapStrings (fun _ s => s) key = members := by
  induction members generalizing key with
  | nil => rfl
  | atom k value rest ih => simp only [mapStrings, ih]
  | str k s rest ih => simp only [mapStrings, ih]
  | node k shape label inside rest ihInside ih => simp only [mapStrings, ihInside, ih]

/-- What is reached is smaller than the members among which it is reached. -/
theorem size_of_reach {key : Option String} {members : Members ι} {reach : Reach ι}
    (reached : reach ∈ members.reaches key) : reach.inside.size < members.size := by
  induction members generalizing key with
  | nil => cases reached
  | atom k value rest ih =>
    have smaller := ih reached
    simp only [size]
    omega
  | str k s rest ih =>
    have smaller := ih reached
    simp only [size]
    omega
  | node k shape label inside rest ihInside ih =>
    simp only [reaches, List.mem_cons, List.mem_append] at reached
    simp only [size]
    rcases reached with rfl | inner | later
    · dsimp only
      omega
    · have smaller := ihInside inner
      omega
    · have smaller := ih later
      omega

/-- What is reached inside of something reached is itself reached. -/
theorem reaches_of_reach {key : Option String} {members : Members ι} {outer : Reach ι}
    (reached : outer ∈ members.reaches key) :
    ∀ inner ∈ outer.inside.reaches outer.key, inner ∈ members.reaches key := by
  intro inner within
  induction members generalizing key with
  | nil => cases reached
  | atom k value rest ih => exact ih reached
  | str k s rest ih => exact ih reached
  | node k shape label inside rest ihInside ih =>
    simp only [reaches, List.mem_cons, List.mem_append] at reached ⊢
    rcases reached with rfl | deeper | later
    · exact .inr (.inl within)
    · exact .inr (.inl (ihInside deeper))
    · exact .inr (.inr (ih later))

end

/-! ## Trees in a heap -/

section

variable {heap : Heap} {members others : Members Nat}

/-- The container at a place has one shape and one list of members. -/
theorem stands_unique {shape shape' : Shape} {label : Nat}
    {first second : List (Option Value × Value)} (stands : heap.Stands shape label first)
    (stands' : heap.Stands shape' label second) (container : shape ≠ .tuple)
    (container' : shape' ≠ .tuple) : shape = shape' ∧ first = second := by
  obtain ⟨there, found, isShape, holds⟩ := stands.container container
  obtain ⟨there', found', isShape', holds'⟩ := stands'.container container'
  rw [found, Option.some.injEq] at found'
  subst found'
  exact ⟨isShape.symm.trans isShape', holds.symm.trans holds'⟩

/-- A value can be unfolded in one way only. -/
theorem eq_of_toList (there : members.In heap) (there' : others.In heap)
    (same : members.toList = others.toList) : members = others := by
  induction members generalizing others with
  | nil => cases others with
    | nil => rfl
    | node k shape => cases shape <;> simp [toList, Shape.value] at same
    | _ => simp [toList] at same
  | atom k value rest ih => cases others with
    | atom k' value' rest' =>
      simp only [toList, List.cons.injEq, Prod.mk.injEq] at same
      obtain ⟨⟨rfl, rfl⟩, rests⟩ := same
      rw [ih there.2.2 there'.2.2 rests]
    | nil => simp [toList] at same
    | str k' s' rest' =>
      simp only [toList, List.cons.injEq, Prod.mk.injEq] at same
      simp [In, same.1.2, Value.isAtom] at there
    | node k' shape' label' inside' rest' =>
      cases shape' <;> simp only [toList, List.cons.injEq, Prod.mk.injEq] at same <;>
        simp [In, same.1.2, Shape.value, Value.isAtom] at there
  | str k s rest ih => cases others with
    | str k' s' rest' =>
      simp only [toList, List.cons.injEq, Prod.mk.injEq, Value.str.injEq] at same
      obtain ⟨⟨rfl, rfl⟩, rests⟩ := same
      rw [ih there.2 there'.2 rests]
    | nil => simp [toList] at same
    | atom k' value' rest' =>
      simp only [toList, List.cons.injEq, Prod.mk.injEq] at same
      simp [In, ← same.1.2, Value.isAtom] at there'
    | node k' shape' => cases shape' <;> simp [toList, Shape.value] at same
  | node k shape label inside rest ihInside ih => cases others with
    -- A tuple holds its items itself; those of a container are found at its place.
    | node k' shape' label' inside' rest' =>
      obtain ⟨-, stands, inner, later⟩ := there
      obtain ⟨-, stands', inner', later'⟩ := there'
      by_cases tuple : shape = .tuple
      · subst tuple
        cases shape' <;> simp only [toList, Shape.value, List.cons.injEq, Prod.mk.injEq,
          Value.tuple.injEq, reduceCtorEq, and_false, false_and] at same
        obtain ⟨⟨rfl, rfl, items⟩, rests⟩ := same
        have held : inside.toList = inside'.toList := by
          rw [← map_item_map_snd stands, ← map_item_map_snd stands', items]
        rw [ihInside inner inner' held, ih later later' rests]
      · by_cases tuple' : shape' = .tuple
        · subst tuple'
          simp [toList, Shape.value] at same
        · simp only [toList, Shape.value_container tuple, Shape.value_container tuple',
            List.cons.injEq, Prod.mk.injEq, Value.ref.injEq] at same
          obtain ⟨⟨rfl, rfl⟩, rests⟩ := same
          obtain ⟨rfl, held⟩ := stands_unique stands stands' tuple tuple'
          rw [ihInside inner inner' held, ih later later' rests]
    | nil => cases shape <;> simp [toList, Shape.value] at same
    | atom k' value' rest' =>
      cases shape <;> simp only [toList, List.cons.injEq, Prod.mk.injEq] at same <;>
        simp [In, ← same.1.2, Shape.value, Value.isAtom] at there'
    | str k' s' => cases shape <;> simp [toList, Shape.value] at same

/-- What is reached in a heap stands there. -/
theorem in_of_reach {key : Option String} {reach : Reach Nat} (there : members.In heap)
    (reached : reach ∈ members.reaches key) :
    heap.Stands reach.shape reach.label reach.inside.toList ∧ reach.inside.In heap := by
  induction members generalizing key with
  | nil => cases reached
  | atom k value rest ih => exact ih there.2.2 reached
  | str k s rest ih => exact ih there.2 reached
  | node k shape label inside rest ihInside ih =>
    obtain ⟨-, stands, inner, later⟩ := there
    simp only [reaches, List.mem_cons, List.mem_append] at reached
    rcases reached with rfl | deeper | further
    · exact ⟨stands, inner⟩
    · exact ihInside inner deeper
    · exact ih later further

end

end Members

/-! ## Components -/

/-- A component whose props are a dict that unfolds. -/
structure Reading (heap : Heap) where
  id : String
  type : String
  zones : Ordered (List String)
  place : Nat
  members : Members Nat
  stands : heap.Stands .dict place members.toList
  holds : members.In heap

/-- A component without labels in its props. -/
structure PlainComponent where
  id : String
  type : String
  zones : Ordered (List String)
  members : Members Unit

namespace Reading

variable {heap : Heap}

def component (reading : Reading heap) : Component :=
  { id := reading.id, type := reading.type, props := .ref reading.place, zones := reading.zones }

def entry (reading : Reading heap) : Entry := .component reading.component

/-- The props as the one member of a tree. -/
def unfolded (reading : Reading heap) : Members Nat :=
  .node none .dict reading.place reading.members .nil

def reaches (reading : Reading heap) : List (Members.Reach Nat) := reading.unfolded.reaches none

def plain (reading : Reading heap) : PlainComponent :=
  ⟨reading.id, reading.type, reading.zones, reading.members.plain⟩

/-- The fields whose strings are addresses, if the type of the component has a schema. -/
def fields (catalog : Option Catalog) (reading : Reading heap) : Option Fields :=
  Catalog.urlFields? catalog reading.type

theorem unfolded_in (reading : Reading heap) : reading.unfolded.In heap :=
  ⟨by simp [Heap.IsKey], reading.stands, reading.holds, trivial⟩

/-- A place of the heap unfolds in one way. -/
theorem inside_eq_of_label {members others : Members Nat} {key key' : Option String}
    {first second : Members.Reach Nat} (there : members.In heap) (there' : others.In heap)
    (reached : first ∈ members.reaches key) (reached' : second ∈ others.reaches key')
    (container : first.shape ≠ .tuple) (container' : second.shape ≠ .tuple)
    (same : first.label = second.label) : first.inside = second.inside := by
  obtain ⟨stands, inner⟩ := Members.in_of_reach there reached
  obtain ⟨stands', inner'⟩ := Members.in_of_reach there' reached'
  rw [← same] at stands'
  exact Members.eq_of_toList inner inner'
    (Members.stands_unique stands stands' container container').2

/-- A component reads in one way. -/
theorem eq_of_entry {reading other : Reading heap} (same : reading.entry = other.entry) :
    reading = other := by
  obtain ⟨id, type, zones, place, members, stands, holds⟩ := reading
  obtain ⟨id', type', zones', place', members', stands', holds'⟩ := other
  simp only [entry, component, Entry.component.injEq, Component.mk.injEq, Value.ref.injEq] at same
  obtain ⟨rfl, rfl, rfl, rfl⟩ := same
  have held : members = members' := Members.eq_of_toList holds holds'
    (Members.stands_unique stands stands' (by simp) (by simp)).2
  subst held
  rfl

end Reading

end StaticSite
