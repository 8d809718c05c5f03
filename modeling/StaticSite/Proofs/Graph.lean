import StaticSite.Proofs.Unfolding
import Mathlib.Data.List.Forall2
import Mathlib.Logic.Relation

/-!
# Page data as a graph

The containers of a heap refer to each other, in tuples too, and may do so in circles. What is
reached from a value is what these references lead to.
-/

namespace StaticSite

namespace Value

mutual

/-- The places that a value refers to; those inside its tuples count as its own. -/
def refs : Value → List Nat
  | .ref id => [id]
  | .tuple _ items => refsAll items
  | _ => []

def refsAll : List Value → List Nat
  | [] => []
  | item :: items => refs item ++ refsAll items

end

theorem refs_of_isAtom {value : Value} (isAtom : value.isAtom = true) : value.refs = [] := by
  cases value <;> first | rfl | cases isAtom

end Value

/-- The places that the members of a container refer to. -/
def Container.refs (container : Container) : List Nat :=
  container.members.flatMap (·.2.refs)

namespace Heap

/-- Whether the container at a place refers to another place. -/
def Holds (heap : Heap) (id inner : Nat) : Prop :=
  ∃ container, heap.container? id = some container ∧ inner ∈ container.refs

/-- Whether references lead from a value to a place. -/
def Reaches (heap : Heap) (value : Value) (id : Nat) : Prop :=
  ∃ root ∈ value.refs, Relation.ReflTransGen heap.Holds root id

/-- Every dict key is hashable. -/
def KeysHashable (heap : Heap) : Prop :=
  ∀ id container, heap.container? id = some container →
    ∀ member ∈ container.members, heap.IsKey member.1

end Heap

/-! ## The same data at other places -/

section

open Relink (UrlMap)

mutual

/--
How a value stands in a copy: references lead to the new places, and a string is either the old one
or what the map has for it.
-/
inductive Value.Echoes (map : UrlMap) (place : Nat → Nat) : Value → Value → Prop
  | kept (s : String) : Echoes map place (.str s) (.str s)
  | mapped (s t : String) (image : Ordered.get? map s = some t) : Echoes map place (.str s) (.str t)
  | moved (id : Nat) : Echoes map place (.ref id) (.ref (place id))
  | tuple (label : Nat) (items others : List Value) (each : Value.EchoesAll map place items others) :
    Echoes map place (.tuple label items) (.tuple label others)
  | atom (value : Value) (isAtom : value.isAtom = true) : Echoes map place value value

inductive Value.EchoesAll (map : UrlMap) (place : Nat → Nat) : List Value → List Value → Prop
  | nil : EchoesAll map place [] []
  | cons (item other : Value) (items others : List Value) (first : Value.Echoes map place item other)
    (rest : Value.EchoesAll map place items others) :
    EchoesAll map place (item :: items) (other :: others)

end

/-- How a container stands in a copy: with the same keys, in the same order. -/
structure Container.Echoes (map : UrlMap) (place : Nat → Nat) (container copy : Container) :
    Prop where
  shape : copy.shape = container.shape
  members : List.Forall₂
    (fun member other => other.1 = member.1 ∧ Value.Echoes map place member.2 other.2)
    container.members copy.members

/--
The copies of values with everything they reach: new places of their own, one for each place that is
reached, and the same references between them.
-/
structure IsClone (map : UrlMap) (heap after : Heap) (values copies : List Value)
    (place : Nat → Nat) : Prop where
  injective : Function.Injective place
  echoes : List.Forall₂ (Value.Echoes map place) values copies
  containers : ∀ id, Option.Rel (Container.Echoes map place) (heap.container? id)
    (after.container? (place id))
  reached : ∀ id, (∃ copy ∈ copies, after.Reaches copy id) ↔
    ∃ old, (∃ value ∈ values, heap.Reaches value old) ∧ place old = id
  fresh : ∀ copy ∈ copies, ∀ id, after.Reaches copy id → heap.container? id = none

variable {map : UrlMap} {place : Nat → Nat} {heap after : Heap}

mutual

theorem Value.Echoes.refs_eq {value copy : Value} (echoes : Value.Echoes map place value copy) :
    copy.refs = value.refs.map place := by
  cases echoes with
  | kept s => rfl
  | mapped s t image => rfl
  | moved id => rfl
  | tuple label items others each => exact each.refs_eq
  | atom value isAtom => rw [Value.refs_of_isAtom isAtom, List.map_nil]

theorem Value.EchoesAll.refs_eq {items others : List Value}
    (echoes : Value.EchoesAll map place items others) :
    Value.refsAll others = (Value.refsAll items).map place := by
  cases echoes with
  | nil => rfl
  | cons item other items others first rest =>
    rw [Value.refsAll, Value.refsAll, List.map_append, first.refs_eq, rest.refs_eq]

end

theorem Container.Echoes.refs_eq {container copy : Container}
    (echoes : Container.Echoes map place container copy) :
    copy.refs = container.refs.map place := by
  have members := echoes.members
  unfold Container.refs
  generalize container.members = old at members
  generalize copy.members = new at members
  induction members with
  | nil => rfl
  | cons first rest ih =>
    rw [List.flatMap_cons, List.flatMap_cons, List.map_append, first.2.refs_eq, ih]

section

variable (containers : ∀ id, Option.Rel (Container.Echoes map place) (heap.container? id)
  (after.container? (place id)))

include containers

/-- The containers of a copy refer to each other as the old ones do. -/
theorem Heap.holds_place_iff {id other : Nat} :
    after.Holds (place id) other ↔ ∃ inner, heap.Holds id inner ∧ place inner = other := by
  have both := containers id
  constructor
  · rintro ⟨copy, found, refers⟩
    rw [found] at both
    cases old : heap.container? id with
    | none => rw [old] at both; cases both
    | some container =>
      rw [old] at both
      cases both with
      | some echoes =>
        rw [echoes.refs_eq] at refers
        obtain ⟨inner, inRefs, rfl⟩ := List.mem_map.mp refers
        exact ⟨inner, ⟨container, old, inRefs⟩, rfl⟩
  · rintro ⟨inner, ⟨container, found, refers⟩, rfl⟩
    rw [found] at both
    cases copied : after.container? (place id) with
    | none => rw [copied] at both; cases both
    | some copy =>
      rw [copied] at both
      cases both with
      | some echoes =>
        refine ⟨copy, copied, ?_⟩
        rw [echoes.refs_eq]
        exact List.mem_map_of_mem refers

/-- References in a copy lead where the old ones lead, at the new places. -/
theorem Heap.reaches_place_iff {value copy : Value} (echoes : Value.Echoes map place value copy)
    {id : Nat} : after.Reaches copy id ↔ ∃ old, heap.Reaches value old ∧ place old = id := by
  constructor
  · rintro ⟨root, inRefs, leads⟩
    rw [echoes.refs_eq] at inRefs
    obtain ⟨start, inStarts, rfl⟩ := List.mem_map.mp inRefs
    induction leads with
    | refl => exact ⟨start, ⟨start, inStarts, .refl⟩, rfl⟩
    | tail _ holds ih =>
      obtain ⟨old, ⟨from', inFrom, before⟩, rfl⟩ := ih
      obtain ⟨inner, step, rfl⟩ := (Heap.holds_place_iff containers).mp holds
      exact ⟨inner, ⟨from', inFrom, before.tail step⟩, rfl⟩
  · rintro ⟨old, ⟨start, inStarts, leads⟩, rfl⟩
    refine ⟨place start, ?_, ?_⟩
    · rw [echoes.refs_eq]
      exact List.mem_map_of_mem inStarts
    · exact leads.lift place fun outer inner step =>
        (Heap.holds_place_iff containers).mpr ⟨inner, step, rfl⟩

end

end

end StaticSite
