import StaticSite.Proofs.Walk

/-!
# Copies of components

Relinking starts from a copy of the whole heap that lies behind the old one. What a component
unfolds to in the copy is what it unfolds to before, with other labels.
-/

namespace StaticSite

namespace Value

theorem shift_of_isAtom {value : Value} (isAtom : value.isAtom = true) (offset : Nat) :
    value.shift offset = value := by
  cases value <;> first | rfl | cases isAtom

mutual

theorem shift_of_hashable {heap : Heap} (offset : Nat) :
    (value : Value) → heap.unhashable? value = none → value.shift offset = value
  | .ref id, hashable => by cases hashable
  | .tuple label items, hashable => by
    rw [shift, shiftAll_of_hashable offset items hashable]
  | .null, _ => rfl
  | .bool _, _ => rfl
  | .int _, _ => rfl
  | .float _, _ => rfl
  | .str _, _ => rfl
  | .date _, _ => rfl
  | .datetime _, _ => rfl
  | .time _, _ => rfl
  | .unknown, _ => rfl

theorem shiftAll_of_hashable {heap : Heap} (offset : Nat) :
    (items : List Value) → heap.anyUnhashable? items = none → shiftAll offset items = items
  | [], _ => rfl
  | item :: items, hashable => by
    simp only [Heap.anyUnhashable?, Option.or_eq_none_iff] at hashable
    rw [shiftAll, shift_of_hashable offset item hashable.1,
      shiftAll_of_hashable offset items hashable.2]

end

theorem shiftAll_eq_map (offset : Nat) (items : List Value) :
    shiftAll offset items = items.map (shift offset) := by
  induction items with
  | nil => rfl
  | cons item items ih => rw [shiftAll, ih, List.map_cons]

end Value

namespace Heap

mutual

theorem unhashable?_eq_none {heap other : Heap} :
    (value : Value) → heap.unhashable? value = none → other.unhashable? value = none
  | .ref _, hashable => by cases hashable
  | .tuple _ items, hashable => anyUnhashable?_eq_none items hashable
  | .null, _ => rfl
  | .bool _, _ => rfl
  | .int _, _ => rfl
  | .float _, _ => rfl
  | .str _, _ => rfl
  | .date _, _ => rfl
  | .datetime _, _ => rfl
  | .time _, _ => rfl
  | .unknown, hashable => by cases hashable

theorem anyUnhashable?_eq_none {heap other : Heap} :
    (items : List Value) → heap.anyUnhashable? items = none → other.anyUnhashable? items = none
  | [], _ => rfl
  | item :: items, hashable => by
    simp only [Heap.anyUnhashable?, Option.or_eq_none_iff] at hashable ⊢
    exact ⟨unhashable?_eq_none item hashable.1, anyUnhashable?_eq_none items hashable.2⟩

end

theorem IsKey.other {heap other : Heap} {key : Option Value} (isKey : heap.IsKey key) :
    other.IsKey key :=
  fun k member => unhashable?_eq_none k (isKey k member)

theorem IsKey.shift {heap : Heap} {key : Option Value} (isKey : heap.IsKey key) (offset : Nat) :
    key.map (Value.shift offset) = key := by
  cases key with
  | none => rfl
  | some k => rw [Option.map_some, Value.shift_of_hashable offset k (isKey k rfl)]

theorem container?_withCopy (heap : Heap) (id : Nat) :
    heap.withCopy.container? (id + heap.objects.size) =
      (heap.container? id).map (Container.shift heap.objects.size) := by
  have behind : ¬ id + heap.objects.size < heap.objects.size := by omega
  simp [container?, withCopy, Array.getElem?_append, behind]

end Heap

theorem Container.members_shift (container : Container) (offset : Nat) :
    (container.shift offset).members =
      container.members.map fun member =>
        (member.1.map (Value.shift offset), member.2.shift offset) := by
  cases container <;> simp [shift, members]

theorem Container.shape_shift (container : Container) (offset : Nat) :
    (container.shift offset).shape = container.shape := by
  cases container <;> rfl

namespace Members

/-- The tree with the labels of its containers moved up. -/
def shift (offset : Nat) : Members Nat → Members Nat
  | .nil => .nil
  | .atom k value rest => .atom k value (rest.shift offset)
  | .str k s rest => .str k s (rest.shift offset)
  | .node k shape label inside rest =>
    .node k shape (if shape = .tuple then label else label + offset) (inside.shift offset)
      (rest.shift offset)

def Reach.shift (offset : Nat) (reach : Reach Nat) : Reach Nat :=
  { reach with
    label := if reach.shape = .tuple then reach.label else reach.label + offset
    inside := reach.inside.shift offset }

theorem plain_shift (offset : Nat) (members : Members Nat) :
    (members.shift offset).plain = members.plain := by
  induction members with
  | nil => rfl
  | atom k value rest ih => simp only [shift, plain, ih]
  | str k s rest ih => simp only [shift, plain, ih]
  | node k shape label inside rest ihInside ih => simp only [shift, plain, ihInside, ih]

theorem reaches_shift (offset : Nat) (key : Option String) (members : Members Nat) :
    (members.shift offset).reaches key = (members.reaches key).map (Reach.shift offset) := by
  induction members generalizing key with
  | nil => rfl
  | atom k value rest ih => exact ih key
  | str k s rest ih => exact ih key
  | node k shape label inside rest ihInside ih =>
    simp only [shift, reaches, ihInside, ih, List.map_cons, List.map_append, Reach.shift]

section

variable {heap : Heap} {members : Members Nat}

theorem toList_shift (there : members.In heap) (offset : Nat) :
    (members.shift offset).toList =
      members.toList.map fun member =>
        (member.1.map (Value.shift offset), member.2.shift offset) := by
  induction members with
  | nil => rfl
  | atom k value rest ih =>
    obtain ⟨isKey, isAtom, later⟩ := there
    simp only [shift, toList, List.map_cons, isKey.shift, Value.shift_of_isAtom isAtom, ih later]
  | str k s rest ih =>
    simp only [shift, toList, List.map_cons, there.1.shift, Value.shift, ih there.2]
  | node k shape label inside rest ihInside ih =>
    obtain ⟨isKey, -, inner, later⟩ := there
    have value : shape.value (if shape = .tuple then label else label + offset)
        (inside.shift offset).toList = (shape.value label inside.toList).shift offset := by
      cases shape with
      | tuple =>
        rw [ihInside inner]
        simp [Shape.value, Value.shift, Value.shiftAll_eq_map]
      | _ => rfl
    simp only [shift, toList, List.map_cons, isKey.shift, value, ih later]

theorem in_shift (there : members.In heap) :
    (members.shift heap.objects.size).In heap.withCopy := by
  induction members with
  | nil => trivial
  | atom k value rest ih => exact ⟨there.1.other, there.2.1, ih there.2.2⟩
  | str k s rest ih => exact ⟨there.1.other, ih there.2⟩
  | node k shape label inside rest ihInside ih =>
    obtain ⟨isKey, stands, inner, later⟩ := there
    refine ⟨isKey.other, ?_, ihInside inner, ih later⟩
    rw [toList_shift inner]
    by_cases tuple : shape = .tuple
    · subst tuple
      intro member holds
      obtain ⟨old, inOld, rfl⟩ := List.mem_map.mp holds
      simp [stands old inOld]
    · obtain ⟨container, found, isShape, held⟩ := stands.container tuple
      have copied : heap.withCopy.container? (label + heap.objects.size) =
          some (container.shift heap.objects.size) := by
        rw [Heap.container?_withCopy, found, Option.map_some]
      rw [if_neg tuple]
      refine Heap.Stands.ofContainer tuple copied ?_ ?_
      · rw [Container.shape_shift, isShape]
      · rw [Container.members_shift, held]

end

end Members

/-- The component as it stands in the copy. -/
def Reading.shift {heap : Heap} (reading : Reading heap) : Reading heap.withCopy where
  id := reading.id
  type := reading.type
  zones := reading.zones
  place := reading.place + heap.objects.size
  members := reading.members.shift heap.objects.size
  stands := (Members.in_shift reading.unfolded_in).2.1
  holds := Members.in_shift reading.holds

namespace Reading

variable {heap : Heap}

theorem plain_shift (reading : Reading heap) : reading.shift.plain = reading.plain := by
  simp only [plain, shift, Members.plain_shift]

theorem reaches_shift (reading : Reading heap) :
    reading.shift.reaches = reading.reaches.map (Members.Reach.shift heap.objects.size) :=
  Members.reaches_shift heap.objects.size none reading.unfolded

theorem entry_shift (reading : Reading heap) :
    Relink.shiftEntry heap.objects.size reading.entry = reading.shift.entry := rfl

end Reading

end StaticSite
