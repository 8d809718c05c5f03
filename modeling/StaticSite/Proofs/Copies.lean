import StaticSite.Proofs.Extraction
import StaticSite.Proofs.Relocation

/-!
# Unshared copies

Whatever components share, there is a heap in which the same data stands without sharing: every
container and tuple is given a place of its own, outer before inner and from left to right.
-/

namespace StaticSite

namespace Shape

/-- The container of a shape that holds the members. -/
def container (members : List (Option Value × Value)) : Shape → Container
  | .dict => .dict (members.filterMap fun member => member.1.map fun key => (key, member.2))
  | _ => .list (members.map (·.2))

/-- The members of dicts have keys, those of lists and tuples have none. -/
def Fits (shape : Shape) (members : List (Option Value × Value)) : Prop :=
  ∀ member ∈ members, member.1.isSome = decide (shape = .dict)

theorem shape_container {shape : Shape} (isContainer : shape ≠ .tuple)
    (members : List (Option Value × Value)) : (shape.container members).shape = shape := by
  cases shape with
  | tuple => exact absurd rfl isContainer
  | _ => rfl

theorem Fits.keyless {shape : Shape} {members : List (Option Value × Value)}
    (fits : shape.Fits members) (noDict : shape ≠ .dict) : ∀ member ∈ members, member.1 = none := by
  intro member holds
  have unkeyed := fits member holds
  rwa [decide_eq_false noDict, Option.isSome_eq_false_iff, Option.isNone_iff_eq_none] at unkeyed

theorem members_container {shape : Shape} {members : List (Option Value × Value)}
    (fits : shape.Fits members) : (shape.container members).members = members := by
  cases shape with
  | dict =>
    induction members with
    | nil => rfl
    | cons member members ih =>
      obtain ⟨key, value⟩ := member
      simp only [Fits, List.forall_mem_cons] at fits
      obtain ⟨k, rfl⟩ := Option.isSome_iff_exists.mp fits.1
      have others := ih fits.2
      simp only [container, Container.members] at others ⊢
      simp only [List.filterMap_cons, Option.map_some, List.map_cons, others]
  | list => exact map_item_map_snd (fits.keyless (by simp))
  | tuple => exact map_item_map_snd (fits.keyless (by simp))

end Shape

theorem Heap.Stands.fits {heap : Heap} {shape : Shape} {label : Nat}
    {members : List (Option Value × Value)} (stands : heap.Stands shape label members) :
    shape.Fits members := by
  intro member holds
  by_cases tuple : shape = .tuple
  · subst tuple
    rw [stands member holds]
    rfl
  · obtain ⟨container, -, rfl, rfl⟩ := stands.container tuple
    cases container with
    | dict entries =>
      obtain ⟨entry, -, rfl⟩ := List.mem_map.mp holds
      rfl
    | list items =>
      obtain ⟨item, -, rfl⟩ := List.mem_map.mp holds
      rfl

namespace Members

/-- How many containers and tuples the tree has. -/
def count {ι : Type} : Members ι → Nat
  | .nil => 0
  | .atom _ _ rest => rest.count
  | .str _ _ rest => rest.count
  | .node _ _ _ inside rest => inside.count + rest.count + 1

/-- The tree with its containers and tuples numbered in order. -/
def relabel {ι : Type} (start : Nat) : Members ι → Members Nat
  | .nil => .nil
  | .atom key value rest => .atom key value (rest.relabel start)
  | .str key s rest => .str key s (rest.relabel start)
  | .node key shape _ inside rest =>
    .node key shape start (inside.relabel (start + 1)) (rest.relabel (start + 1 + inside.count))

/-- A container for each container and tuple of the tree, in order. -/
def objects : Members Nat → List Container
  | .nil => []
  | .atom _ _ rest => rest.objects
  | .str _ _ rest => rest.objects
  | .node _ shape _ inside rest =>
    shape.container inside.toList :: (inside.objects ++ rest.objects)

theorem plain_relabel {ι : Type} (start : Nat) (members : Members ι) :
    (members.relabel start).plain = members.plain := by
  induction members generalizing start with
  | nil => rfl
  | atom k value rest ih => simp only [relabel, plain, ih]
  | str k s rest ih => simp only [relabel, plain, ih]
  | node k shape label inside rest ihInside ih => simp only [relabel, plain, ihInside, ih]

theorem length_objects_relabel {ι : Type} (start : Nat) (members : Members ι) :
    (members.relabel start).objects.length = members.count := by
  induction members generalizing start with
  | nil => rfl
  | atom k value rest ih => exact ih start
  | str k s rest ih => exact ih start
  | node k shape label inside rest ihInside ih =>
    simp only [relabel, objects, count, List.length_cons, List.length_append, ihInside, ih]

theorem keys_relabel (start : Nat) (members : Members Nat) :
    (members.relabel start).toList.map (·.1) = members.toList.map (·.1) := by
  induction members generalizing start with
  | nil => rfl
  | atom k value rest ih => simp only [relabel, toList, List.map_cons, ih]
  | str k s rest ih => simp only [relabel, toList, List.map_cons, ih]
  | node k shape label inside rest ihInside ih =>
    simp only [relabel, toList, List.map_cons, ih]

theorem labels_relabel {ι : Type} (start : Nat) (key : Option String) (members : Members ι) :
    ((members.relabel start).reaches key).map (·.label) = List.range' start members.count := by
  induction members generalizing start key with
  | nil => rfl
  | atom k value rest ih => exact ih start key
  | str k s rest ih => exact ih start key
  | node k shape label inside rest ihInside ih =>
    simp only [relabel, reaches, count, List.map_cons, List.map_append, ihInside, ih,
      List.range'_succ, List.range'_append_1]

section

variable {heap after : Heap} {members : Members Nat}

theorem fits_relabel {shape : Shape} (fits : shape.Fits members.toList) (start : Nat) :
    shape.Fits (members.relabel start).toList := by
  intro member holds
  have inKeys : member.1 ∈ members.toList.map (·.1) := by
    rw [← keys_relabel start]
    exact List.mem_map_of_mem holds
  obtain ⟨old, inOld, same⟩ := List.mem_map.mp inKeys
  rw [← same]
  exact fits old inOld

/-- Where the containers lie in order, the numbered tree stands. -/
theorem in_relabel (there : members.In heap) (start : Nat)
    (placed : ∀ i < members.count,
      after.container? (start + i) = (members.relabel start).objects[i]?) :
    (members.relabel start).In after := by
  induction members generalizing start with
  | nil => trivial
  | atom k value rest ih => exact ⟨there.1.other, there.2.1, ih there.2.2 start placed⟩
  | str k s rest ih => exact ⟨there.1.other, ih there.2 start placed⟩
  | node k shape label inside rest ihInside ih =>
    obtain ⟨isKey, stands, inner, later⟩ := there
    simp only [count, relabel, objects] at placed
    have fits := fits_relabel stands.fits (start + 1)
    refine ⟨isKey.other, ?_, ihInside inner (start + 1) fun i bound => ?_,
      ih later (start + 1 + inside.count) fun i bound => ?_⟩
    · by_cases tuple : shape = .tuple
      · subst tuple
        exact fits.keyless (by simp)
      · have found := placed 0 (Nat.succ_pos _)
        exact Heap.Stands.ofContainer tuple found (Shape.shape_container tuple _)
          (Shape.members_container fits)
    · have found := placed (i + 1) (by omega)
      rw [List.getElem?_cons_succ, List.getElem?_append_left
        (by rw [length_objects_relabel]; exact bound)] at found
      rw [← found]
      congr 1
      omega
    · have found := placed (inside.count + i + 1) (by omega)
      rw [List.getElem?_cons_succ, List.getElem?_append_right
        (by rw [length_objects_relabel]; omega), length_objects_relabel] at found
      rw [Nat.add_sub_cancel_left] at found
      rw [← found]
      congr 1
      omega

end

end Members

namespace Reading

variable {heap : Heap}

/-- The props of the components side by side. -/
def forest : List (Reading heap) → Members Nat
  | [] => .nil
  | reading :: readings => .node none .dict reading.place reading.members (forest readings)

theorem forest_in : (readings : List (Reading heap)) → (forest readings).In heap
  | [] => trivial
  | reading :: readings =>
    ⟨by simp [Heap.IsKey], reading.stands, reading.holds, forest_in readings⟩

theorem exists_forest {after : Heap} (readings : List (Reading heap)) (start : Nat)
    (there : ((forest readings).relabel start).In after) :
    ∃ copies : List (Reading after), copies.map plain = readings.map plain ∧
      copies.flatMap reaches = ((forest readings).relabel start).reaches none := by
  induction readings generalizing start with
  | nil => exact ⟨[], rfl, rfl⟩
  | cons reading readings ih =>
    obtain ⟨-, stands, inner, later⟩ := there
    obtain ⟨copies, same, reached⟩ := ih _ later
    let copy : Reading after :=
      ⟨reading.id, reading.type, reading.zones, start, reading.members.relabel (start + 1), stands,
        inner⟩
    refine ⟨copy :: copies, ?_, ?_⟩
    · simp only [List.map_cons, same, plain, copy, Members.plain_relabel]
    · simp only [List.flatMap_cons, reached, forest, Members.relabel, Members.reaches]
      simp [reaches, unfolded, Members.reaches, copy]

/-- There is a copy of the components in which nothing is shared. -/
theorem exists_unshared (readings : List (Reading heap)) :
    ∃ (after : Heap) (copies : List (Reading after)),
      Unshared copies ∧ readings.map plain = copies.map plain := by
  let after : Heap := ⟨((forest readings).relabel 0).objects.toArray⟩
  have there : ((forest readings).relabel 0).In after := by
    refine Members.in_relabel (forest_in readings) 0 fun i bound => ?_
    simp [after, Heap.container?]
  obtain ⟨copies, same, reached⟩ := exists_forest readings 0 there
  refine ⟨after, copies, ?_, same.symm⟩
  have increasing : ((copies.flatMap reaches).map (·.label)).Pairwise (· < ·) := by
    rw [reached, Members.labels_relabel]
    exact List.pairwise_lt_range'
  rw [List.pairwise_map] at increasing
  refine increasing.imp fun {first later} less marks => ?_
  have labels : first.label = later.label := congrArg Prod.snd marks
  omega

end Reading

end StaticSite
