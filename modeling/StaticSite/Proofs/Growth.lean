import StaticSite.Proofs.Graph
import StaticSite.Proofs.Walk
import StaticSite.Site

/-!
# Heaps that grow

Reading a site adds containers to the heap behind those that the site file has brought. In a closed
heap, where every reference leads to a container, nothing that is added later changes what a value
is: not its kind, not what it holds and not its text.
-/

namespace StaticSite

namespace Heap

/-- All that a value refers to is there. -/
def Has (heap : Heap) (value : Value) : Prop := ∀ id ∈ value.refs, id < heap.objects.size

/-- All that the containers refer to is there, in the keys of dicts, too. -/
def Closed (heap : Heap) : Prop :=
  ∀ id container, heap.container? id = some container →
    ∀ member ∈ container.members, (∀ key ∈ member.1, heap.Has key) ∧ heap.Has member.2

/-- The later heap holds more containers, behind those of the earlier one. -/
def Grows (heap after : Heap) : Prop := ∃ added, after.objects = heap.objects ++ added

instance (heap : Heap) (value : Value) : Decidable (heap.Has value) :=
  inferInstanceAs (Decidable (∀ id ∈ value.refs, id < heap.objects.size))

theorem closed_iff {heap : Heap} :
    heap.Closed ↔ ∀ container ∈ heap.objects.toList, ∀ member ∈ container.members,
      (∀ key ∈ member.1.toList, heap.Has key) ∧ heap.Has member.2 := by
  simp only [Option.mem_toList]
  constructor
  · intro closed container inHeap
    obtain ⟨id, found⟩ := List.getElem?_of_mem inHeap
    exact closed id container (by rwa [container?, ← Array.getElem?_toList])
  · intro all id container found
    exact all container (Array.mem_toList_iff.mpr (Array.mem_of_getElem? found))

instance (heap : Heap) : Decidable heap.Closed := decidable_of_iff' _ closed_iff

section

variable {heap after last : Heap} {value : Value} {id : Nat}

theorem has_ref : heap.Has (.ref id) ↔ id < heap.objects.size := by
  simp [Has, Value.refs]

theorem has_of_isAtom (isAtom : value.isAtom = true) : heap.Has value := by
  simp [Has, Value.refs_of_isAtom isAtom]

theorem has_str (s : String) : heap.Has (.str s) := by
  simp [Has, Value.refs]

theorem has_of_mem {items : List Value} (all : ∀ id ∈ Value.refsAll items, id < heap.objects.size) :
    ∀ item ∈ items, heap.Has item := by
  induction items with
  | nil => simp
  | cons item items ih =>
    simp only [Value.refsAll, List.mem_append, or_imp, forall_and] at all
    exact List.forall_mem_cons.mpr ⟨all.1, ih all.2⟩

@[refl]
theorem Grows.refl (heap : Heap) : heap.Grows heap := ⟨#[], by simp⟩

theorem Grows.trans (first : heap.Grows after) (second : after.Grows last) : heap.Grows last := by
  obtain ⟨added, grown⟩ := first
  obtain ⟨more, longer⟩ := second
  exact ⟨added ++ more, by rw [longer, grown, Array.append_assoc]⟩

theorem has_add {container : Container} :
    (heap.add container).2.Has (.ref (heap.add container).1) := by
  simp [has_ref, add]

theorem grows_add (heap : Heap) (container : Container) : heap.Grows (heap.add container).2 :=
  ⟨#[container], by simp [add]⟩

theorem Grows.size_le (grows : heap.Grows after) : heap.objects.size ≤ after.objects.size := by
  obtain ⟨added, grown⟩ := grows
  simp [grown]

theorem Grows.has (grows : heap.Grows after) (has : heap.Has value) : after.Has value :=
  fun id member => Nat.lt_of_lt_of_le (has id member) grows.size_le

theorem Grows.container? (grows : heap.Grows after) (there : id < heap.objects.size) :
    after.container? id = heap.container? id := by
  obtain ⟨added, grown⟩ := grows
  simp only [Heap.container?, grown, Array.getElem?_append, there, if_true]

/-! ## What a value is -/

section

variable (grows : heap.Grows after) (has : heap.Has value)

include grows has

theorem Grows.dict? : after.dict? value = heap.dict? value := by
  cases value with
  | ref id => simp only [Heap.dict?, grows.container? (has_ref.mp has)]
  | _ => rfl

theorem Grows.list? : after.list? value = heap.list? value := by
  cases value with
  | ref id => simp only [Heap.list?, grows.container? (has_ref.mp has)]
  | _ => rfl

theorem Grows.kind : after.kind value = heap.kind value := by
  cases value with
  | ref id => simp only [Heap.kind, grows.container? (has_ref.mp has)]
  | _ => rfl

theorem Grows.isTruthy : after.isTruthy value = heap.isTruthy value := by
  cases value with
  | ref id => simp only [Heap.isTruthy, grows.container? (has_ref.mp has)]
  | _ => rfl

theorem Grows.items : after.items value = heap.items value := by
  cases value with
  | ref id => simp only [Heap.items, grows.container? (has_ref.mp has)]
  | _ => rfl

theorem Grows.itemsOrNone : after.itemsOrNone value = heap.itemsOrNone value := by
  rw [Heap.itemsOrNone, Heap.itemsOrNone, grows.isTruthy has, grows.items has]

theorem Grows.entriesOrNone (operation : String) :
    after.entriesOrNone value operation = heap.entriesOrNone value operation := by
  rw [Heap.entriesOrNone, Heap.entriesOrNone, grows.isTruthy has, grows.dict? has, grows.kind has]

theorem Grows.either (second : Value) : after.either value second = heap.either value second := by
  rw [Heap.either, Heap.either, grows.isTruthy has]

end

/-! ## What a value holds -/

theorem exists_of_dict? {entries : Entries} (found : heap.dict? value = some entries) :
    ∃ id, value = .ref id ∧ heap.container? id = some (.dict entries) := by
  cases value with
  | ref id =>
    simp only [Heap.dict?] at found
    split at found
    next others container =>
      cases found
      exact ⟨id, rfl, container⟩
    · cases found
  | _ => cases found

theorem exists_of_list? {items : List Value} (found : heap.list? value = some items) :
    ∃ id, value = .ref id ∧ heap.container? id = some (.list items) := by
  cases value with
  | ref id =>
    simp only [Heap.list?] at found
    split at found
    next others container =>
      cases found
      exact ⟨id, rfl, container⟩
    · cases found
  | _ => cases found

theorem has_of_dict? (closed : heap.Closed) {entries : Entries}
    (found : heap.dict? value = some entries) :
    ∀ entry ∈ entries, heap.Has entry.1 ∧ heap.Has entry.2 := by
  intro entry member
  obtain ⟨id, rfl, container⟩ := exists_of_dict? found
  have inContainer : (some entry.1, entry.2) ∈ (Container.dict entries).members :=
    List.mem_map.mpr ⟨entry, member, rfl⟩
  obtain ⟨key, inside⟩ := closed id _ container _ inContainer
  exact ⟨key entry.1 rfl, inside⟩

theorem has_of_mapping {entries : Entries} (found : heap.dict? value = some entries) :
    heap.Has value := by
  obtain ⟨id, rfl, container⟩ := exists_of_dict? found
  exact has_ref.mpr (lt_of_container? container)

theorem has_of_list? (closed : heap.Closed) {items : List Value}
    (found : heap.list? value = some items) : ∀ item ∈ items, heap.Has item := by
  intro item member
  obtain ⟨id, rfl, container⟩ := exists_of_list? found
  have inContainer : (none, item) ∈ (Container.list items).members :=
    List.mem_map.mpr ⟨item, member, rfl⟩
  exact (closed id _ container _ inContainer).2

theorem has_of_items (closed : heap.Closed) (has : heap.Has value) {items : List Value}
    (found : heap.items value = .ok items) : ∀ item ∈ items, heap.Has item := by
  cases value with
  | str s =>
    cases found
    intro item member
    obtain ⟨c, -, rfl⟩ := List.mem_map.mp member
    exact has_str _
  | tuple label others =>
    cases found
    exact has_of_mem has
  | ref id =>
    simp only [Heap.items] at found
    split at found
    next others container =>
      cases found
      have list : heap.list? (.ref id) = some items := by simp [Heap.list?, container]
      exact has_of_list? closed list
    next entries container =>
      cases found
      have dict : heap.dict? (.ref id) = some entries := by simp [Heap.dict?, container]
      intro item member
      obtain ⟨entry, inEntries, rfl⟩ := List.mem_map.mp member
      exact (has_of_dict? closed dict entry inEntries).1
    · cases found
      simp
  | unknown =>
    cases found
    simp
  | _ => cases found

theorem has_get {entries : Entries} (all : ∀ entry ∈ entries, heap.Has entry.2) (key : String) :
    heap.Has (entries.get key) := by
  have found (value : Value) (under : entries.get? key = some value) : heap.Has value := by
    induction entries with
    | nil => cases under
    | cons entry entries ih =>
      obtain ⟨k, other⟩ := entry
      simp only [List.forall_mem_cons] at all
      unfold Entries.get? at under
      split at under
      · cases under
      next s same rest equal =>
        cases equal
        split at under
        · cases under
          exact all.1
        · exact ih all.2 under
      next equal =>
        cases equal
        exact ih all.2 under
  unfold Entries.get
  cases under : entries.get? key with
  | none => exact has_of_isAtom rfl
  | some value => exact found value under

end

end Heap

/-! ## The text of a value -/

namespace Value

section

variable {enter other : Open → Nat → List Char} {containers : List Nat}

mutual

/-- The text depends on how the containers are written that the value refers to itself. -/
theorem innerText_congr : (value : Value) → {opened : Open} → opened.containers = containers →
    (∀ inside : Open, inside.containers = containers →
      ∀ id ∈ value.refs, enter inside id = other inside id) →
    innerText enter opened value = innerText other opened value
  | .ref id, opened, isOpen, same => same opened isOpen id (by simp [refs])
  | .tuple label items, opened, isOpen, same => by
    unfold innerText
    split
    · rfl
    · exact congrArg tupleText (innerTexts_congr items isOpen same)
  | .null, _, _, _ => rfl
  | .bool _, _, _, _ => rfl
  | .int _, _, _, _ => rfl
  | .float _, _, _, _ => rfl
  | .str _, _, _, _ => rfl
  | .date _, _, _, _ => rfl
  | .datetime _, _, _, _ => rfl
  | .time _, _, _, _ => rfl
  | .unknown, _, _, _ => rfl

theorem innerTexts_congr : (items : List Value) → {opened : Open} →
    opened.containers = containers →
    (∀ inside : Open, inside.containers = containers →
      ∀ id ∈ refsAll items, enter inside id = other inside id) →
    innerTexts enter opened items = innerTexts other opened items
  | [], _, _, _ => rfl
  | item :: items, opened, isOpen, same => by
    simp only [refsAll, List.mem_append, or_imp, forall_and] at same
    rw [innerTexts, innerTexts, innerText_congr item isOpen same.1,
      innerTexts_congr items isOpen same.2]

end

end

variable {heap after : Heap}

/-- Levels beyond those that the heap has room for, and later containers, leave no trace. -/
theorem containerText_grows (closed : heap.Closed) (grows : heap.Grows after) {levels more : Nat}
    {opened : Open} {id : Nat} (room : Room heap levels opened.containers) (enough : levels ≤ more)
    (there : id < heap.objects.size) :
    containerText after (more + 1) opened id = containerText heap (levels + 1) opened id := by
  induction levels generalizing more opened id with
  | zero =>
    unfold containerText
    rw [grows.container? there]
    have isOpen : id ∈ opened.containers := room.mem_of_none there
    cases heap.container? id with
    | none => rfl
    | some container => cases container <;> simp [isOpen]
  | succ levels ih =>
    obtain ⟨more, rfl⟩ : ∃ fewer, more = fewer + 1 := ⟨more - 1, by omega⟩
    rw [containerText, containerText, grows.container? there]
    dsimp only
    cases found : heap.container? id with
    | none => rfl
    | some container =>
      by_cases isOpen : id ∈ opened.containers
      · cases container <;> simp [isOpen]
      · have deeper : Room heap levels (id :: opened.containers) := room.cons isOpen there
        have inner (value : Value) (has : heap.Has value) :
            innerText (containerText after (more + 1))
                { opened with containers := id :: opened.containers } value =
              innerText (containerText heap (levels + 1))
                { opened with containers := id :: opened.containers } value :=
          innerText_congr value rfl fun inside isInside inner member =>
            ih (isInside ▸ deeper) (by omega) (has inner member)
        have held := closed id container found
        cases container with
        | dict entries =>
          have each : ∀ entry ∈ entries, heap.Has entry.1 ∧ heap.Has entry.2 := fun entry member =>
            have both := held (some entry.1, entry.2) (List.mem_map.mpr ⟨entry, member, rfl⟩)
            ⟨both.1 entry.1 rfl, both.2⟩
          simp only [if_neg isOpen]
          rw [List.map_congr_left fun entry member => by
            rw [inner entry.1 (each entry member).1, inner entry.2 (each entry member).2]]
        | list items =>
          have each : ∀ item ∈ items, heap.Has item := fun item member =>
            (held (none, item) (List.mem_map.mpr ⟨item, member, rfl⟩)).2
          simp only [if_neg isOpen]
          rw [List.map_congr_left fun item member => inner item (each item member)]

end Value

namespace Heap

variable {heap after : Heap} {value : Value}

theorem Grows.text (grows : heap.Grows after) (closed : heap.Closed) (has : heap.Has value) :
    value.text after = value.text heap := by
  have display : value.display after = value.display heap := by
    unfold Value.display
    rw [Value.innerText_congr value (show (⟨[], []⟩ : Value.Open).containers = [] from rfl)
      fun inside isOpen id member =>
      Value.containerText_grows closed grows (isOpen ▸ Room.start heap) grows.size_le
        (has id member)]
  cases value <;> first | rfl | exact display

theorem Grows.textOrEmpty (grows : heap.Grows after) (closed : heap.Closed)
    (has : heap.Has value) : after.textOrEmpty value = heap.textOrEmpty value := by
  rw [Heap.textOrEmpty, Heap.textOrEmpty, grows.isTruthy has, grows.text closed has]

theorem Grows.timestamp? (grows : heap.Grows after) (closed : heap.Closed)
    (has : heap.Has value) : value.timestamp? after = value.timestamp? heap := by
  have text := grows.text closed has
  cases value with
  | null => rfl
  | datetime t => rfl
  | date d => rfl
  | _ => exact congrArg (fun text => Value.nonEmpty? (Text.trimString text)) text

end Heap

end StaticSite
