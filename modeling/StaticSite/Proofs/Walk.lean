import StaticSite.Proofs.Unfolding
import Mathlib.Data.List.Perm.Subperm

/-!
# Walks over unfolded data

Both walks enter every container of a heap once. On the tree that the data unfolds to, they are
walks that pass over what has been entered, and the levels that the heap has room for are enough.
-/

namespace StaticSite

namespace Value.Seen

def Has (seen : Seen) : Mark → Prop
  | (true, label) => label ∈ seen.tuples
  | (false, id) => id ∈ seen.containers

instance (seen : Seen) : (mark : Mark) → Decidable (seen.Has mark)
  | (true, label) => inferInstanceAs (Decidable (label ∈ seen.tuples))
  | (false, id) => inferInstanceAs (Decidable (id ∈ seen.containers))

def add (seen : Seen) : Mark → Seen
  | (true, label) => { seen with tuples := label :: seen.tuples }
  | (false, id) => { seen with containers := id :: seen.containers }

theorem has_add {seen : Seen} {mark other : Mark} :
    (seen.add mark).Has other ↔ other = mark ∨ seen.Has other := by
  obtain ⟨kind, label⟩ := mark
  obtain ⟨kind', label'⟩ := other
  cases kind <;> cases kind' <;> simp [add, Has]

end Value.Seen

/-- The context of what stands under a member's key. -/
def Relink.Context.under (context : Context) (key : Option Value) : Context :=
  { context with key := Value.keyUnder context.key key }

namespace Members

open Value (Seen Found)

/-- The strings met by a walk that passes over what has been entered. -/
def walk : Members Nat → Option String → Seen → Found
  | .nil, _, seen => ([], seen)
  | .atom _ _ rest, key, seen => rest.walk key seen
  | .str k s rest, key, seen =>
    ((Value.keyUnder key k, s) :: (rest.walk key seen).1, (rest.walk key seen).2)
  | .node k shape label inside rest, key, seen =>
    let first :=
      if seen.Has (shape.mark label) then ([], seen)
      else inside.walk (Value.keyUnder key k) (seen.add (shape.mark label))
    (first.1 ++ (rest.walk key first.2).1, (rest.walk key first.2).2)

/-- The containers visited by a walk that passes over those visited before. -/
def visit : Members Nat → Relink.Context → Relink.Visits → Relink.Visits
  | .nil, _, visits => visits
  | .atom _ _ rest, context, visits => rest.visit context visits
  | .str _ _ rest, context, visits => rest.visit context visits
  | .node k shape id inside rest, context, visits =>
    rest.visit context <|
      if shape = .tuple then inside.visit (context.under k) visits
      else if id ∈ visits.map (·.1) then visits
      else inside.visit (context.under k) ((id, context.under k) :: visits)

end Members

/-! ## Levels -/

/-- As many levels are left as the heap has containers that have not been entered. -/
structure Room (heap : Heap) (levels : Nat) (entered : List Nat) : Prop where
  nodup : entered.Nodup
  bounded : ∀ id ∈ entered, id < heap.objects.size
  enough : heap.objects.size ≤ levels + entered.length

namespace Room

variable {heap : Heap} {levels : Nat} {entered : List Nat} {id : Nat}

theorem start (heap : Heap) : Room heap heap.objects.size [] :=
  ⟨List.nodup_nil, by simp, by simp⟩

theorem mem_of_none (room : Room heap 0 entered) (bound : id < heap.objects.size) :
    id ∈ entered := by
  have within : entered ⊆ List.range heap.objects.size := fun other member =>
    List.mem_range.mpr (room.bounded other member)
  have all : entered.Perm (List.range heap.objects.size) := by
    refine (room.nodup.subperm within).perm_of_length_le ?_
    have enough := room.enough
    rw [List.length_range]
    omega
  exact all.mem_iff.mpr (List.mem_range.mpr bound)

theorem cons (room : Room heap levels entered) (new : id ∉ entered)
    (bound : id < heap.objects.size) : Room heap (levels - 1) (id :: entered) := by
  refine ⟨List.nodup_cons.mpr ⟨new, room.nodup⟩, List.forall_mem_cons.mpr ⟨bound, room.bounded⟩, ?_⟩
  have enough := room.enough
  rw [List.length_cons]
  omega

theorem more (room : Room heap (levels - 1) entered) : Room heap levels entered := by
  refine ⟨room.nodup, room.bounded, ?_⟩
  have enough := room.enough
  omega

end Room

theorem Heap.lt_of_container? {heap : Heap} {id : Nat} {container : Container}
    (found : heap.container? id = some container) : id < heap.objects.size := by
  obtain ⟨bound, -⟩ := Array.getElem?_eq_some_iff.mp found
  exact bound

/-! ## The walk for strings -/

namespace Value

/-- The strings of members, whatever container holds them. -/
def stringsInMembers (enter : Enter) (key : Option String) :
    List (Option Value × Value) → Seen → Found
  | [], seen => ([], seen)
  | (k, value) :: members, seen =>
    let first := stringsIn enter (keyUnder key k) value seen
    let others := stringsInMembers enter key members first.2
    (first.1 ++ others.1, others.2)

theorem stringsInAll_eq (enter : Enter) (key : Option String) (items : List Value) (seen : Seen) :
    stringsInAll enter key items seen =
      stringsInMembers enter key (items.map fun item => (none, item)) seen := by
  induction items generalizing seen with
  | nil => rfl
  | cons item items ih => simp only [stringsInAll, List.map_cons, stringsInMembers, keyUnder, ih]

theorem stringsInEntries_eq (enter : Enter) (key : Option String) (entries : Entries)
    (seen : Seen) :
    stringsInEntries enter key entries seen =
      stringsInMembers enter key (entries.map fun (k, value) => (some k, value)) seen := by
  induction entries generalizing seen with
  | nil => rfl
  | cons entry entries ih =>
    simp only [stringsInEntries, List.map_cons, stringsInMembers, keyUnder, ih]

/-- A container is entered through its members, unless that has been done. -/
theorem enterContainer_eq {heap : Heap} {levels id : Nat} {key : Option String} {seen : Seen}
    {container : Container} (found : heap.container? id = some container)
    (room : Room heap levels seen.containers) :
    enterContainer heap levels key id seen =
      if id ∈ seen.containers then ([], seen)
      else
        stringsInMembers (enterContainer heap (levels - 1)) key container.members
          { seen with containers := id :: seen.containers } := by
  by_cases entered : id ∈ seen.containers
  · cases levels <;> simp [enterContainer, entered]
  · cases levels with
    | zero => exact absurd (room.mem_of_none (Heap.lt_of_container? found)) entered
    | succ levels =>
      rw [enterContainer, if_neg entered, if_neg entered, found]
      cases container with
      | dict entries => exact stringsInEntries_eq _ _ _ _
      | list items => exact stringsInAll_eq _ _ _ _

end Value

namespace Members

open Value (Seen)

theorem walk_room {heap : Heap} {levels : Nat} {members : Members Nat} (there : members.In heap)
    (key : Option String) (seen : Seen) (room : Room heap levels seen.containers) :
    Room heap levels (members.walk key seen).2.containers := by
  induction members generalizing key seen with
  | nil => exact room
  | atom k value rest ih => exact ih there.2.2 key seen room
  | str k s rest ih => exact ih there.2 key seen room
  | node k shape label inside rest ihInside ih =>
    obtain ⟨-, stands, inner, later⟩ := there
    refine ih later key _ ?_
    split
    · exact room
    next new =>
      refine ihInside inner _ _ ?_
      by_cases tuple : shape = .tuple
      · subst tuple
        exact room
      · rw [Shape.mark_container tuple] at new ⊢
        obtain ⟨container, found, -⟩ := stands.container tuple
        exact (room.cons new (Heap.lt_of_container? found)).more

theorem stringsInMembers_toList {heap : Heap} {levels : Nat} {members : Members Nat}
    (there : members.In heap) (key : Option String) (seen : Seen)
    (room : Room heap levels seen.containers) :
    Value.stringsInMembers (Value.enterContainer heap levels) key members.toList seen =
      members.walk key seen := by
  induction members generalizing key seen levels with
  | nil => rfl
  | atom k value rest ih =>
    obtain ⟨-, isAtom, later⟩ := there
    have none : Value.stringsIn (Value.enterContainer heap levels) (Value.keyUnder key k) value
        seen = ([], seen) := by
      cases value <;> first | rfl | cases isAtom
    simp only [toList, Value.stringsInMembers, none, walk, ih later key seen room, List.nil_append]
  | str k s rest ih =>
    simp only [toList, Value.stringsInMembers, Value.stringsIn, walk, ih there.2 key seen room,
      List.singleton_append]
  | node k shape label inside rest ihInside ih =>
    obtain ⟨isKey, stands, inner, later⟩ := there
    have first : Value.stringsIn (Value.enterContainer heap levels) (Value.keyUnder key k)
        (shape.value label inside.toList) seen =
        if seen.Has (shape.mark label) then ([], seen)
        else inside.walk (Value.keyUnder key k) (seen.add (shape.mark label)) := by
      by_cases tuple : shape = .tuple
      · subst tuple
        have entered := ihInside inner (Value.keyUnder key k)
          { seen with tuples := label :: seen.tuples } room
        rw [← map_item_map_snd stands, ← Value.stringsInAll_eq] at entered
        exact if_congr Iff.rfl rfl entered
      · obtain ⟨container, found, -, held⟩ := stands.container tuple
        rw [Shape.value_container tuple, Shape.mark_container tuple, Value.stringsIn,
          Value.enterContainer_eq found room, held]
        refine ite_congr rfl (fun _ => rfl) fun new => ?_
        exact ihInside inner _ _ (room.cons new (Heap.lt_of_container? found))
    have left : Room heap levels (if seen.Has (shape.mark label) then (([] : List _), seen)
        else inside.walk (Value.keyUnder key k) (seen.add (shape.mark label))).2.containers := by
      have alone : (node k shape label inside nil).In heap := ⟨isKey, stands, inner, trivial⟩
      exact walk_room alone key seen room
    simp only [toList, Value.stringsInMembers, walk, first, ih later key _ left]

end Members

/-! ## What the walk passes over -/

namespace Members

open Value (Seen)

def Reach.strings {ι : Type} (reach : Reach ι) : List Value.Occurrence :=
  reach.inside.strings reach.key

/-- What is reached, and the strings that stand before it. -/
structure Passage (ι : Type) where
  before : List Value.Occurrence
  reach : Reach ι

/-- The containers and tuples of the tree in order, with the strings before each. -/
def passages {ι : Type} (key : Option String) (before : List Value.Occurrence) :
    Members ι → List (Passage ι)
  | .nil => []
  | .atom _ _ rest => rest.passages key before
  | .str k s rest => rest.passages key (before ++ [(Value.keyUnder key k, s)])
  | .node k shape label inside rest =>
    ⟨before, ⟨shape, label, Value.keyUnder key k, inside⟩⟩ ::
      (inside.passages (Value.keyUnder key k) before ++
        rest.passages key (before ++ inside.strings (Value.keyUnder key k)))

theorem map_reach_passages {ι : Type} (key : Option String) (before : List Value.Occurrence)
    (members : Members ι) :
    (members.passages key before).map (·.reach) = members.reaches key := by
  induction members generalizing key before with
  | nil => rfl
  | atom k value rest ih => exact ih key before
  | str k s rest ih => exact ih key _
  | node k shape label inside rest ihInside ih =>
    simp only [passages, reaches, List.map_cons, List.map_append, ihInside, ih]

theorem has_walk {members : Members Nat} {key : Option String} {seen : Seen} {mark : Mark}
    (has : (members.walk key seen).2.Has mark) :
    seen.Has mark ∨ ∃ reach ∈ members.reaches key, reach.mark = mark := by
  induction members generalizing key seen with
  | nil => exact .inl has
  | atom k value rest ih => exact ih has
  | str k s rest ih => exact ih has
  | node k shape label inside rest ihInside ih =>
    rcases ih has with before | ⟨reach, reached, marked⟩
    · split at before
      next => exact .inl before
      next new =>
        rcases ihInside before with entering | ⟨reach, reached, marked⟩
        · rcases Seen.has_add.mp entering with rfl | before
          · exact .inr ⟨_, List.mem_cons_self .., rfl⟩
          · exact .inl before
        · exact .inr ⟨reach, List.mem_cons_of_mem _ (List.mem_append_left _ reached), marked⟩
    · exact .inr ⟨reach, List.mem_cons_of_mem _ (List.mem_append_right _ reached), marked⟩

theorem walk_subset {members : Members Nat} {key : Option String} {seen : Seen} :
    ∀ occurrence ∈ (members.walk key seen).1, occurrence ∈ members.strings key := by
  intro occurrence found
  induction members generalizing key seen with
  | nil => exact found
  | atom k value rest ih => exact ih found
  | str k s rest ih =>
    rcases List.mem_cons.mp found with rfl | later
    · exact List.mem_cons_self ..
    · exact List.mem_cons_of_mem _ (ih later)
  | node k shape label inside rest ihInside ih =>
    rcases List.mem_append.mp found with within | later
    · split at within
      · cases within
      · exact List.mem_append_left _ (ihInside within)
    · exact List.mem_append_right _ (ih later)

/-- What has been seen after a walk is accounted for by the passages before it and those of it. -/
theorem exists_passage_walk {past : List (Passage Nat)} {seen : Seen}
    (known : ∀ mark, seen.Has mark → ∃ passage ∈ past, passage.reach.mark = mark)
    (members : Members Nat) (key : Option String) (before : List Value.Occurrence) :
    ∀ mark, (members.walk key seen).2.Has mark →
      ∃ passage ∈ past ++ members.passages key before, passage.reach.mark = mark := by
  intro mark has
  rcases has_walk has with seenBefore | ⟨reach, reached, marked⟩
  · obtain ⟨earlier, member, marked⟩ := known mark seenBefore
    exact ⟨earlier, List.mem_append_left _ member, marked⟩
  · rw [← map_reach_passages key before] at reached
    obtain ⟨passage, passed, rfl⟩ := List.mem_map.mp reached
    exact ⟨passage, List.mem_append_right _ passed, marked⟩

/-- If something is reached again, then its strings have no effect there. -/
def Idle {σ : Type} (effect : List Value.Occurrence → σ) (first later : Passage Nat) : Prop :=
  first.reach.mark = later.reach.mark →
    effect (later.before ++ later.reach.strings) = effect later.before

/--
What a walk finds has the effect of all strings, if what it passes over has none. The passages in
`past` account for all that has been seen when the walk starts.
-/
theorem effect_walk {σ : Type} {effect : List Value.Occurrence → σ}
    (onward : ∀ first second, effect first = effect second →
      ∀ more, effect (first ++ more) = effect (second ++ more))
    {members : Members Nat} {key : Option String} {before : List Value.Occurrence}
    {past : List (Passage Nat)} {seen : Seen}
    (idle : (past ++ members.passages key before).Pairwise (Idle effect))
    (known : ∀ mark, seen.Has mark → ∃ passage ∈ past, passage.reach.mark = mark) :
    effect (before ++ (members.walk key seen).1) = effect (before ++ members.strings key) := by
  induction members generalizing key before past seen with
  | nil => rfl
  | atom k value rest ih => exact ih idle known
  | str k s rest ih =>
    have others := ih idle known
    rwa [List.append_assoc, List.append_assoc] at others
  | node k shape label inside rest ihInside ih =>
    let entering : Passage Nat := ⟨before, ⟨shape, label, Value.keyUnder key k, inside⟩⟩
    -- Passed over or walked through, the member has the effect of its strings.
    have first : effect (before ++
        (if seen.Has (shape.mark label) then ([], seen)
        else inside.walk (Value.keyUnder key k) (seen.add (shape.mark label))).1) =
        effect (before ++ inside.strings (Value.keyUnder key k)) := by
      split
      next has =>
        obtain ⟨earlier, member, marked⟩ := known _ has
        have again : Idle effect earlier entering :=
          (List.pairwise_append.mp idle).2.2 earlier member entering (List.mem_cons_self ..)
        rw [List.append_nil]
        exact (again marked).symm
      next new =>
        have idleInside : ((past ++ [entering]) ++
            inside.passages (Value.keyUnder key k) before).Pairwise (Idle effect) := by
          refine idle.sublist ?_
          simp [passages, entering]
        refine ihInside idleInside fun mark has => ?_
        rcases Seen.has_add.mp has with rfl | seenBefore
        · exact ⟨entering, by simp, rfl⟩
        · obtain ⟨earlier, member, marked⟩ := known mark seenBefore
          exact ⟨earlier, List.mem_append_left _ member, marked⟩
    have idleRest : ((past ++ (node k shape label inside nil).passages key before) ++
        rest.passages key (before ++ inside.strings (Value.keyUnder key k))).Pairwise
          (Idle effect) := by
      simpa [passages] using idle
    have knownRest := exists_passage_walk known (node k shape label inside nil) key before
    have others := ih idleRest knownRest
    rw [walk, strings, ← List.append_assoc, ← List.append_assoc]
    exact (onward _ _ first _).trans others

end Members

/-! ## The walk for visits -/

namespace Relink

/-- Visits what members hold, whatever container holds them. -/
def visitMembers (enter : Enter) (context : Context) :
    List (Option Value × Value) → Visits → Visits
  | [], visits => visits
  | (k, value) :: members, visits =>
    visitMembers enter context members (visit enter (context.under k) value visits)

theorem visitAll_eq (enter : Enter) (context : Context) (items : List Value) (visits : Visits) :
    visitAll enter context items visits =
      visitMembers enter context (items.map fun item => (none, item)) visits := by
  induction items generalizing visits with
  | nil => rfl
  | cons item items ih =>
    rw [visitAll, ih]
    rfl

theorem visitEntries_eq (enter : Enter) (context : Context) (entries : Entries)
    (visits : Visits) :
    visitEntries enter context entries visits =
      visitMembers enter context (entries.map fun (k, value) => (some k, value)) visits := by
  induction entries generalizing visits with
  | nil => rfl
  | cons entry entries ih =>
    rw [visitEntries, ih]
    rfl

/-- A container is visited with its members, unless that has been done. -/
theorem enterContainer_eq {heap : Heap} {levels id : Nat} {context : Context} {visits : Visits}
    {container : Container} (found : heap.container? id = some container)
    (room : Room heap levels (visits.map (·.1))) :
    enterContainer heap levels context id visits =
      if id ∈ visits.map (·.1) then visits
      else
        visitMembers (enterContainer heap (levels - 1)) context container.members
          ((id, context) :: visits) := by
  by_cases entered : id ∈ visits.map (·.1)
  · cases levels with
    | zero => rw [enterContainer, if_pos entered]
    | succ levels => rw [enterContainer, if_pos entered, if_pos entered]
  · cases levels with
    | zero => exact absurd (room.mem_of_none (Heap.lt_of_container? found)) entered
    | succ levels =>
      rw [enterContainer, if_neg entered, if_neg entered, found]
      cases container with
      | dict entries => exact visitEntries_eq _ _ _ _
      | list items => exact visitAll_eq _ _ _ _

end Relink

namespace Members

open Relink (Context Visits)

theorem visit_room {heap : Heap} {levels : Nat} {members : Members Nat} (there : members.In heap)
    (context : Context) (visits : Visits) (room : Room heap levels (visits.map (·.1))) :
    Room heap levels ((members.visit context visits).map (·.1)) := by
  induction members generalizing context visits with
  | nil => exact room
  | atom k value rest ih => exact ih there.2.2 context visits room
  | str k s rest ih => exact ih there.2 context visits room
  | node k shape id inside rest ihInside ih =>
    obtain ⟨-, stands, inner, later⟩ := there
    refine ih later context _ ?_
    split
    · exact ihInside inner _ _ room
    next tuple =>
      split
      · exact room
      next new =>
        obtain ⟨container, found, -⟩ := stands.container tuple
        exact ihInside inner _ _ (room.cons new (Heap.lt_of_container? found)).more

theorem visitMembers_toList {heap : Heap} {levels : Nat} {members : Members Nat}
    (there : members.In heap) (context : Context) (visits : Visits)
    (room : Room heap levels (visits.map (·.1))) :
    Relink.visitMembers (Relink.enterContainer heap levels) context members.toList visits =
      members.visit context visits := by
  induction members generalizing context visits levels with
  | nil => rfl
  | atom k value rest ih =>
    obtain ⟨-, isAtom, later⟩ := there
    have none : Relink.visit (Relink.enterContainer heap levels) (context.under k) value visits =
        visits := by
      cases value <;> first | rfl | cases isAtom
    simp only [toList, Relink.visitMembers, none, visit, ih later context visits room]
  | str k s rest ih =>
    simp only [toList, Relink.visitMembers, Relink.visit, visit, ih there.2 context visits room]
  | node k shape id inside rest ihInside ih =>
    obtain ⟨isKey, stands, inner, later⟩ := there
    have first : Relink.visit (Relink.enterContainer heap levels) (context.under k)
        (shape.value id inside.toList) visits =
        (node k shape id inside nil).visit context visits := by
      by_cases tuple : shape = .tuple
      · subst tuple
        have entered := ihInside inner (context.under k) visits room
        rw [← map_item_map_snd stands, ← Relink.visitAll_eq] at entered
        exact entered
      · obtain ⟨container, found, -, held⟩ := stands.container tuple
        rw [Shape.value_container tuple, Relink.visit, Relink.enterContainer_eq found room, held,
          visit, if_neg tuple]
        refine ite_congr rfl (fun _ => rfl) fun new => ?_
        exact ihInside inner _ _ (room.cons new (Heap.lt_of_container? found))
    have alone : (node k shape id inside nil).In heap := ⟨isKey, stands, inner, trivial⟩
    have left := visit_room alone context visits room
    simp only [toList, Relink.visitMembers, first, ih later context _ left]
    rfl

end Members

namespace Reading

variable {heap : Heap}

/-- The strings of the props are those that the walk over the tree meets. -/
theorem strings_eq (reading : Reading heap) :
    Value.strings heap none reading.component.props =
      (reading.unfolded.walk none ⟨[], []⟩).1 := by
  have walked := Members.stringsInMembers_toList reading.unfolded_in none ⟨[], []⟩ (.start heap)
  rw [← walked]
  simp [unfolded, Members.toList, Value.stringsInMembers, Value.strings, Shape.value,
    Value.keyUnder, component]

theorem strings_unfolded (reading : Reading heap) :
    reading.unfolded.strings none = reading.plain.members.strings none := by
  simp [unfolded, plain, Members.strings, Members.strings_plain, Value.keyUnder]

theorem strings_subset (reading : Reading heap) {occurrence : Value.Occurrence}
    (found : occurrence ∈ Value.strings heap none reading.component.props) :
    occurrence ∈ reading.plain.members.strings none := by
  rw [reading.strings_eq] at found
  rw [← strings_unfolded]
  exact Members.walk_subset occurrence found

/-- What the walk over the props finds has the effect of all their strings. -/
theorem effect_strings {σ : Type} {effect : List Value.Occurrence → σ}
    (onward : ∀ first second, effect first = effect second →
      ∀ more, effect (first ++ more) = effect (second ++ more))
    {reading : Reading heap}
    (idle : (reading.unfolded.passages none []).Pairwise (Members.Idle effect)) :
    effect (Value.strings heap none reading.component.props) =
      effect (reading.plain.members.strings none) := by
  have unseen : ∀ mark, Value.Seen.Has ⟨[], []⟩ mark →
      ∃ passage ∈ ([] : List (Members.Passage Nat)), passage.reach.mark = mark := by
    rintro ⟨kind, label⟩ has
    cases kind <;> simp [Value.Seen.Has] at has
  have idleAll : ([] ++ reading.unfolded.passages none []).Pairwise (Members.Idle effect) := idle
  have walked := Members.effect_walk onward idleAll unseen
  rwa [← reading.strings_eq, strings_unfolded] at walked

theorem dict?_props (reading : Reading heap) :
    (heap.dict? reading.component.props).isSome := by
  obtain ⟨container, found, isDict, -⟩ := reading.stands
  cases container with
  | dict entries => simp [component, Heap.dict?, found]
  | list items => cases isDict

theorem visitComponent_eq (reading : Reading heap) (catalog : Option Catalog)
    {visits : Relink.Visits} (room : Room heap heap.objects.size (visits.map (·.1))) :
    Relink.visitComponent heap catalog reading.type reading.component.props visits =
      reading.unfolded.visit ⟨none, Catalog.urlFields? catalog reading.type⟩ visits := by
  have walked := Members.visitMembers_toList reading.unfolded_in
    ⟨none, Catalog.urlFields? catalog reading.type⟩ visits room
  obtain ⟨entries, found⟩ := Option.isSome_iff_exists.mp reading.dict?_props
  rw [← walked, Relink.visitComponent, found]
  rfl

end Reading

end StaticSite
