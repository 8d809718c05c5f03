import StaticSite.Proofs.Agreement
import StaticSite.Proofs.Cloning

/-!
# Relinking components that share nothing

A component none of whose containers is reached by another one is visited as if it were alone. A
copy is rewritten by its own visit only, and what a string is replaced by depends on what the map
holds for it. So the order of such components changes nothing in the relinked heap.
-/

namespace StaticSite

namespace Ordered

variable {α : Type} {pairs others : List (String × α)} {map other : Ordered α}

theorem get?_ofList_eq_some_iff (distinct : (pairs.map (·.1)).Nodup) {name : String} {value : α} :
    get? (ofList pairs) name = some value ↔ (name, value) ∈ pairs := by
  refine ⟨fun found => ?_, get?_putAll_of_mem distinct⟩
  have known : name ∈ pairs.map (·.1) := by
    by_contra absent
    cases (get?_putAll_of_notMem absent).symm.trans found
  obtain ⟨⟨same, other⟩, member, rfl⟩ := List.mem_map.mp known
  obtain rfl : other = value :=
    Option.some.inj ((get?_putAll_of_mem distinct member).symm.trans found)
  exact member

/-- Where names are distinct, only the pairs count, not their order. -/
theorem get?_ofList_congr (distinct : (pairs.map (·.1)).Nodup)
    (distinct' : (others.map (·.1)).Nodup) (same : ∀ pair, pair ∈ pairs ↔ pair ∈ others) :
    get? (ofList pairs) = get? (ofList others) := by
  funext name
  refine Option.ext fun value => ?_
  rw [get?_ofList_eq_some_iff distinct, get?_ofList_eq_some_iff distinct', same]

theorem isEmpty_iff_get? : map.isEmpty = true ↔ ∀ name, get? map name = none := by
  cases map with
  | nil => simp [get?]
  | cons entry map =>
    refine ⟨fun empty => absurd empty (by simp), fun none => ?_⟩
    simpa [get?] using none entry.1

theorem isEmpty_congr (same : get? map = get? other) : map.isEmpty = other.isEmpty := by
  rw [Bool.eq_iff_iff, isEmpty_iff_get?, isEmpty_iff_get?, same]

end Ordered

/-- Whether two components reach no container in common. -/
def Component.Apart (heap : Heap) (first second : Component) : Prop :=
  ∀ id, heap.Reaches first.props id → ¬ heap.Reaches second.props id

theorem Component.Apart.symm {heap : Heap} {first second : Component}
    (apart : first.Apart heap second) : second.Apart heap first :=
  fun id reaches other => apart id other reaches

namespace Relink

/-! ## Visits of one component -/

section

variable {heap : Heap} {others : Visits} {enter : Enter}

mutual

/-- Visits that are not met stay behind the new ones. -/
theorem visit_append (context : Context) : (value : Value) →
    (∀ id ∈ value.refs, ∀ context visits,
      enter context id (visits ++ others) = enter context id visits ++ others) →
    ∀ visits, visit enter context value (visits ++ others) =
      visit enter context value visits ++ others
  | .tuple _ items, each, visits => visitAll_append context items each visits
  | .ref id, each, visits => each id (List.mem_singleton_self id) context visits
  | .str _, _, _ => rfl
  | .null, _, _ => rfl
  | .bool _, _, _ => rfl
  | .int _, _, _ => rfl
  | .float _, _, _ => rfl
  | .date _, _, _ => rfl
  | .datetime _, _, _ => rfl
  | .time _, _, _ => rfl
  | .unknown, _, _ => rfl

theorem visitAll_append (context : Context) : (items : List Value) →
    (∀ id ∈ Value.refsAll items, ∀ context visits,
      enter context id (visits ++ others) = enter context id visits ++ others) →
    ∀ visits, visitAll enter context items (visits ++ others) =
      visitAll enter context items visits ++ others
  | [], _, _ => rfl
  | item :: items, each, visits => by
    rw [visitAll, visitAll,
      visit_append context item (fun id within => each id (List.mem_append_left _ within)),
      visitAll_append context items fun id later => each id (List.mem_append_right _ later)]

end

theorem visitMembers_append (context : Context) {members : List (Option Value × Value)}
    (each : ∀ id ∈ members.flatMap (·.2.refs), ∀ context visits,
      enter context id (visits ++ others) = enter context id visits ++ others) (visits : Visits) :
    visitMembers enter context members (visits ++ others) =
      visitMembers enter context members visits ++ others := by
  induction members generalizing visits with
  | nil => rfl
  | cons member members ih =>
    simp only [List.flatMap_cons, List.mem_append] at each
    rw [visitMembers, visitMembers,
      visit_append _ member.2 (fun id within => each id (.inl within)),
      ih fun id later => each id (.inr later)]

/-- A container that does not lead to what has been visited is visited as if that were not so. -/
theorem enterContainer_append (levels : Nat) (context : Context) {id : Nat}
    (apart : ∀ inner, Relation.ReflTransGen heap.Holds id inner → inner ∉ others.map (·.1))
    (visits : Visits) :
    enterContainer heap levels context id (visits ++ others) =
      enterContainer heap levels context id visits ++ others := by
  induction levels generalizing context id visits with
  | zero => rfl
  | succ levels ih =>
    have known : id ∈ (visits ++ others).map (·.1) ↔ id ∈ visits.map (·.1) := by
      rw [List.map_append, List.mem_append, or_iff_left (apart id .refl)]
    have within : ∀ container, heap.container? id = some container →
        visitMembers (enterContainer heap levels) context container.members
            ((id, context) :: (visits ++ others)) =
          visitMembers (enterContainer heap levels) context container.members
            ((id, context) :: visits) ++ others := by
      intro container found
      refine visitMembers_append context (fun inner refers context visits => ?_)
        ((id, context) :: visits)
      exact ih context
        (fun other leads => apart other (leads.head ⟨container, found, refers⟩)) visits
    unfold enterContainer
    simp only [known]
    split
    · rfl
    · split
      · rfl
      next entries found =>
        rw [visitEntries_eq, visitEntries_eq]
        exact within _ found
      next items found =>
        rw [visitAll_eq, visitAll_eq]
        exact within _ found

/-- What is not reached is not visited. -/
theorem notMem_enterContainer {other : Nat} (levels : Nat) (context : Context) {id : Nat}
    (unreached : ¬ Relation.ReflTransGen heap.Holds id other) {visits : Visits}
    (unvisited : other ∉ visits.map (·.1)) :
    other ∉ (enterContainer heap levels context id visits).map (·.1) := by
  induction levels generalizing context id visits with
  | zero => exact unvisited
  | succ levels ih =>
    unfold enterContainer
    split
    · exact unvisited
    · have entered : other ∉ ((id, context) :: visits).map (·.1) := by
        rw [List.map_cons, List.mem_cons, not_or]
        exact ⟨fun same => unreached (same ▸ .refl), unvisited⟩
      have within : ∀ container, heap.container? id = some container →
          other ∉ (visitMembers (enterContainer heap levels) context container.members
            ((id, context) :: visits)).map (·.1) := by
        intro container found
        refine visitMembers_keeps (P := fun visits => other ∉ visits.map (·.1)) context
          (fun inner refers context visits holds => ?_) entered
        exact ih context (fun leads => unreached (leads.head ⟨container, found, refers⟩)) holds
      dsimp only
      split
      · exact entered
      next entries found =>
        rw [visitEntries_eq]
        exact within _ found
      next items found =>
        rw [visitAll_eq]
        exact within _ found

theorem visitComponent_append (catalog : Option Catalog) (type : String) {props : Value}
    (apart : ∀ id, heap.Reaches props id → id ∉ others.map (·.1)) (visits : Visits) :
    visitComponent heap catalog type props (visits ++ others) =
      visitComponent heap catalog type props visits ++ others := by
  unfold visitComponent
  split
  · rfl
  · refine visit_append _ props (fun id root context visits => ?_) visits
    exact enterContainer_append _ context (fun inner leads => apart inner ⟨id, root, leads⟩) visits

theorem notMem_visitComponent (catalog : Option Catalog) (type : String) {props : Value}
    {other : Nat} (unreached : ¬ heap.Reaches props other) {visits : Visits}
    (unvisited : other ∉ visits.map (·.1)) :
    other ∉ (visitComponent heap catalog type props visits).map (·.1) := by
  unfold visitComponent
  split
  · exact unvisited
  · exact visit_keeps (P := fun visits => other ∉ visits.map (·.1)) _ props
      (fun id root context visits holds =>
        notMem_enterContainer _ context (fun leads => unreached ⟨id, root, leads⟩) holds)
      visits unvisited

end

/-! ## Visits of all components -/

section

variable {heap : Heap} {components others : List Component}

/-- Components that share nothing are visited each as if it were alone. -/
theorem visitEach_eq_flatMap (catalog : Option Catalog)
    (apart : components.Pairwise (Component.Apart heap)) {visits : Visits}
    (new : ∀ component ∈ components, ∀ id, heap.Reaches component.props id →
      id ∉ visits.map (·.1)) :
    visitEach heap catalog components visits =
      (components.reverse.flatMap fun component =>
        visitComponent heap catalog component.type component.props []) ++ visits := by
  induction components generalizing visits with
  | nil => rfl
  | cons component components ih =>
    obtain ⟨first, rest⟩ := List.pairwise_cons.mp apart
    obtain ⟨newFirst, newRest⟩ := List.forall_mem_cons.mp new
    have alone : visitComponent heap catalog component.type component.props visits =
        visitComponent heap catalog component.type component.props [] ++ visits :=
      visitComponent_append catalog component.type newFirst []
    have later : ∀ other ∈ components, ∀ id, heap.Reaches other.props id →
        id ∉ (visitComponent heap catalog component.type component.props visits).map (·.1) :=
      fun other member id reaches => notMem_visitComponent catalog component.type
        ((first other member).symm id reaches) (newRest other member id reaches)
    have others := ih rest later
    rw [visitEach] at others ⊢
    rw [List.foldl_cons, others, alone, List.reverse_cons, List.flatMap_append,
      List.flatMap_singleton, List.append_assoc]

theorem visitEach_perm (catalog : Option Catalog) (perm : components.Perm others)
    (apart : components.Pairwise (Component.Apart heap)) :
    (visitEach heap catalog components []).Perm (visitEach heap catalog others []) := by
  have apart' : others.Pairwise (Component.Apart heap) :=
    (perm.pairwise_iff fun apart => apart.symm).mp apart
  rw [visitEach_eq_flatMap catalog apart (by simp), visitEach_eq_flatMap catalog apart' (by simp),
    List.append_nil, List.append_nil]
  have reversed := (List.reverse_perm components).trans (perm.trans (List.reverse_perm others).symm)
  exact reversed.flatMap_right _

end

/-! ## Replacing -/

section

variable {map other : UrlMap}

theorem replaceString_congr (same : Ordered.get? map = Ordered.get? other) :
    replaceString map = replaceString other := by
  funext context s
  rw [replaceString, replaceString, same]

mutual

theorem replace_congr (same : Ordered.get? map = Ordered.get? other) (context : Context) :
    (value : Value) → replace map context value = replace other context value
  | .str s => by rw [replace, replace, replaceString_congr same]
  | .tuple label items => by rw [replace, replace, replaceAll_congr same context items]
  | .ref _ => rfl
  | .null => rfl
  | .bool _ => rfl
  | .int _ => rfl
  | .float _ => rfl
  | .date _ => rfl
  | .datetime _ => rfl
  | .time _ => rfl
  | .unknown => rfl

theorem replaceAll_congr (same : Ordered.get? map = Ordered.get? other) (context : Context) :
    (items : List Value) → replaceAll map context items = replaceAll other context items
  | [] => rfl
  | item :: items => by
    rw [replaceAll, replaceAll, replace_congr same context item,
      replaceAll_congr same context items]

end

theorem replaceContainer_congr (same : Ordered.get? map = Ordered.get? other) (context : Context) :
    replaceContainer map context = replaceContainer other context := by
  have values (context : Context) : replace map context = replace other context :=
    funext (replace_congr same context)
  funext container
  cases container <;> simp only [replaceContainer, values]

/-- In which order containers are rewritten does not matter, and only what the map holds does. -/
theorem replaceVisited_perm (same : Ordered.get? map = Ordered.get? other) (heap : Heap)
    {visits others : Visits} (perm : visits.Perm others) (nodup : (visits.map (·.1)).Nodup) :
    replaceVisited map heap visits = replaceVisited other heap others := by
  have nodup' : (others.map (·.1)).Nodup := (perm.map _).nodup nodup
  refine Heap.ext_container? fun id => ?_
  by_cases visited : id ∈ visits.map (·.1)
  · have member := contextOf_mem visited
    rw [container?_replaceVisited nodup member,
      container?_replaceVisited nodup' (perm.mem_iff.mp member), replaceContainer_congr same]
  · have unvisited : id ∉ others.map (·.1) := fun member =>
      visited ((perm.map _).mem_iff.mpr member)
    rw [container?_replaceVisited_of_notMem visited,
      container?_replaceVisited_of_notMem unvisited]

end

/-! ## Copies -/

section

variable {heap : Heap}

theorem exists_of_reaches_withCopy {value : Value} {id : Nat}
    (reaches : heap.withCopy.Reaches (value.shift heap.objects.size) id) :
    ∃ old, heap.Reaches value old ∧ old + heap.objects.size = id := by
  obtain ⟨root, inRefs, leads⟩ := reaches
  rw [refs_shift] at inRefs
  obtain ⟨start, isRef, rfl⟩ := List.mem_map.mp inRefs
  induction leads with
  | refl => exact ⟨start, ⟨start, isRef, .refl⟩, rfl⟩
  | tail _ holds ih =>
    obtain ⟨old, ⟨from', isRoot, before⟩, rfl⟩ := ih
    obtain ⟨inner, step, rfl⟩ := exists_of_holds_withCopy holds
    exact ⟨inner, ⟨from', isRoot, before.tail step⟩, rfl⟩

theorem apart_copyOf {first second : Component} (apart : first.Apart heap second) :
    (copyOf heap first).Apart heap.withCopy (copyOf heap second) := by
  intro id reaches reaches'
  obtain ⟨old, before, rfl⟩ := exists_of_reaches_withCopy reaches
  obtain ⟨other, before', same⟩ := exists_of_reaches_withCopy reaches'
  obtain rfl : other = old := Nat.add_right_cancel same
  exact apart other before before'

/-- Another order of components leads to the same heap, if the same addresses are replaced. -/
theorem relink_perm {components others : List Component} {assets assets' : List Asset}
    (catalog : Option Catalog) (perm : components.Perm others)
    (apart : components.Pairwise (Component.Apart heap))
    (same : Ordered.get? (urlMap assets) = Ordered.get? (urlMap assets')) :
    ∃ after,
      relink heap catalog assets (components.map .component) =
        .ok (after, (components.map (copyOf heap)).map .component) ∧
      relink heap catalog assets' (others.map .component) =
        .ok (after, (others.map (copyOf heap)).map .component) := by
  have apart' : (components.map (copyOf heap)).Pairwise (Component.Apart heap.withCopy) :=
    List.pairwise_map.mpr (apart.imp apart_copyOf)
  have visits := visitEach_perm catalog (perm.map (copyOf heap)) apart'
  have heaps := replaceVisited_perm same heap.withCopy visits
    (behind_visitEach heap catalog components).nodup
  refine ⟨_, relink_eq heap catalog assets components, ?_⟩
  rw [relink_eq, heaps, Ordered.isEmpty_congr same]

end

end Relink

end StaticSite
