import StaticSite.Proofs.Graph
import StaticSite.Proofs.Relinking

/-!
# Relinked components are a clone

Relinking copies the whole heap behind itself and changes strings in the copy only, those of a
container at most once. So the old containers stay as they are and the new ones form the same graph,
whatever is shared and whatever circles there are.
-/

namespace StaticSite

namespace Relink

/-! ## Values and containers -/

section

variable {map : UrlMap} {heap : Heap} (offset : Nat)

/-- Nothing is replaced for a component type that declares no field. -/
theorem replaceString_undeclared (key : Option String) (s : String) :
    replaceString map ⟨key, some []⟩ s = s := by
  cases key <;> rfl

mutual

theorem replace_undeclared (key : Option String) :
    (value : Value) → replace map ⟨key, some []⟩ value = value
  | .str s => by rw [replace, replaceString_undeclared]
  | .tuple label items => by rw [replace, replaceAll_undeclared key items]
  | .null => rfl
  | .bool _ => rfl
  | .int _ => rfl
  | .float _ => rfl
  | .date _ => rfl
  | .datetime _ => rfl
  | .time _ => rfl
  | .unknown => rfl
  | .ref _ => rfl

theorem replaceAll_undeclared (key : Option String) :
    (items : List Value) → replaceAll map ⟨key, some []⟩ items = items
  | [] => rfl
  | item :: items => by
    rw [replaceAll, replace_undeclared key item, replaceAll_undeclared key items]

end

theorem replaceContainer_undeclared (key : Option String) (container : Container) :
    replaceContainer map ⟨key, some []⟩ container = container := by
  cases container with
  | dict entries => simp [replaceContainer, Context.inner, replace_undeclared]
  | list items =>
    have same : items.map (replace map ⟨key, some []⟩) = items.map id :=
      List.map_congr_left fun item _ => replace_undeclared key item
    rw [replaceContainer, same, List.map_id]

mutual

/-- What is replaced in a moved value are single strings, each at most once. -/
theorem echoes_replace_shift (context : Context) :
    (value : Value) → Value.Echoes map (· + offset) value (replace map context (value.shift offset))
  | .str s => by
    unfold Value.shift replace replaceString
    split
    · cases image : Ordered.get? map s with
      | none => exact .kept s
      | some t => exact .mapped s t image
    · exact .kept s
  | .tuple label items => .tuple label items _ (echoesAll_replaceAll_shiftAll context items)
  | .ref id => .moved id
  | .null => .atom _ rfl
  | .bool _ => .atom _ rfl
  | .int _ => .atom _ rfl
  | .float _ => .atom _ rfl
  | .date _ => .atom _ rfl
  | .datetime _ => .atom _ rfl
  | .time _ => .atom _ rfl
  | .unknown => .atom _ rfl

theorem echoesAll_replaceAll_shiftAll (context : Context) :
    (items : List Value) →
      Value.EchoesAll map (· + offset) items (replaceAll map context (Value.shiftAll offset items))
  | [] => .nil
  | item :: items =>
    .cons item _ items _ (echoes_replace_shift context item)
      (echoesAll_replaceAll_shiftAll context items)

end

theorem echoes_shift (value : Value) :
    Value.Echoes map (· + offset) value (value.shift offset) := by
  have unchanged := @replace_undeclared map none (value.shift offset)
  rw [← unchanged]
  exact echoes_replace_shift offset ⟨none, some []⟩ value

theorem echoes_replaceContainer_shift {container : Container}
    (hashable : ∀ member ∈ container.members, heap.IsKey member.1) (context : Context) :
    Container.Echoes map (· + offset) container
      (replaceContainer map context (container.shift offset)) := by
  refine ⟨by rw [shape_replaceContainer, Container.shape_shift], ?_⟩
  rw [members_replaceContainer, Container.members_shift, List.map_map,
    List.forall₂_map_right_iff, List.forall₂_same]
  exact fun member holds =>
    ⟨(hashable member holds).shift offset, echoes_replace_shift offset _ member.2⟩

end

/-! ## Visits behind the old heap -/

section

variable {heap : Heap} {start : Nat} {enter : Enter} {P : Visits → Prop}

mutual

/-- What every visit of a container keeps is kept by visiting all containers of a value. -/
theorem visit_keeps (context : Context) : (value : Value) →
    (∀ id ∈ value.refs, ∀ context visits, P visits → P (enter context id visits)) →
      ∀ visits, P visits → P (visit enter context value visits)
  | .tuple _ items, keeps, visits, holds => visitAll_keeps context items keeps visits holds
  | .ref id, keeps, visits, holds => keeps id (List.mem_singleton_self id) context visits holds
  | .str _, _, _, holds => holds
  | .null, _, _, holds => holds
  | .bool _, _, _, holds => holds
  | .int _, _, _, holds => holds
  | .float _, _, _, holds => holds
  | .date _, _, _, holds => holds
  | .datetime _, _, _, holds => holds
  | .time _, _, _, holds => holds
  | .unknown, _, _, holds => holds

theorem visitAll_keeps (context : Context) : (items : List Value) →
    (∀ id ∈ Value.refsAll items, ∀ context visits, P visits → P (enter context id visits)) →
      ∀ visits, P visits → P (visitAll enter context items visits)
  | [], _, _, holds => holds
  | item :: items, keeps, visits, holds =>
    visitAll_keeps context items (fun id later => keeps id (List.mem_append_right _ later)) _
      (visit_keeps context item (fun id within => keeps id (List.mem_append_left _ within)) visits
        holds)

end

theorem visitMembers_keeps (context : Context) {members : List (Option Value × Value)}
    (keeps : ∀ id ∈ members.flatMap (·.2.refs), ∀ context visits, P visits →
      P (enter context id visits)) {visits : Visits} (holds : P visits) :
    P (visitMembers enter context members visits) := by
  induction members generalizing visits with
  | nil => exact holds
  | cons member members ih =>
    obtain ⟨key, value⟩ := member
    simp only [List.flatMap_cons, List.mem_append] at keeps
    refine ih (fun id later => keeps id (.inr later)) ?_
    exact visit_keeps (context.under key) value (fun id within => keeps id (.inl within)) visits
      holds

/-- Every visited place lies behind `start` and has been visited once. -/
structure Behind (start : Nat) (visits : Visits) : Prop where
  nodup : (visits.map (·.1)).Nodup
  above : ∀ id ∈ visits.map (·.1), start ≤ id

/-- Containers behind `start` that refer only to places behind it lead to no other visits. -/
theorem Behind.enterContainer (closed : ∀ id inner, start ≤ id → heap.Holds id inner → start ≤ inner)
    (levels : Nat) (context : Context) {id : Nat} (above : start ≤ id) {visits : Visits}
    (behind : Behind start visits) :
    Behind start (enterContainer heap levels context id visits) := by
  induction levels generalizing context id visits with
  | zero => exact behind
  | succ levels ih =>
    unfold Relink.enterContainer
    split
    · exact behind
    next new =>
      have entered : Behind start ((id, context) :: visits) :=
        ⟨List.nodup_cons.mpr ⟨new, behind.nodup⟩, List.forall_mem_cons.mpr ⟨above, behind.above⟩⟩
      have within : ∀ container, heap.container? id = some container →
          Behind start (visitMembers (Relink.enterContainer heap levels) context container.members
            ((id, context) :: visits)) := by
        intro container found
        refine visitMembers_keeps context (fun inner refers context visits holds => ?_) entered
        exact ih context (closed id inner above ⟨container, found, refers⟩) holds
      dsimp only
      split
      · exact entered
      next entries found =>
        rw [visitEntries_eq]
        exact within _ found
      next items found =>
        rw [visitAll_eq]
        exact within _ found

end

section

variable {heap : Heap}

theorem container?_withCopy_of_some {id : Nat} {container : Container}
    (found : heap.container? id = some container) : heap.withCopy.container? id = some container := by
  have bound := Heap.lt_of_container? found
  rw [← found]
  simp [Heap.container?, Heap.withCopy, Array.getElem?_append, bound]

theorem refs_shift (offset : Nat) (value : Value) :
    (value.shift offset).refs = value.refs.map (· + offset) :=
  (@echoes_shift [] offset value).refs_eq

/-- What a copy refers to is the copy of what is referred to. -/
theorem exists_of_holds_withCopy {id other : Nat}
    (holds : heap.withCopy.Holds (id + heap.objects.size) other) :
    ∃ inner, heap.Holds id inner ∧ inner + heap.objects.size = other := by
  obtain ⟨copy, found, refers⟩ := holds
  rw [Heap.container?_withCopy] at found
  obtain ⟨container, original, rfl⟩ := Option.map_eq_some_iff.mp found
  obtain ⟨member, within, inRefs⟩ := List.mem_flatMap.mp refers
  rw [Container.members_shift] at within
  obtain ⟨before, isMember, rfl⟩ := List.mem_map.mp within
  rw [refs_shift] at inRefs
  obtain ⟨inner, isRef, rfl⟩ := List.mem_map.mp inRefs
  exact ⟨inner, ⟨container, original, List.mem_flatMap.mpr ⟨before, isMember, isRef⟩⟩, rfl⟩

/-- The copies refer to each other only. -/
theorem holds_withCopy_above (id inner : Nat) (above : heap.objects.size ≤ id)
    (holds : heap.withCopy.Holds id inner) : heap.objects.size ≤ inner := by
  obtain ⟨old, rfl⟩ := Nat.exists_eq_add_of_le' above
  obtain ⟨place, -, rfl⟩ := exists_of_holds_withCopy holds
  exact Nat.le_add_left ..

theorem Behind.visitComponent (catalog : Option Catalog) (component : Component)
    {visits : Visits} (behind : Behind heap.objects.size visits) :
    Behind heap.objects.size
      (visitComponent heap.withCopy catalog component.type
        (component.props.shift heap.objects.size) visits) := by
  unfold Relink.visitComponent
  split
  · exact behind
  · refine visit_keeps _ _ (fun id refers context visits holds => ?_) visits behind
    rw [refs_shift] at refers
    obtain ⟨place, -, rfl⟩ := List.mem_map.mp refers
    exact holds.enterContainer holds_withCopy_above _ context (Nat.le_add_left ..)

/-- The visits of components, one after the other. -/
def visitEach (heap : Heap) (catalog : Option Catalog) (components : List Component)
    (visits : Visits) : Visits :=
  components.foldl (fun visits component =>
    visitComponent heap catalog component.type component.props visits) visits

theorem foldlM_visitEntry (heap : Heap) (catalog : Option Catalog) (components : List Component)
    (visits : Visits) :
    (components.map Entry.component).foldlM (visitEntry heap catalog) visits =
      .ok (visitEach heap catalog components visits) := by
  induction components generalizing visits with
  | nil => rfl
  | cons component components ih => exact ih _

/-- The component as it stands in the copy of the heap. -/
def copyOf (heap : Heap) (component : Component) : Component :=
  { component with props := component.props.shift heap.objects.size }

theorem behind_visitEach (heap : Heap) (catalog : Option Catalog) (components : List Component) :
    Behind heap.objects.size
      (visitEach heap.withCopy catalog (components.map (copyOf heap)) []) := by
  have onward (components : List Component) {visits : Visits}
      (behind : Behind heap.objects.size visits) : Behind heap.objects.size
        (visitEach heap.withCopy catalog (components.map (copyOf heap)) visits) := by
    induction components generalizing visits with
    | nil => exact behind
    | cons component components ih => exact ih (behind.visitComponent catalog component)
  exact onward components ⟨List.nodup_nil, by simp⟩

theorem relink_eq (heap : Heap) (catalog : Option Catalog) (assets : List Asset)
    (components : List Component) :
    relink heap catalog assets (components.map .component) =
      .ok (if (urlMap assets).isEmpty then heap.withCopy else
          replaceVisited (urlMap assets) heap.withCopy
            (visitEach heap.withCopy catalog (components.map (copyOf heap)) []),
        (components.map (copyOf heap)).map .component) := by
  have entries : (components.map Entry.component).map (shiftEntry heap.objects.size) =
      (components.map (copyOf heap)).map .component := by
    rw [List.map_map, List.map_map]
    rfl
  rw [relink, entries, foldlM_visitEntry]
  split <;> rfl

/-- Old containers stay, and each copy is rewritten at most once. -/
structure Relinked (map : UrlMap) (heap after : Heap) : Prop where
  old : ∀ id container, heap.container? id = some container → after.container? id = some container
  copied : ∀ id, ∃ context, after.container? (id + heap.objects.size) =
    (heap.container? id).map fun container =>
      replaceContainer map context (container.shift heap.objects.size)

theorem relinked_withCopy (map : UrlMap) (heap : Heap) : Relinked map heap heap.withCopy := by
  refine ⟨fun id container found => container?_withCopy_of_some found, fun id => ?_⟩
  refine ⟨⟨none, some []⟩, ?_⟩
  rw [Heap.container?_withCopy]
  simp only [replaceContainer_undeclared]

theorem Behind.relinked {visits : Visits} (behind : Behind heap.objects.size visits)
    (map : UrlMap) : Relinked map heap (replaceVisited map heap.withCopy visits) := by
  have whole := relinked_withCopy map heap
  refine ⟨fun id container found => ?_, fun id => ?_⟩
  · have unvisited : id ∉ visits.map (·.1) := fun visited => by
      have above := behind.above id visited
      have bound := Heap.lt_of_container? found
      omega
    rw [container?_replaceVisited_of_notMem unvisited]
    exact whole.old id container found
  · by_cases visited : id + heap.objects.size ∈ visits.map (·.1)
    · refine ⟨contextOf visits (id + heap.objects.size), ?_⟩
      rw [container?_replaceVisited behind.nodup (contextOf_mem visited),
        Heap.container?_withCopy, Option.map_map]
      rfl
    · rw [container?_replaceVisited_of_notMem visited]
      exact whole.copied id

/-- Relinking components never fails. -/
theorem exists_relinked (heap : Heap) (catalog : Option Catalog) (assets : List Asset)
    (components : List Component) :
    ∃ after, Relinked (urlMap assets) heap after ∧
      relink heap catalog assets (components.map .component) =
        .ok (after, (components.map (copyOf heap)).map .component) := by
  refine ⟨_, ?_, relink_eq heap catalog assets components⟩
  split
  · exact relinked_withCopy _ heap
  · exact (behind_visitEach heap catalog components).relinked (urlMap assets)

theorem Relinked.isClone {map : UrlMap} {after : Heap} (relinked : Relinked map heap after)
    (hashable : heap.KeysHashable) (values : List Value) :
    IsClone map heap after values (values.map (Value.shift heap.objects.size))
      (· + heap.objects.size) := by
  have containers : ∀ id, Option.Rel (Container.Echoes map (· + heap.objects.size))
      (heap.container? id) (after.container? (id + heap.objects.size)) := by
    intro id
    obtain ⟨context, copied⟩ := relinked.copied id
    rw [copied]
    cases found : heap.container? id with
    | none => exact .none
    | some container =>
      exact .some (echoes_replaceContainer_shift _ (hashable id container found) context)
  have reached : ∀ id, (∃ copy ∈ values.map (Value.shift heap.objects.size),
      after.Reaches copy id) ↔
      ∃ old, (∃ value ∈ values, heap.Reaches value old) ∧ old + heap.objects.size = id := by
    intro id
    constructor
    · rintro ⟨copy, member, leads⟩
      obtain ⟨value, inValues, rfl⟩ := List.mem_map.mp member
      obtain ⟨old, before, same⟩ :=
        (Heap.reaches_place_iff containers (echoes_shift _ value)).mp leads
      exact ⟨old, ⟨value, inValues, before⟩, same⟩
    · rintro ⟨old, ⟨value, inValues, before⟩, same⟩
      exact ⟨_, List.mem_map_of_mem inValues,
        (Heap.reaches_place_iff containers (echoes_shift _ value)).mpr ⟨old, before, same⟩⟩
  refine ⟨fun first second same => Nat.add_right_cancel same, ?_, containers, reached, ?_⟩
  · rw [List.forall₂_map_right_iff, List.forall₂_same]
    exact fun value _ => echoes_shift _ value
  · intro copy member id leads
    obtain ⟨old, -, rfl⟩ := (reached id).mp ⟨copy, member, leads⟩
    have behind : ¬ old + heap.objects.size < heap.objects.size := by omega
    simp [Heap.container?, behind]

/--
Relinking components gives components that differ in their props only. These props are a clone,
whatever containers the old ones share and whatever circles they form, and every container that was
there before is what it was.
-/
theorem relink_isClone (hashable : heap.KeysHashable) (catalog : Option Catalog)
    (assets : List Asset) (components : List Component) :
    ∃ (after : Heap) (clones : List Component) (place : Nat → Nat),
      relink heap catalog assets (components.map .component) =
        .ok (after, clones.map .component) ∧
      (∀ id container, heap.container? id = some container →
        after.container? id = some container) ∧
      List.Forall₂ (fun component clone => ∃ props, clone = { component with props })
        components clones ∧
      IsClone (urlMap assets) heap after (components.map (·.props)) (clones.map (·.props))
        place := by
  obtain ⟨after, relinked, result⟩ := exists_relinked heap catalog assets components
  refine ⟨after, _, (· + heap.objects.size), result, relinked.old, ?_, ?_⟩
  · rw [List.forall₂_map_right_iff, List.forall₂_same]
    exact fun component _ => ⟨_, rfl⟩
  · have clone := relinked.isClone hashable (components.map (·.props))
    rwa [List.map_map] at clone ⊢

/-- A dict that holds itself. -/
def loop : Heap := ⟨#[.dict [(.str "src", .str "/a.png"), (.str "self", .ref 0)]]⟩

/-- Addresses whose replacements have replacements. -/
def chained : List Asset :=
  [{ id := "a", url := "/a.png", optimizedUrl := "/b.png", type := "image", mimeType := "image/png" },
   { id := "b", url := "/b.png", optimizedUrl := "/c.png", type := "image", mimeType := "image/png" }]

theorem relink_isClone_loop :
    loop.KeysHashable ∧
    ∃ (after : Heap) (clones : List Component) (place : Nat → Nat),
      relink loop none chained ([⟨"hero", "Hero", .ref 0, []⟩].map .component) =
        .ok (after, clones.map .component) ∧
      after.container? 0 = loop.container? 0 ∧
      IsClone (urlMap chained) loop after [.ref 0] (clones.map (·.props)) place := by
  have hashable : loop.KeysHashable := by
    intro id container found
    cases id with
    | zero =>
      obtain rfl : loop.objects[0] = container := Option.some.inj found
      simp [loop, Container.members, Heap.IsKey, Heap.unhashable?]
    | succ id => cases found
  obtain ⟨after, clones, place, result, unchanged, -, clone⟩ :=
    relink_isClone hashable none chained [⟨"hero", "Hero", .ref 0, []⟩]
  exact ⟨hashable, after, clones, place, result, unchanged 0 _ rfl, clone⟩

end

end Relink

end StaticSite
