import StaticSite.Proofs.Visits

/-!
# Relinking unfolded data

Every container of the components is rewritten once, in one of the contexts in which it is reached.
So the relinked components read as the components with every string replaced for its own context
exactly when it does not matter in which of its contexts a container is rewritten.
-/

namespace StaticSite

open Relink (Context UrlMap Visits)

/-! ## Containers -/

namespace Heap

theorem ext_container? {heap other : Heap}
    (same : ∀ id, heap.container? id = other.container? id) : heap = other := by
  obtain ⟨objects⟩ := heap
  obtain ⟨others⟩ := other
  exact congrArg Heap.mk (Array.ext_getElem? same)

theorem container?_set (heap : Heap) (id other : Nat) (container : Container) :
    (heap.set id container).container? other =
      if id = other then (heap.container? other).map fun _ => container
      else heap.container? other := by
  simp only [container?, set, Array.getElem?_setIfInBounds]
  split
  next same =>
    subst same
    by_cases bound : id < heap.objects.size <;> simp [bound]
  next => rfl

end Heap

namespace Relink

variable {map : UrlMap} {heap : Heap} {visits : Visits} {id : Nat}

theorem container?_replaceVisited_of_notMem (absent : id ∉ visits.map (·.1)) :
    (replaceVisited map heap visits).container? id = heap.container? id := by
  unfold replaceVisited
  induction visits generalizing heap with
  | nil => rfl
  | cons visit visits ih =>
    obtain ⟨other, context⟩ := visit
    simp only [List.map_cons, List.mem_cons, not_or] at absent
    rw [List.foldl_cons, ih absent.2]
    dsimp only
    split
    · rw [Heap.container?_set, if_neg (Ne.symm absent.1)]
    · rfl

/-- A visited container is rewritten once, in the context of its visit. -/
theorem container?_replaceVisited (nodup : (visits.map (·.1)).Nodup) {context : Context}
    (member : (id, context) ∈ visits) :
    (replaceVisited map heap visits).container? id =
      (heap.container? id).map (replaceContainer map context) := by
  induction visits generalizing heap with
  | nil => cases member
  | cons visit visits ih =>
    obtain ⟨other, otherContext⟩ := visit
    obtain ⟨new, nodup⟩ := List.nodup_cons.mp nodup
    rcases List.mem_cons.mp member with same | later
    · simp only [Prod.mk.injEq] at same
      obtain ⟨rfl, rfl⟩ := same
      rw [replaceVisited, List.foldl_cons]
      refine (container?_replaceVisited_of_notMem new).trans ?_
      dsimp only
      cases found : heap.container? id with
      | none => exact found
      | some container => simp [Heap.container?_set, found]
    · have different : other ≠ id := fun same =>
        new (List.mem_map.mpr ⟨(id, context), later, same.symm⟩)
      rw [replaceVisited, List.foldl_cons]
      refine (ih nodup later).trans ?_
      dsimp only
      split
      · rw [Heap.container?_set, if_neg different]
      · rfl

/-- The context in which a container has been visited. -/
def contextOf (visits : Visits) (id : Nat) : Context :=
  ((visits.find? fun visit => visit.1 = id).map (·.2)).getD ⟨none, none⟩

theorem contextOf_mem (member : id ∈ visits.map (·.1)) : (id, contextOf visits id) ∈ visits := by
  have found : (visits.find? fun visit => visit.1 = id).isSome := by
    obtain ⟨visit, inVisits, rfl⟩ := List.mem_map.mp member
    exact List.find?_isSome.mpr ⟨visit, inVisits, decide_eq_true rfl⟩
  obtain ⟨visit, isVisit⟩ := Option.isSome_iff_exists.mp found
  have same : visit.1 = id := by simpa using List.find?_some isVisit
  rw [contextOf, isVisit, ← same]
  exact List.mem_of_find?_eq_some isVisit

theorem replace_of_isAtom {context : Context} {value : Value} (isAtom : value.isAtom = true) :
    replace map context value = value := by
  cases value <;> first | rfl | cases isAtom

theorem replaceAll_eq_map (context : Context) (items : List Value) :
    replaceAll map context items = items.map (replace map context) := by
  induction items with
  | nil => rfl
  | cons item items ih => rw [replaceAll, ih, List.map_cons]

theorem members_replaceContainer (context : Context) (container : Container) :
    (replaceContainer map context container).members =
      container.members.map fun member =>
        (member.1, replace map (context.under member.1) member.2) := by
  cases container with
  | dict entries =>
    simp only [replaceContainer, Container.members, List.map_map]
    rfl
  | list items =>
    simp only [replaceContainer, Container.members, List.map_map]
    rfl

theorem shape_replaceContainer (context : Context) (container : Container) :
    (replaceContainer map context container).shape = container.shape := by
  cases container <;> rfl

/-- How the strings of a component are replaced, each under the nearest string key above it. -/
def rewriteAt (map : UrlMap) (fields : Option Fields) (key : Option String) (s : String) :
    String :=
  replaceString map ⟨key, fields⟩ s

/-- A component without labels, with every string replaced for its own context. -/
def rewritePlain (map : UrlMap) (catalog : Option Catalog) (component : PlainComponent) :
    PlainComponent :=
  { component with
    members :=
      component.members.mapStrings
        (rewriteAt map (Catalog.urlFields? catalog component.type)) none }

end Relink

/-! ## Trees -/

namespace Members

/-- The tree with each container rewritten in the context chosen for it. -/
def settle (map : UrlMap) (contexts : Nat → Context) (context : Context) :
    Members Nat → Members Nat
  | .nil => .nil
  | .atom key value rest => .atom key value (rest.settle map contexts context)
  | .str key s rest =>
    .str key (Relink.replaceString map (context.under key) s) (rest.settle map contexts context)
  | .node key shape label inside rest =>
    .node key shape label
      (inside.settle map contexts (if shape = .tuple then context.under key else contexts label))
      (rest.settle map contexts context)

/-- What is reached, with every string replaced for the context it is reached in. -/
def Reach.rewritten (map : UrlMap) (fields : Option Fields) (reach : Reach Nat) : Members Unit :=
  reach.inside.plain.mapStrings (Relink.rewriteAt map fields) reach.key

section

variable {map : UrlMap} {contexts : Nat → Context} {heap after : Heap} {members : Members Nat}

theorem toList_settle (there : members.In heap) (context : Context) :
    (members.settle map contexts context).toList =
      members.toList.map fun member =>
        (member.1, Relink.replace map (context.under member.1) member.2) := by
  induction members generalizing context with
  | nil => rfl
  | atom k value rest ih =>
    obtain ⟨-, isAtom, later⟩ := there
    simp only [settle, toList, List.map_cons, Relink.replace_of_isAtom isAtom, ih later]
  | str k s rest ih =>
    simp only [settle, toList, List.map_cons, Relink.replace, ih there.2]
  | node k shape label inside rest ihInside ih =>
    obtain ⟨-, stands, inner, later⟩ := there
    have value : shape.value label (inside.settle map contexts
        (if shape = .tuple then context.under k else contexts label)).toList =
        Relink.replace map (context.under k) (shape.value label inside.toList) := by
      cases shape with
      | tuple =>
        rw [ihInside inner]
        simp only [Shape.value, Relink.replace, Relink.replaceAll_eq_map, List.map_map,
          Value.tuple.injEq, true_and]
        refine List.map_congr_left fun member holds => ?_
        simp only [Function.comp_apply, if_true, stands member holds]
        rfl
      | _ => rfl
    simp only [settle, toList, List.map_cons, value, ih later]

theorem in_settle (there : members.In heap) (context : Context)
    (changed : ∀ id ∈ members.containers, after.container? id =
      (heap.container? id).map (Relink.replaceContainer map (contexts id))) :
    (members.settle map contexts context).In after := by
  induction members generalizing context with
  | nil => trivial
  | atom k value rest ih => exact ⟨there.1.other, there.2.1, ih there.2.2 context changed⟩
  | str k s rest ih => exact ⟨there.1.other, ih there.2 context changed⟩
  | node k shape label inside rest ihInside ih =>
    obtain ⟨isKey, stands, inner, later⟩ := there
    simp only [containers, List.forall_mem_append] at changed
    obtain ⟨itself, within, onward⟩ := changed
    refine ⟨isKey.other, ?_, ihInside inner _ within, ih later context onward⟩
    rw [toList_settle inner]
    by_cases tuple : shape = .tuple
    · subst tuple
      intro member holds
      obtain ⟨old, inOld, rfl⟩ := List.mem_map.mp holds
      exact stands old inOld
    · obtain ⟨container, found, isShape, held⟩ := stands.container tuple
      rw [if_neg tuple] at itself ⊢
      have rewritten : after.container? label =
          some (Relink.replaceContainer map (contexts label) container) := by
        rw [itself label (List.mem_singleton_self label), found, Option.map_some]
      refine Heap.Stands.ofContainer tuple rewritten ?_ ?_
      · rw [Relink.shape_replaceContainer, isShape]
      · rw [Relink.members_replaceContainer, held]

/-- The tree reads as with all strings replaced if each container of it does. -/
theorem plain_settle {context : Context}
    (settled : ∀ reach ∈ members.reaches context.key, reach.shape ≠ .tuple →
      (reach.inside.settle map contexts (contexts reach.label)).plain =
        reach.rewritten map context.fields) :
    (members.settle map contexts context).plain =
      members.plain.mapStrings (Relink.rewriteAt map context.fields) context.key := by
  induction members generalizing context with
  | nil => rfl
  | atom k value rest ih => simp only [settle, plain, mapStrings, ih settled]
  | str k s rest ih =>
    simp only [settle, plain, mapStrings, ih settled, Value.keyUnder_erase, Relink.rewriteAt]
    rfl
  | node k shape label inside rest ihInside ih =>
    simp only [reaches, List.forall_mem_cons, List.forall_mem_append] at settled
    obtain ⟨itself, within, onward⟩ := settled
    have held : (inside.settle map contexts
        (if shape = .tuple then context.under k else contexts label)).plain =
        inside.plain.mapStrings (Relink.rewriteAt map context.fields)
          (Value.keyUnder context.key k) := by
      by_cases tuple : shape = .tuple
      · rw [if_pos tuple]
        exact ihInside within
      · rw [if_neg tuple]
        exact itself tuple
    simp only [settle, plain, mapStrings, held, ih onward, Value.keyUnder_erase]

/-- What reads as with all strings replaced does so in each of its containers. -/
theorem settled_of_plain {context : Context} {fields : Option Fields} {key : Option String}
    (same : (members.settle map contexts context).plain =
      members.plain.mapStrings (Relink.rewriteAt map fields) key) :
    ∀ reach ∈ members.reaches key, reach.shape ≠ .tuple →
      (reach.inside.settle map contexts (contexts reach.label)).plain =
        reach.rewritten map fields := by
  induction members generalizing context key with
  | nil => simp [reaches]
  | atom k value rest ih =>
    simp only [settle, plain, mapStrings, atom.injEq, true_and] at same
    exact ih same
  | str k s rest ih =>
    simp only [settle, plain, mapStrings, str.injEq] at same
    exact ih same.2.2
  | node k shape label inside rest ihInside ih =>
    simp only [settle, plain, mapStrings, node.injEq, true_and, Value.keyUnder_erase] at same
    obtain ⟨held, others⟩ := same
    simp only [reaches, List.forall_mem_cons, List.forall_mem_append]
    refine ⟨fun container => ?_, ihInside held, ih others⟩
    rwa [if_neg container] at held

end

end Members

/-! ## Components -/

namespace Reading

variable {heap : Heap}

/-- The strings of a container that both components reach are replaced by the same in both. -/
def Alike (map : UrlMap) (catalog : Option Catalog) (reading other : Reading heap) : Prop :=
  ∀ first ∈ reading.reaches, ∀ second ∈ other.reaches, first.shape ≠ .tuple →
    second.shape ≠ .tuple → first.label = second.label →
      first.rewritten map (reading.fields catalog) = second.rewritten map (other.fields catalog)

/-- Wherever a container is reached, its strings are replaced by the same. -/
def RewritesAlike (map : UrlMap) (catalog : Option Catalog) (readings : List (Reading heap)) :
    Prop :=
  ∀ reading ∈ readings, ∀ other ∈ readings, Alike map catalog reading other

theorem Alike.symm {map : UrlMap} {catalog : Option Catalog} {reading other : Reading heap}
    (alike : Alike map catalog reading other) : Alike map catalog other reading :=
  fun first reached second reached' container container' label =>
    (alike second reached' first reached container' container label.symm).symm

section

variable {map : UrlMap} {catalog : Option Catalog} {readings : List (Reading heap)}
  {contexts : Nat → Context}

/-- Each container is rewritten in one of the contexts in which it is reached. -/
def Chosen (catalog : Option Catalog) (contexts : Nat → Context)
    (readings : List (Reading heap)) : Prop :=
  ∀ reading ∈ readings, ∀ reach ∈ reading.reaches, reach.shape ≠ .tuple →
    ∃ other ∈ readings, ∃ same ∈ other.reaches, same.shape ≠ .tuple ∧
      same.label = reach.label ∧ contexts reach.label = ⟨same.key, other.fields catalog⟩

/-- The component with each container rewritten in the context chosen for it. -/
def settle (reading : Reading heap) (map : UrlMap) (contexts : Nat → Context) {after : Heap}
    (changed : ∀ id ∈ reading.unfolded.containers, after.container? id =
      (heap.container? id).map (Relink.replaceContainer map (contexts id))) : Reading after where
  id := reading.id
  type := reading.type
  zones := reading.zones
  place := reading.place
  members := reading.members.settle map contexts (contexts reading.place)
  stands := (Members.in_settle reading.unfolded_in ⟨none, none⟩ changed).2.1
  holds := (Members.in_settle reading.unfolded_in ⟨none, none⟩ changed).2.2.1

-- The induction is on the size of what is reached: the context chosen for a container may be that
-- of another component, so what is inside is looked at where that component reaches it.
/-- If it does not matter where a container is rewritten, then its strings are all replaced. -/
theorem RewritesAlike.settled (alike : RewritesAlike map catalog readings)
    (chosen : Chosen catalog contexts readings) {reading : Reading heap}
    (member : reading ∈ readings) {reach : Members.Reach Nat} (reached : reach ∈ reading.reaches)
    (container : reach.shape ≠ .tuple) :
    (reach.inside.settle map contexts (contexts reach.label)).plain =
      reach.rewritten map (reading.fields catalog) := by
  obtain ⟨other, inReadings, same, reachedSame, containerSame, label, context⟩ :=
    chosen reading member reach reached container
  have inside : same.inside = reach.inside :=
    inside_eq_of_label other.unfolded_in reading.unfolded_in reachedSame reached containerSame
      container label
  rw [alike reading member other inReadings reach reached same reachedSame container
    containerSame label.symm, context, ← inside]
  refine Members.plain_settle fun inner within innerContainer => ?_
  exact alike.settled chosen inReadings (Members.reaches_of_reach reachedSame inner within)
    innerContainer
termination_by reach.inside.size
decreasing_by
  rw [← inside]
  exact Members.size_of_reach within

theorem root_mem_reaches (reading : Reading heap) :
    ⟨.dict, reading.place, none, reading.members⟩ ∈ reading.reaches :=
  List.mem_cons_self ..

theorem settle_iff_rewritesAlike (chosen : Chosen catalog contexts readings) :
    (∀ reading ∈ readings,
      (reading.members.settle map contexts (contexts reading.place)).plain =
        reading.members.plain.mapStrings (Relink.rewriteAt map (reading.fields catalog)) none) ↔
      RewritesAlike map catalog readings := by
  constructor
  · intro settled reading member other member' first reached second reached' container container'
      same
    have everywhere : ∀ reading ∈ readings, ∀ reach ∈ reading.reaches, reach.shape ≠ .tuple →
        (reach.inside.settle map contexts (contexts reach.label)).plain =
          reach.rewritten map (reading.fields catalog) := by
      intro reading member
      have whole : (reading.unfolded.settle map contexts ⟨none, none⟩).plain =
          reading.unfolded.plain.mapStrings (Relink.rewriteAt map (reading.fields catalog))
            none := by
        have held := settled reading member
        simp [unfolded, Members.settle, Members.plain, Members.mapStrings, Value.keyUnder, held]
      exact Members.settled_of_plain whole
    have inside : first.inside = second.inside :=
      inside_eq_of_label reading.unfolded_in other.unfolded_in reached reached' container
        container' same
    rw [← everywhere reading member first reached container,
      ← everywhere other member' second reached' container', same, inside]
  · intro alike reading member
    exact alike.settled chosen member reading.root_mem_reaches (by simp)

theorem Visiting.chosen {visits : Visits} (visiting : Visiting catalog readings visits) :
    Chosen catalog (Relink.contextOf visits) readings := by
  intro reading member reach reached container
  have visited := Relink.contextOf_mem (visiting.all reading member reach reached container)
  obtain ⟨other, inReadings, same, reachedSame, containerSame, visit⟩ := visiting.new _ visited
  obtain ⟨label, context⟩ := Prod.ext_iff.mp visit
  exact ⟨other, inReadings, same, reachedSame, containerSame, label.symm, context⟩

theorem Visiting.changed {visits : Visits} (visiting : Visiting catalog readings visits)
    (map : UrlMap) {reading : Reading heap} (member : reading ∈ readings) :
    ∀ id ∈ reading.unfolded.containers,
      (Relink.replaceVisited map heap visits).container? id =
        (heap.container? id).map
          (Relink.replaceContainer map (Relink.contextOf visits id)) := by
  intro id within
  obtain ⟨reach, reached, container, rfl⟩ := (Members.mem_containers none).mp within
  have visited := Relink.contextOf_mem (visiting.all reading member reach reached container)
  exact Relink.container?_replaceVisited visiting.room.nodup visited

/-- The rewritten components, and what they read as if containers are rewritten alike. -/
theorem Visiting.exists_results {visits : Visits} (visiting : Visiting catalog readings visits)
    (map : UrlMap) :
    ∃ results : List (Reading (Relink.replaceVisited map heap visits)),
      results.map entry = readings.map entry ∧
        (results.map plain = readings.map (fun reading =>
          Relink.rewritePlain map catalog reading.plain) ↔
            RewritesAlike map catalog readings) := by
  refine ⟨readings.attach.map fun reading =>
    reading.1.settle map (Relink.contextOf visits) (visiting.changed map reading.2), ?_, ?_⟩
  · rw [List.map_map]
    exact List.attach_map_val (f := entry) ..
  · have readingsPlain : (readings.map fun reading =>
        Relink.rewritePlain map catalog reading.plain) =
        readings.attach.map fun reading => Relink.rewritePlain map catalog reading.1.plain :=
      (List.attach_map_val ..).symm
    rw [← settle_iff_rewritesAlike visiting.chosen, List.map_map, readingsPlain,
      List.map_inj_left]
    simp only [List.mem_attach, forall_const, Subtype.forall, Function.comp_apply, plain, settle,
      Relink.rewritePlain, PlainComponent.mk.injEq, true_and]
    rfl

end

/-! ## Relinking -/

section

variable {map : UrlMap} {catalog : Option Catalog} {readings : List (Reading heap)}

theorem rewritten_shift (offset : Nat) (fields : Option Fields) (reach : Members.Reach Nat) :
    (reach.shift offset).rewritten map fields = reach.rewritten map fields := by
  simp only [Members.Reach.rewritten, Members.Reach.shift, Members.plain_shift]

theorem label_shift {offset : Nat} {reach : Members.Reach Nat} (container : reach.shape ≠ .tuple) :
    (reach.shift offset).label = reach.label + offset := by
  simp only [Members.Reach.shift, if_neg container]

theorem rewritesAlike_shift :
    RewritesAlike map catalog (readings.map shift) ↔ RewritesAlike map catalog readings := by
  simp only [RewritesAlike, Alike, List.forall_mem_map, reaches_shift, rewritten_shift]
  refine forall₂_congr fun reading _ => forall₂_congr fun other _ => forall₂_congr fun first _ =>
    forall₂_congr fun second _ => forall₂_congr fun container container' => ?_
  have isContainer : first.shape ≠ .tuple := container
  have isContainer' : second.shape ≠ .tuple := container'
  rw [label_shift isContainer, label_shift isContainer', Nat.add_right_cancel_iff]
  rfl

theorem rewriteAt_nil (fields : Option Fields) :
    Relink.rewriteAt [] fields = fun _ s => s := by
  funext key s
  simp [Relink.rewriteAt, Relink.replaceString, Ordered.get?]

theorem rewritesAlike_nil : RewritesAlike [] catalog readings := by
  intro reading _ other _ first reached second reached' container container' same
  simp only [Members.Reach.rewritten, rewriteAt_nil, Members.mapStrings_id,
    inside_eq_of_label reading.unfolded_in other.unfolded_in reached reached' container container'
      same]

theorem rewritePlain_nil (component : PlainComponent) :
    Relink.rewritePlain [] catalog component = component := by
  simp only [Relink.rewritePlain, rewriteAt_nil, Members.mapStrings_id]

/--
Relinking never fails, and every string is replaced for the context it stands in exactly when
containers are rewritten alike wherever they are reached.
-/
theorem exists_relinked (catalog : Option Catalog) (assets : List Asset)
    (readings : List (Reading heap)) :
    ∃ (after : Heap) (results : List (Reading after)),
      Relink.relink heap catalog assets (readings.map entry) = .ok (after, results.map entry) ∧
        (results.map plain = readings.map (fun reading =>
          Relink.rewritePlain (Relink.urlMap assets) catalog reading.plain) ↔
            RewritesAlike (Relink.urlMap assets) catalog readings) := by
  have entries : (readings.map entry).map (Relink.shiftEntry heap.objects.size) =
      (readings.map shift).map entry := by
    rw [List.map_map, List.map_map]
    exact List.map_congr_left fun reading _ => reading.entry_shift
  by_cases empty : (Relink.urlMap assets).isEmpty
  · refine ⟨heap.withCopy, readings.map shift, ?_, ?_⟩
    · rw [Relink.relink, entries]
      simp only [empty, if_true]
      rfl
    · rw [List.isEmpty_iff.mp empty]
      simp only [List.map_map, Function.comp_def, plain_shift, rewritePlain_nil, rewritesAlike_nil]
  · obtain ⟨visits, visited, visiting⟩ := exists_visits catalog (readings.map shift)
    obtain ⟨results, same, reads⟩ := visiting.exists_results (Relink.urlMap assets)
    refine ⟨_, results, ?_, ?_⟩
    · rw [Relink.relink, entries]
      simp only [empty, visited, same]
      rfl
    · simp only [List.map_map, Function.comp_def, plain_shift, rewritesAlike_shift] at reads
      exact reads

end

end Reading

end StaticSite
