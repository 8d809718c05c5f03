import StaticSite.Proofs.Relocation

/-!
# Visits

Relinking visits every container of the components once. Whatever the order, all containers are
visited, each in one of the contexts in which it is reached.
-/

namespace StaticSite

open Relink (Context Visits)

/-! ## Members -/

namespace Members

/-- The places of the containers in the tree. -/
def containers : Members Nat → List Nat
  | .nil => []
  | .atom _ _ rest => rest.containers
  | .str _ _ rest => rest.containers
  | .node _ shape id inside rest =>
    (if shape = .tuple then [] else [id]) ++ (inside.containers ++ rest.containers)

theorem mem_containers {members : Members Nat} (key : Option String) {id : Nat} :
    id ∈ members.containers ↔
      ∃ reach ∈ members.reaches key, reach.shape ≠ .tuple ∧ reach.label = id := by
  induction members generalizing key with
  | nil => simp [containers, reaches]
  | atom k value rest ih => exact ih key
  | str k s rest ih => exact ih key
  | node k shape label inside rest ihInside ih =>
    simp only [containers, List.mem_append, ihInside (Value.keyUnder key k), ih key, reaches,
      List.mem_cons, or_and_right, exists_or]
    by_cases tuple : shape = .tuple
    · simp [tuple]
    · simp [tuple, eq_comm]

/-- What the visits of a walk through containers and other data that is reached are. -/
structure Visited (fields : Option Fields) (visits after : Visits) (containers : List Nat)
    (reaches : List (Reach Nat)) : Prop where
  kept : ∀ visit ∈ visits, visit ∈ after
  all : ∀ id ∈ containers, id ∈ after.map (·.1)
  new : ∀ visit ∈ after, visit ∈ visits ∨ ∃ reach ∈ reaches, reach.shape ≠ .tuple ∧
    visit = (reach.label, ⟨reach.key, fields⟩) ∧
      ∀ id ∈ reach.inside.containers, id ∈ after.map (·.1)

/--
All that a visited container holds has been visited too, unless it is being walked through and
holds more than what is left to walk.
-/
def Entered (heap : Heap) (visits : Visits) (left : Nat) : Prop :=
  ∀ id ∈ visits.map (·.1), ∃ (shape : Shape) (inside : Members Nat), shape ≠ .tuple ∧
    heap.Stands shape id inside.toList ∧ inside.In heap ∧
      (left ≤ inside.size ∨ ∀ inner ∈ inside.containers, inner ∈ visits.map (·.1))

section

variable {heap : Heap} {fields : Option Fields} {visits after final : Visits}
  {containers more : List Nat} {reaches further : List (Reach Nat)}

theorem Visited.ids (visited : Visited fields visits after containers reaches) {id : Nat}
    (member : id ∈ visits.map (·.1)) : id ∈ after.map (·.1) := by
  obtain ⟨visit, inVisits, rfl⟩ := List.mem_map.mp member
  exact List.mem_map_of_mem (visited.kept visit inVisits)

theorem Visited.append (first : Visited fields visits after containers reaches)
    (second : Visited fields after final more further) :
    Visited fields visits final (containers ++ more) (reaches ++ further) := by
  refine ⟨fun visit member => second.kept visit (first.kept visit member), fun id member => ?_,
    fun visit member => ?_⟩
  · rcases List.mem_append.mp member with early | late
    · exact second.ids (first.all id early)
    · exact second.all id late
  · rcases second.new visit member with middle | ⟨reach, reached, container, visiting, closed⟩
    · rcases first.new visit middle with start | ⟨reach, reached, container, visiting, closed⟩
      · exact .inl start
      · exact .inr ⟨reach, List.mem_append_left _ reached, container, visiting,
          fun id inner => second.ids (closed id inner)⟩
    · exact .inr ⟨reach, List.mem_append_right _ reached, container, visiting, closed⟩

/-- Nothing is visited where everything has been visited before. -/
theorem Visited.again (before : ∀ id ∈ containers, id ∈ visits.map (·.1)) :
    Visited fields visits visits containers reaches :=
  ⟨fun _ member => member, before, fun _ member => .inl member⟩

theorem Visited.within (inner : Visited fields visits after containers reaches)
    (reach : Reach Nat) : Visited fields visits after containers (reach :: reaches) :=
  ⟨inner.kept, inner.all, fun visit member => (inner.new visit member).imp_right
    fun ⟨other, reached, rest⟩ => ⟨other, List.mem_cons_of_mem _ reached, rest⟩⟩

/-- A container is visited before what it holds. -/
theorem Visited.enter {shape : Shape} {id : Nat} {key : Option String} {inside : Members Nat}
    (container : shape ≠ .tuple)
    (inner : Visited fields ((id, ⟨key, fields⟩) :: visits) after inside.containers reaches) :
    Visited fields visits after (id :: inside.containers) (⟨shape, id, key, inside⟩ :: reaches) := by
  refine ⟨fun visit member => inner.kept visit (List.mem_cons_of_mem _ member),
    fun other member => ?_, fun visit member => ?_⟩
  · rcases List.mem_cons.mp member with rfl | within
    · exact inner.ids (List.mem_cons_self ..)
    · exact inner.all other within
  · rcases inner.new visit member with before | ⟨reach, reached, rest⟩
    · rcases List.mem_cons.mp before with rfl | before
      · exact .inr ⟨_, List.mem_cons_self .., container, rfl, inner.all⟩
      · exact .inl before
    · exact .inr ⟨reach, List.mem_cons_of_mem _ reached, rest⟩

theorem Entered.fewer {left less : Nat} (entered : Entered heap visits left)
    (fewer : less ≤ left) : Entered heap visits less := by
  intro id member
  obtain ⟨shape, inside, container, stands, there, state⟩ := entered id member
  exact ⟨shape, inside, container, stands, there, state.imp_left fun larger => by omega⟩

theorem Entered.onward {left less : Nat} (entered : Entered heap visits left)
    (visited : Visited fields visits after containers reaches)
    (standing : ∀ reach ∈ reaches,
      heap.Stands reach.shape reach.label reach.inside.toList ∧ reach.inside.In heap)
    (fewer : less ≤ left) : Entered heap after less := by
  intro id member
  obtain ⟨visit, inAfter, rfl⟩ := List.mem_map.mp member
  rcases visited.new visit inAfter with before | ⟨reach, reached, container, rfl, closed⟩
  · obtain ⟨shape, inside, container, stands, there, state⟩ :=
      entered visit.1 (List.mem_map_of_mem before)
    exact ⟨shape, inside, container, stands, there,
      state.imp (fun larger => by omega) fun closed inner within =>
        visited.ids (closed inner within)⟩
  · exact ⟨reach.shape, reach.inside, container, (standing reach reached).1,
      (standing reach reached).2, .inr closed⟩

/-- A container that is entered holds what is then left to walk. -/
theorem Entered.cons {left id : Nat} {context : Context} {shape : Shape} {inside : Members Nat}
    (entered : Entered heap visits left) (container : shape ≠ .tuple)
    (stands : heap.Stands shape id inside.toList) (there : inside.In heap)
    (fewer : inside.size ≤ left) : Entered heap ((id, context) :: visits) inside.size := by
  intro other member
  rcases List.mem_cons.mp member with itself | before
  · subst itself
    exact ⟨shape, inside, container, stands, there, .inl (Nat.le_refl _)⟩
  · obtain ⟨shape', inside', container', stands', there', state⟩ := entered other before
    refine ⟨shape', inside', container', stands', there', ?_⟩
    rcases state with larger | closed
    · left
      omega
    · exact .inr fun deeper within => List.mem_cons_of_mem _ (closed deeper within)

/--
A container that is met again is done with. It would hold itself if it were being walked through.
-/
theorem Entered.ids_of_again {left id : Nat} {shape : Shape} {inside : Members Nat}
    (entered : Entered heap visits left) (before : id ∈ visits.map (·.1))
    (container : shape ≠ .tuple) (stands : heap.Stands shape id inside.toList)
    (there : inside.In heap) (smaller : inside.size < left) :
    ∀ other ∈ id :: inside.containers, other ∈ visits.map (·.1) := by
  obtain ⟨shape', inside', container', stands', there', state⟩ := entered id before
  have same : inside' = inside := eq_of_toList there' there
    (stands_unique stands' stands container' container).2
  subst same
  refine List.forall_mem_cons.mpr ⟨before, ?_⟩
  rcases state with larger | closed
  · omega
  · exact closed

theorem visited_visit {members : Members Nat} {visits : Visits} (there : members.In heap)
    (context : Context) (entered : Entered heap visits members.size) :
    Visited context.fields visits (members.visit context visits) members.containers
      (members.reaches context.key) := by
  induction members generalizing context visits with
  | nil => exact ⟨fun _ member => member, by simp [Members.containers], fun _ member => .inl member⟩
  | atom k value rest ih => exact ih there.2.2 context (entered.fewer (Nat.le_succ _))
  | str k s rest ih => exact ih there.2 context (entered.fewer (Nat.le_succ _))
  | node k shape id inside rest ihInside ih =>
    obtain ⟨isKey, stands, inner, later⟩ := there
    let entering : Reach Nat := ⟨shape, id, Value.keyUnder context.key k, inside⟩
    have first : Visited context.fields visits
        (if shape = .tuple then inside.visit (context.under k) visits
        else if id ∈ visits.map (·.1) then visits
        else inside.visit (context.under k) ((id, context.under k) :: visits))
        ((if shape = .tuple then [] else [id]) ++ inside.containers)
        (entering :: inside.reaches (Value.keyUnder context.key k)) := by
      by_cases tuple : shape = .tuple
      · have fewer : inside.size ≤ (node k shape id inside rest).size := by
          simp only [size]
          omega
        rw [if_pos tuple, if_pos tuple, List.nil_append]
        exact (ihInside inner (context.under k) (entered.fewer fewer)).within entering
      · rw [if_neg tuple, if_neg tuple]
        split
        next before =>
          exact .again
            (entered.ids_of_again before tuple stands inner (by simp only [size]; omega))
        next new =>
          have enteredInside : Entered heap ((id, context.under k) :: visits) inside.size :=
            entered.cons tuple stands inner (by simp only [size]; omega)
          exact (ihInside inner (context.under k) enteredInside).enter tuple
    have standing : ∀ reach ∈ entering :: inside.reaches (Value.keyUnder context.key k),
        heap.Stands reach.shape reach.label reach.inside.toList ∧ reach.inside.In heap := by
      simp only [List.forall_mem_cons]
      exact ⟨⟨stands, inner⟩, fun reach reached => in_of_reach inner reached⟩
    have fewer : rest.size ≤ (node k shape id inside rest).size := by
      simp only [size]
      omega
    have both := first.append (ih later context (entered.onward first standing fewer))
    rw [List.append_assoc] at both
    exact both

end

end Members

/-! ## Components -/

namespace Reading

variable {heap : Heap} {catalog : Option Catalog}

/-- What the visits are once the components have been walked through. -/
structure Visiting (catalog : Option Catalog) (readings : List (Reading heap))
    (visits : Visits) : Prop where
  room : Room heap heap.objects.size (visits.map (·.1))
  entered : ∀ left, Members.Entered heap visits left
  all : ∀ reading ∈ readings, ∀ reach ∈ reading.reaches, reach.shape ≠ .tuple →
    reach.label ∈ visits.map (·.1)
  new : ∀ visit ∈ visits, ∃ reading ∈ readings, ∃ reach ∈ reading.reaches, reach.shape ≠ .tuple ∧
    visit = (reach.label, ⟨reach.key, reading.fields catalog⟩)

theorem Visiting.start (heap : Heap) (catalog : Option Catalog) :
    Visiting catalog ([] : List (Reading heap)) [] :=
  ⟨.start heap, by simp [Members.Entered], by simp, by simp⟩

theorem Visiting.step {readings : List (Reading heap)} {visits : Visits}
    (visiting : Visiting catalog readings visits) (reading : Reading heap) :
    Visiting catalog (readings ++ [reading])
      (reading.unfolded.visit ⟨none, reading.fields catalog⟩ visits) := by
  have visited : Members.Visited (reading.fields catalog) visits
      (reading.unfolded.visit ⟨none, reading.fields catalog⟩ visits) reading.unfolded.containers
      reading.reaches :=
    Members.visited_visit reading.unfolded_in ⟨none, reading.fields catalog⟩
      (visiting.entered reading.unfolded.size)
  have standing : ∀ reach ∈ reading.reaches,
      heap.Stands reach.shape reach.label reach.inside.toList ∧ reach.inside.In heap :=
    fun reach reached => Members.in_of_reach reading.unfolded_in reached
  refine ⟨Members.visit_room reading.unfolded_in _ visits visiting.room,
    fun left => (visiting.entered left).onward visited standing (Nat.le_refl left),
    fun other member reach reached container => ?_, fun visit member => ?_⟩
  · rcases List.mem_append.mp member with before | itself
    · exact visited.ids (visiting.all other before reach reached container)
    · rw [List.mem_singleton.mp itself] at reached
      exact visited.all reach.label
        ((Members.mem_containers none).mpr ⟨reach, reached, container, rfl⟩)
  · rcases visited.new visit member with before | ⟨reach, reached, container, visiting', -⟩
    · obtain ⟨other, inReadings, found⟩ := visiting.new visit before
      exact ⟨other, List.mem_append_left _ inReadings, found⟩
    · exact ⟨reading, by simp, reach, reached, container, visiting'⟩

theorem Visiting.run {before readings : List (Reading heap)} {visits : Visits}
    (visiting : Visiting catalog before visits) :
    ∃ after, (readings.map entry).foldlM (Relink.visitEntry heap catalog) visits = .ok after ∧
      Visiting catalog (before ++ readings) after := by
  induction readings generalizing before visits with
  | nil => exact ⟨visits, rfl, by rwa [List.append_nil]⟩
  | cons reading readings ih =>
    obtain ⟨after, visited, visitingAll⟩ := ih (visiting.step reading)
    refine ⟨after, ?_, by simpa using visitingAll⟩
    have one : Relink.visitEntry heap catalog visits reading.entry =
        .ok (reading.unfolded.visit ⟨none, reading.fields catalog⟩ visits) :=
      congrArg Except.ok (reading.visitComponent_eq catalog visiting.room)
    rw [List.map_cons, List.foldlM_cons, one]
    exact visited

/-- The walk through the components ends, and every container is visited once. -/
theorem exists_visits (catalog : Option Catalog) (readings : List (Reading heap)) :
    ∃ visits, (readings.map entry).foldlM (Relink.visitEntry heap catalog) [] = .ok visits ∧
      Visiting catalog readings visits :=
  (Visiting.start heap catalog).run

end Reading

end StaticSite
