import Mathlib.Data.Finset.Card
import Mathlib.Logic.Function.Iterate
import Mathlib.Logic.Relation
import StaticSite.Proofs.RenderingPass

/-!
# The walk of a rendering pass

A pass goes through the ids of a page in pre-order. It ends, also where components contain each
other, with the first place of the walk that it must not enter: an id that has been met before, or
a component that nothing renders.
-/

namespace StaticSite

/-- A registry whose renderers give markup for everything. -/
def Registry.IsTotal (registry : Registry) : Prop :=
  ∀ type renderer, registry.get? type = some renderer →
    ∀ heap entries children context, ∃ node,
      renderer.render heap entries children context = .ok node

/-- The component that an id names: of several with one id the last. -/
def Component.lastNamed (components : List Component) (id : String) : Option Component :=
  components.reverse.find? (·.id = id)

theorem Ordered.get?_putAll {α : Type} (map other : Ordered α) (name : String) :
    get? (putAll map other) name =
      ((other.reverse.find? (·.1 = name)).map (·.2)).or (get? map name) := by
  induction other generalizing map with
  | nil => rfl
  | cons entry other ih =>
    obtain ⟨key, value⟩ := entry
    have next : putAll map ((key, value) :: other) = putAll (put map key value) other := rfl
    rw [next, ih, List.reverse_cons, List.find?_append]
    by_cases same : key = name
    · subst same
      cases other.reverse.find? (·.1 = key) <;> simp [get?_put_self]
    · simp [get?_put_of_ne map value same, same]

namespace Rendering

theorem get?_ofList_eq_lastNamed (components : List Component) :
    Ordered.get? (Ordered.ofList (components.map fun c => (c.id, c))) =
      Component.lastNamed components := by
  funext id
  rw [Ordered.ofList, Ordered.get?_putAll, ← List.map_reverse, List.find?_map, Ordered.get?,
    Option.or_none, Option.map_map]
  exact congrFun Option.map_id _

/-! ## The walk -/

section

variable (named : String → Option Component) (registry : Registry)

/-- The ids that an id leads to, zone by zone; an id without a component leads nowhere. -/
def contained (id : String) : List String :=
  ((named id).map fun component => component.zones.flatMap (·.2)).getD []

/-- One step of a walk: it goes into the first id that is ahead before it goes on. -/
def advance : List String → List String
  | [] => []
  | id :: ids => contained named id ++ ids

/-- The ids in pre-order, from the roots on. Where components contain each other the walk has no
end. -/
def walk (roots : List String) (n : Nat) : Option String :=
  ((advance named)^[n] roots).head?

/-- What is wrong with a place of the walk. -/
inductive Offends (roots : List String) (n : Nat) : Fault → Prop where
  | again {id : String} (here : walk named roots n = some id)
      (before : ∃ m < n, walk named roots m = some id) :
      Offends roots n (.cyclicContainment id)
  | unknown {id : String} {component : Component} (here : walk named roots n = some id)
      (isNamed : named id = some component) (unregistered : registry.get? component.type = none) :
      Offends roots n (.unknownType id component.type)

/-- The fault of the first place of the walk with which anything is wrong. -/
def FirstOffends (roots : List String) (fault : Fault) : Prop :=
  ∃ n, Offends named registry roots n fault ∧
    ∀ m < n, ∀ other, ¬ Offends named registry roots m other

end

section

variable {named : String → Option Component} {registry : Registry} {roots : List String}

/-- At the first offence an id is either met again or unknown: the id of a component that nothing
renders would have been an offence where it was first met. -/
theorem FirstOffends.unique {fault other : Fault} (first : FirstOffends named registry roots fault)
    (second : FirstOffends named registry roots other) : fault = other := by
  obtain ⟨n, offends, earliest⟩ := first
  obtain ⟨m, offends', earliest'⟩ := second
  obtain rfl : n = m := by
    rcases Nat.lt_trichotomy n m with less | same | less
    · exact absurd offends (earliest' n less fault)
    · exact same
    · exact absurd offends' (earliest m less other)
  cases offends with
  | again here before =>
    cases offends' with
    | again here' _ =>
      cases here.symm.trans here'
      rfl
    | unknown here' isNamed unregistered =>
      cases here.symm.trans here'
      obtain ⟨m, less, met⟩ := before
      exact absurd (.unknown met isNamed unregistered) (earliest m less _)
  | unknown here isNamed unregistered =>
    cases offends' with
    | again here' before =>
      cases here.symm.trans here'
      obtain ⟨m, less, met⟩ := before
      exact absurd (.unknown met isNamed unregistered) (earliest m less _)
    | unknown here' isNamed' _ =>
      cases here.symm.trans here'
      cases isNamed.symm.trans isNamed'
      rfl

/-- Nothing is wrong with a walk that meets no id twice and only components that can be rendered. -/
theorem forall_not_offends_iff :
    (∀ n fault, ¬ Offends named registry roots n fault) ↔
      (∀ m n id, walk named roots m = some id → walk named roots n = some id → m = n) ∧
        ∀ n id component, walk named roots n = some id → named id = some component →
          ∃ renderer, registry.get? component.type = some renderer := by
  constructor
  · refine fun clean => ⟨fun m n id met met' => ?_, fun n id component met isNamed => ?_⟩
    · rcases Nat.lt_trichotomy m n with less | same | less
      · exact absurd (.again met' ⟨m, less, met⟩) (clean n _)
      · exact same
      · exact absurd (.again met ⟨n, less, met'⟩) (clean m _)
    · exact Option.ne_none_iff_exists'.mp fun unregistered =>
        clean n _ (.unknown met isNamed unregistered)
  · rintro ⟨once, known⟩ n fault offends
    cases offends with
    | again here before =>
      obtain ⟨m, less, met⟩ := before
      exact absurd (once m n _ met here) (Nat.ne_of_lt less)
    | unknown here isNamed unregistered =>
      obtain ⟨renderer, registered⟩ := known n _ _ here isNamed
      cases unregistered.symm.trans registered

end

/-! ## Moves -/

/-- Where a pass stands: what it has visited, and what is ahead. -/
structure Position where
  visited : List String
  ahead : List String

section

variable (named : String → Option Component) (registry : Registry)

/-- A pass moves on through an id that it has not met and that it can render. -/
inductive Moves : Position → Position → Prop where
  | visit {visited ids : List String} {id : String} (unvisited : id ∉ visited)
      (known : ∀ component, named id = some component → registry.get? component.type ≠ none) :
      Moves ⟨visited, id :: ids⟩ ⟨id :: visited, contained named id ++ ids⟩

/-- The faults with which a pass stops in front of an id. -/
inductive Refuses (visited : List String) (id : String) : Fault → Prop where
  | again (met : id ∈ visited) : Refuses visited id (.cyclicContainment id)
  | unknown {component : Component} (isNamed : named id = some component)
      (unregistered : registry.get? component.type = none) :
      Refuses visited id (.unknownType id component.type)

/-- A pass comes through all ids, whatever follows them. -/
def Clears (visited ids after : List String) : Prop :=
  ∀ rest, Relation.ReflTransGen (Moves named registry) ⟨visited, ids ++ rest⟩ ⟨after, rest⟩

/-- A pass stops within the ids, whatever follows them. -/
def Stops (visited ids : List String) (fault : Fault) : Prop :=
  ∃ after id, Refuses named registry after id fault ∧ ∀ rest, ∃ ahead,
    Relation.ReflTransGen (Moves named registry) ⟨visited, ids ++ rest⟩ ⟨after, id :: ahead⟩

/-- The outcome of a step tells how a pass fares with the ids. -/
def Follows {α : Type} (visited ids : List String) : Except Fault α × State → Prop
  | (.ok _, last) => Clears named registry visited ids last.visited
  | (.error fault, _) => Stops named registry visited ids fault

end

section

variable {named : String → Option Component} {registry : Registry}

theorem subset_of_moves {start last : Position}
    (moves : Relation.ReflTransGen (Moves named registry) start last) :
    start.visited ⊆ last.visited := by
  induction moves with
  | refl => exact List.Subset.refl _
  | tail _ move ih =>
    cases move
    exact List.subset_cons_of_subset _ ih

/-- Where a pass stands after some moves is told by as many steps of the walk. -/
theorem walk_of_moves {roots : List String} {position : Position}
    (moves : Relation.ReflTransGen (Moves named registry) ⟨[], roots⟩ position) :
    ∃ n, (advance named)^[n] roots = position.ahead ∧
      (∀ id, id ∈ position.visited ↔ ∃ m < n, walk named roots m = some id) ∧
        ∀ m < n, ∀ fault, ¬ Offends named registry roots m fault := by
  induction moves with
  | refl => exact ⟨0, rfl, by simp, by simp⟩
  | tail _ move ih =>
    obtain ⟨n, ahead, met, clean⟩ := ih
    cases move with
    | @visit visited ids id unvisited known =>
      have here : walk named roots n = some id := by rw [walk, ahead]; rfl
      refine ⟨n + 1, by rw [Function.iterate_succ_apply', ahead, advance], fun other => ?_,
        fun m less fault offends => ?_⟩
      · simp only [List.mem_cons, met, Nat.lt_succ_iff_lt_or_eq, or_and_right, exists_or,
          exists_eq_left, here, Option.some.injEq]
        rw [or_comm, eq_comm]
      · rcases Nat.lt_succ_iff_lt_or_eq.mp less with earlier | rfl
        · exact clean m earlier fault offends
        · cases offends with
          | again here' before =>
            cases here.symm.trans here'
            exact unvisited ((met _).mpr before)
          | unknown here' isNamed unregistered =>
            cases here.symm.trans here'
            exact known _ isNamed unregistered

theorem Clears.not_offends {roots after : List String}
    (clears : Clears named registry [] roots after) (n : Nat) (fault : Fault) :
    ¬ Offends named registry roots n fault := by
  have moves := clears []
  rw [List.append_nil] at moves
  obtain ⟨last, ahead, -, clean⟩ := walk_of_moves moves
  rcases Nat.lt_or_ge n last with before | beyond
  · exact clean n before fault
  -- behind its end a walk meets nothing
  have ended : walk named roots n = none := by
    obtain ⟨more, rfl⟩ := Nat.exists_eq_add_of_le' beyond
    rw [walk, Function.iterate_add_apply, ahead, Function.iterate_fixed rfl]
    rfl
  rintro (⟨here, -⟩ | ⟨here, -, -⟩) <;> cases ended.symm.trans here

theorem Stops.firstOffends {roots : List String} {fault : Fault}
    (stops : Stops named registry [] roots fault) : FirstOffends named registry roots fault := by
  obtain ⟨after, id, refuses, reaches⟩ := stops
  obtain ⟨ahead, moves⟩ := reaches []
  rw [List.append_nil] at moves
  obtain ⟨n, stands, met, clean⟩ := walk_of_moves moves
  have here : walk named roots n = some id := by rw [walk, stands]; rfl
  refine ⟨n, ?_, clean⟩
  cases refuses with
  | again visited => exact .again here ((met id).mp visited)
  | unknown isNamed unregistered => exact .unknown here isNamed unregistered

theorem Clears.nil (visited : List String) : Clears named registry visited [] visited :=
  fun _ => .refl

theorem Clears.subset {visited ids after : List String}
    (clears : Clears named registry visited ids after) : visited ⊆ after :=
  subset_of_moves (clears [])

theorem Clears.append {visited ids between others after : List String}
    (first : Clears named registry visited ids between)
    (second : Clears named registry between others after) :
    Clears named registry visited (ids ++ others) after := by
  intro rest
  rw [List.append_assoc]
  exact (first (others ++ rest)).trans (second rest)

theorem Clears.stops {visited ids between others : List String} {fault : Fault}
    (clears : Clears named registry visited ids between)
    (stops : Stops named registry between others fault) :
    Stops named registry visited (ids ++ others) fault := by
  obtain ⟨after, id, refuses, reaches⟩ := stops
  refine ⟨after, id, refuses, fun rest => ?_⟩
  obtain ⟨ahead, moves⟩ := reaches rest
  rw [List.append_assoc]
  exact ⟨ahead, (clears (others ++ rest)).trans moves⟩

theorem Stops.append {visited ids : List String} {fault : Fault}
    (stops : Stops named registry visited ids fault) (others : List String) :
    Stops named registry visited (ids ++ others) fault := by
  obtain ⟨after, id, refuses, reaches⟩ := stops
  refine ⟨after, id, refuses, fun rest => ?_⟩
  rw [List.append_assoc]
  exact reaches (others ++ rest)

/-- An id that can be entered is followed by what it contains. -/
theorem clears_visit {visited after : List String} {id : String} (unvisited : id ∉ visited)
    (known : ∀ component, named id = some component → registry.get? component.type ≠ none)
    (inside : Clears named registry (id :: visited) (contained named id) after) :
    Clears named registry visited [id] after :=
  fun rest => .head (.visit unvisited known) (inside rest)

theorem stops_visit {visited : List String} {id : String} {fault : Fault}
    (unvisited : id ∉ visited)
    (known : ∀ component, named id = some component → registry.get? component.type ≠ none)
    (inside : Stops named registry (id :: visited) (contained named id) fault) :
    Stops named registry visited [id] fault := by
  obtain ⟨after, other, refuses, reaches⟩ := inside
  refine ⟨after, other, refuses, fun rest => ?_⟩
  obtain ⟨ahead, moves⟩ := reaches rest
  exact ⟨ahead, .head (.visit unvisited known) moves⟩

theorem stops_here {visited : List String} {id : String} {fault : Fault}
    (refuses : Refuses named registry visited id fault) :
    Stops named registry visited [id] fault :=
  ⟨visited, id, refuses, fun rest => ⟨rest, .refl⟩⟩

end

/-! ## The pass -/

/-- One level of the descent, with `enter` in place of the levels below. -/
def level (scene : Scene) (enter : String → Step String) (id : String) : Step String := fun state =>
  if id ∈ state.visited then (.error (.cyclicContainment id), state)
  else
    let state := { state with visited := id :: state.visited }
    match Ordered.get? scene.components id with
    | none => (.ok "", { state with missing := state.missing ++ [id] })
    | some component => renderFound scene enter component state

theorem renderWith_succ (scene : Scene) (fuel : Nat) :
    renderWith scene (fuel + 1) = level scene (renderWith scene fuel) :=
  rfl

theorem renderWith_eq_iterate (scene : Scene) (fuel : Nat) :
    renderWith scene fuel = (level scene)^[fuel] (renderWith scene 0) := by
  induction fuel with
  | zero => rfl
  | succ fuel ih => rw [renderWith_succ, ih, Function.iterate_succ_apply']

/-- The ids of components that a pass can still enter. -/
def Scene.unvisited (scene : Scene) (visited : List String) : Finset String :=
  (Ordered.names scene.components).toFinset \ visited.toFinset

theorem Scene.mem_unvisited {scene : Scene} {visited : List String} {id : String} :
    id ∈ scene.unvisited visited ↔ id ∈ Ordered.names scene.components ∧ id ∉ visited := by
  simp [unvisited]

theorem Scene.card_unvisited_le (scene : Scene) (visited : List String) :
    (scene.unvisited visited).card ≤ scene.components.length :=
  calc (scene.unvisited visited).card
    _ ≤ (Ordered.names scene.components).toFinset.card := Finset.card_le_card Finset.sdiff_subset
    _ ≤ (Ordered.names scene.components).length := List.toFinset_card_le _
    _ = scene.components.length := List.length_map ..

/-- Entering a component leaves fewer that can still be entered. -/
theorem Scene.card_unvisited_lt {scene : Scene} {start visited : List String} {id : String}
    {component : Component} (grown : start ⊆ visited) (new : id ∉ visited)
    (found : Ordered.get? scene.components id = some component) :
    (scene.unvisited (id :: visited)).card < (scene.unvisited start).card := by
  have isName : id ∈ Ordered.names scene.components :=
    List.mem_map_of_mem (Ordered.mem_of_get?_eq_some found)
  refine Finset.card_lt_card
    ((Finset.ssubset_iff_of_subset fun other member => ?_).mpr ⟨id, ?_, ?_⟩)
  · obtain ⟨isName', absent⟩ := mem_unvisited.mp member
    exact mem_unvisited.mpr
      ⟨isName', fun inStart => absent (List.mem_cons_of_mem _ (grown inStart))⟩
  · exact mem_unvisited.mpr ⟨isName, fun inStart => new (grown inStart)⟩
  · exact fun member => (mem_unvisited.mp member).2 (List.mem_cons_self ..)

/-- Two steps, one after the other. -/
def Step.both {α β γ : Type} (first : Step α) (second : Step β) (join : α → β → γ) : Step γ :=
  fun state =>
    match first state with
    | (.error fault, state) => (.error fault, state)
    | (.ok here, state) =>
      match second state with
      | (.error fault, state) => (.error fault, state)
      | (.ok there, state) => (.ok (join here there), state)

theorem renderEach_cons (enter : String → Step String) (id : String) (ids : List String) :
    renderEach enter (id :: ids) = Step.both (enter id) (renderEach enter ids) List.cons := by
  funext state
  rw [renderEach, Step.both]
  rcases enter id state with ⟨fault | markup, next⟩
  · rfl
  · dsimp only
    rcases renderEach enter ids next with ⟨fault | others, last⟩ <;> rfl

theorem renderZones_cons (enter : String → Step String) (zone : String × List String)
    (zones : Ordered (List String)) :
    renderZones enter (zone :: zones) =
      Step.both (renderIdsBy enter zone.2) (renderZones enter zones)
        fun markup others => (zone.1, markup) :: others := by
  funext state
  rw [renderZones, Step.both]
  rcases renderIdsBy enter zone.2 state with ⟨fault | markup, next⟩
  · rfl
  · dsimp only
    rcases renderZones enter zones next with ⟨fault | others, last⟩ <;> rfl

/-! ### Depth -/

/-- Two steps that agree in every state that has visited at least `start`, and visit more there. -/
def Step.SameFrom {α : Type} (start : List String) (step other : Step α) : Prop :=
  ∀ state, start ⊆ state.visited → step state = other state ∧ start ⊆ (step state).2.visited

section

variable {α β γ : Type} {start : List String} {enter other : String → Step String}

theorem Step.SameFrom.both {first first' : Step α} {second second' : Step β} (join : α → β → γ)
    (here : SameFrom start first first') (there : SameFrom start second second') :
    SameFrom start (Step.both first second join) (Step.both first' second' join) := by
  intro state grown
  obtain ⟨equal, grown⟩ := here state grown
  rw [Step.both, Step.both, ← equal]
  generalize first state = outcome at grown
  rcases outcome with ⟨fault | value, next⟩
  · exact ⟨rfl, grown⟩
  · obtain ⟨equal, grown⟩ := there next grown
    dsimp only
    rw [← equal]
    generalize second next = outcome at grown
    rcases outcome with ⟨fault | value, last⟩ <;> exact ⟨rfl, grown⟩

theorem renderEach_sameFrom (same : ∀ id, Step.SameFrom start (enter id) (other id))
    (ids : List String) : Step.SameFrom start (renderEach enter ids) (renderEach other ids) := by
  induction ids with
  | nil => exact fun state grown => ⟨rfl, grown⟩
  | cons id ids ih =>
    rw [renderEach_cons, renderEach_cons]
    exact (same id).both List.cons ih

theorem renderIdsBy_sameFrom (same : ∀ id, Step.SameFrom start (enter id) (other id))
    (ids : List String) : Step.SameFrom start (renderIdsBy enter ids) (renderIdsBy other ids) := by
  intro state grown
  obtain ⟨equal, grown⟩ := renderEach_sameFrom same ids state grown
  rw [renderIdsBy, renderIdsBy, ← equal]
  generalize renderEach enter ids state = outcome at grown
  rcases outcome with ⟨fault | parts, last⟩ <;> exact ⟨rfl, grown⟩

theorem renderZones_sameFrom (same : ∀ id, Step.SameFrom start (enter id) (other id))
    (zones : Ordered (List String)) :
    Step.SameFrom start (renderZones enter zones) (renderZones other zones) := by
  induction zones with
  | nil => exact fun state grown => ⟨rfl, grown⟩
  | cons zone zones ih =>
    rw [renderZones_cons, renderZones_cons]
    exact (renderIdsBy_sameFrom same zone.2).both _ ih

theorem renderFound_sameFrom (scene : Scene) (component : Component)
    (same : ∀ id, Step.SameFrom start (enter id) (other id)) :
    Step.SameFrom start (renderFound scene enter component)
      (renderFound scene other component) := by
  intro state grown
  obtain ⟨equal, zones⟩ := renderZones_sameFrom same component.zones state grown
  rw [renderFound, renderFound, ← equal]
  by_cases registered : Ordered.contains scene.registry component.type = true
  · simp only [if_pos registered, true_and]
    generalize renderZones enter component.zones state = outcome at zones
    rcases outcome with ⟨fault | children, last⟩
    · exact zones
    · dsimp only
      split <;> exact zones
  · simp only [if_neg registered, true_and]
    exact grown

end

/-- More levels than components that can still be entered do not depend on what is below them. -/
theorem iterate_level_sameFrom (scene : Scene) (deepest other : String → Step String) {levels : Nat}
    {start : List String} (enough : (scene.unvisited start).card < levels) (id : String) :
    Step.SameFrom start ((level scene)^[levels] deepest id) ((level scene)^[levels] other id) := by
  induction levels generalizing start id with
  | zero => exact absurd enough (Nat.not_lt_zero _)
  | succ levels ih =>
    intro state grown
    rw [Function.iterate_succ_apply', Function.iterate_succ_apply', level, level]
    by_cases met : id ∈ state.visited
    · rw [if_pos met, if_pos met]
      exact ⟨rfl, grown⟩
    rw [if_neg met, if_neg met]
    have wider : start ⊆ id :: state.visited := List.subset_cons_of_subset _ grown
    cases found : Ordered.get? scene.components id with
    | none => exact ⟨rfl, wider⟩
    | some component =>
      have fewer := Scene.card_unvisited_lt grown met found
      obtain ⟨equal, grown'⟩ := renderFound_sameFrom scene component
        (fun id => ih (Nat.lt_of_lt_of_le fewer (Nat.le_of_lt_succ enough)) id)
        { state with visited := id :: state.visited } (List.Subset.refl _)
      exact ⟨equal, List.Subset.trans wider grown'⟩

/-- The descent ends: below as many levels as there are components, and one more, it never goes. -/
theorem iterate_level_eq_renderId (scene : Scene) {levels : Nat}
    (enough : scene.components.length < levels) (deepest : String → Step String) :
    (level scene)^[levels] deepest = renderId scene := by
  obtain ⟨more, rfl⟩ := Nat.exists_eq_add_of_lt enough
  have top : scene.components.length + more + 1 = (scene.components.length + 1) + more := by omega
  funext id state
  rw [top, Function.iterate_add_apply, renderId, renderWith_eq_iterate]
  exact (iterate_level_sameFrom scene _ _
    (Nat.lt_succ_of_le (scene.card_unvisited_le [])) id state (List.nil_subset _)).1

/-- What renders an id is one level over itself. -/
theorem level_renderId (scene : Scene) : level scene (renderId scene) = renderId scene := by
  let depth := scene.components.length
  calc level scene (renderId scene)
    _ = level scene ((level scene)^[depth + 1] (renderId scene)) := by
      rw [iterate_level_eq_renderId scene (Nat.lt_succ_self _)]
    _ = (level scene)^[depth + 2] (renderId scene) := (Function.iterate_succ_apply' ..).symm
    _ = renderId scene := iterate_level_eq_renderId scene (Nat.lt_add_of_pos_right Nat.two_pos) _

/-! ### Outcomes -/

/-- Whether the components of a session can be found by their own ids only. -/
def Scene.IsKeyed (scene : Scene) : Prop :=
  ∀ id component, Ordered.get? scene.components id = some component → component.id = id

section

variable {scene : Scene}

/-- Every outcome of a step, from a state that has visited at least `start`, tells how the pass
fares with the ids. -/
def Step.Tracks {α : Type} (scene : Scene) (start ids : List String) (step : Step α) : Prop :=
  ∀ state, start ⊆ state.visited →
    Follows (Ordered.get? scene.components) scene.registry state.visited ids (step state)

variable {start : List String} {enter : String → Step String}

theorem Step.Tracks.both {α β γ : Type} {ids others : List String} {first : Step α}
    {second : Step β} (here : Tracks scene start ids first)
    (there : Tracks scene start others second)
    (join : α → β → γ) : Tracks scene start (ids ++ others) (Step.both first second join) := by
  intro state grown
  have follows := here state grown
  rw [Step.both]
  generalize first state = outcome at follows
  rcases outcome with ⟨fault | value, next⟩
  · exact Stops.append follows others
  · have clears : Clears _ _ state.visited ids next.visited := follows
    have follows := there next (List.Subset.trans grown clears.subset)
    dsimp only
    generalize second next = outcome at follows
    rcases outcome with ⟨fault | value, last⟩
    · exact clears.stops follows
    · exact clears.append follows

theorem renderEach_tracks (each : ∀ id, Step.Tracks scene start [id] (enter id))
    (ids : List String) : Step.Tracks scene start ids (renderEach enter ids) := by
  induction ids with
  | nil => exact fun state _ => Clears.nil state.visited
  | cons id ids ih =>
    rw [renderEach_cons]
    exact (each id).both ih List.cons

theorem renderIdsBy_tracks (each : ∀ id, Step.Tracks scene start [id] (enter id))
    (ids : List String) : Step.Tracks scene start ids (renderIdsBy enter ids) := by
  intro state grown
  have follows := renderEach_tracks each ids state grown
  rw [renderIdsBy]
  generalize renderEach enter ids state = outcome at follows
  rcases outcome with ⟨fault | parts, last⟩ <;> exact follows

theorem renderZones_tracks (each : ∀ id, Step.Tracks scene start [id] (enter id))
    (zones : Ordered (List String)) :
    Step.Tracks scene start (zones.flatMap (·.2)) (renderZones enter zones) := by
  induction zones with
  | nil => exact fun state _ => Clears.nil state.visited
  | cons zone zones ih =>
    rw [renderZones_cons]
    exact (renderIdsBy_tracks each zone.2).both ih _

/-- A renderer that always gives markup leaves only a missing type to fail for. -/
theorem exists_componentMarkup {heap : Heap} {registry : Registry} (isTotal : registry.IsTotal)
    (options : Options) {component : Component} {renderer : Renderer}
    (registered : registry.get? component.type = some renderer) (children : Children) :
    ∃ markup, componentMarkup heap registry options component children = .ok markup := by
  obtain ⟨node, isNode⟩ := isTotal _ _ registered heap (component.entries heap) children
    { id := component.id, type := component.type, minify := options.minify
      className := Style.className component.id options.classStart }
  rw [componentMarkup, registered]
  dsimp only
  rw [isNode]
  exact ⟨_, rfl⟩

theorem renderFound_tracks (isTotal : scene.registry.IsTotal)
    (each : ∀ id, Step.Tracks scene start [id] (enter id)) {component : Component}
    {renderer : Renderer} (registered : scene.registry.get? component.type = some renderer) :
    Step.Tracks scene start (component.zones.flatMap (·.2))
      (renderFound scene enter component) := by
  intro state grown
  have follows := renderZones_tracks each component.zones state grown
  have isType : Ordered.contains scene.registry component.type = true :=
    Option.isSome_iff_exists.mpr ⟨renderer, registered⟩
  rw [renderFound, if_pos isType]
  generalize renderZones enter component.zones state = outcome at follows
  rcases outcome with ⟨fault | children, last⟩
  · exact follows
  · obtain ⟨markup, isMarkup⟩ := exists_componentMarkup isTotal scene.options registered children
    dsimp only
    rw [isMarkup]
    exact follows

/-- What is registered is asked for when a component is found, not before: a pass that stops in
front of a component has visited its id. -/
theorem level_tracks (isTotal : scene.registry.IsTotal)
    (each : ∀ visited, start ⊆ visited → ∀ id ∉ visited, ∀ component,
      Ordered.get? scene.components id = some component →
        ∀ inner, Step.Tracks scene (id :: visited) [inner] (enter inner))
    (isKeyed : scene.IsKeyed)
    (id : String) : Step.Tracks scene start [id] (level scene enter id) := by
  intro state grown
  rw [level]
  by_cases met : id ∈ state.visited
  · rw [if_pos met]
    exact stops_here (.again met)
  rw [if_neg met]
  cases found : Ordered.get? scene.components id with
  | none =>
    exact clears_visit met (fun component isNamed => by cases found.symm.trans isNamed) (by
      rw [contained, found]
      exact Clears.nil _)
  | some component =>
    have inside : contained (Ordered.get? scene.components) id = component.zones.flatMap (·.2) := by
      rw [contained, found]
      rfl
    cases registered : scene.registry.get? component.type with
    | none =>
      have isType : ¬ Ordered.contains scene.registry component.type = true := by
        rw [Ordered.contains, ← Registry.get?, registered]
        exact Bool.false_ne_true
      dsimp only
      rw [renderFound, if_neg isType, isKeyed id component found]
      exact stops_here (.unknown found registered)
    | some renderer =>
      have known (other : Component) (isNamed : Ordered.get? scene.components id = some other) :
          scene.registry.get? other.type ≠ none := by
        cases found.symm.trans isNamed
        rw [registered]
        exact Option.some_ne_none _
      have follows := renderFound_tracks isTotal (each state.visited grown id met component found)
        registered { state with visited := id :: state.visited } (List.Subset.refl _)
      rw [← inside] at follows
      dsimp only
      generalize renderFound scene enter component { state with visited := id :: state.visited } =
        outcome at follows
      rcases outcome with ⟨fault | markup, last⟩
      · exact stops_visit met known follows
      · exact clears_visit met known follows

theorem renderWith_tracks (isTotal : scene.registry.IsTotal)
    (isKeyed : scene.IsKeyed)
    {fuel : Nat} {start : List String} (enough : (scene.unvisited start).card < fuel)
    (id : String) : Step.Tracks scene start [id] (renderWith scene fuel id) := by
  induction fuel generalizing start id with
  | zero => exact absurd enough (Nat.not_lt_zero _)
  | succ fuel ih =>
    rw [renderWith_succ]
    refine level_tracks isTotal (fun visited grown id new component found inner => ?_) isKeyed id
    have fewer := Scene.card_unvisited_lt grown new found
    exact ih (Nat.lt_of_lt_of_le fewer (Nat.le_of_lt_succ enough)) inner

theorem renderIds_tracks (isTotal : scene.registry.IsTotal)
    (isKeyed : scene.IsKeyed)
    (roots : List String) : Step.Tracks scene [] roots (renderIds scene roots) :=
  renderIdsBy_tracks
    (renderWith_tracks isTotal isKeyed (Nat.lt_succ_of_le (scene.card_unvisited_le []))) roots

end

/-- The session of a page all of whose entries are components. -/
theorem ofEntries_map_component (heap : Heap) (components : List Component) (registry : Registry)
    (options : Options) :
    Scene.ofEntries heap (components.map .component) registry options = .ok
      { heap, registry, options
        components := Ordered.ofList (components.map fun c => (c.id, c)) } := by
  unfold Scene.ofEntries
  dsimp only
  split
  next value rest strays => simp [List.filterMap_map] at strays
  next => rw [Entry.filterMap_component?_map]; rfl

/-- What a session finds by an id is the last component with the id. -/
theorem Scene.named_of_ofEntries {heap : Heap} {components : List Component} {registry : Registry}
    {options : Options} {scene : Scene}
    (isScene : ofEntries heap (components.map .component) registry options = .ok scene) :
    Ordered.get? scene.components = Component.lastNamed components ∧ scene.IsKeyed ∧
      scene.registry = registry := by
  rw [ofEntries_map_component] at isScene
  cases isScene
  have named := get?_ofList_eq_lastNamed components
  refine ⟨named, fun id component found => ?_, rfl⟩
  simpa using List.find?_some ((congrFun named id).symm.trans found)

/--
A pass over the roots of a page ends however the components contain each other, without going
deeper than there are components. It succeeds exactly if the walk meets no id twice and only
components that can be rendered; otherwise it fails with what is wrong first.
-/
theorem renderIds_follows_walk (heap : Heap) (components : List Component) {registry : Registry}
    (isTotal : registry.IsTotal) (options : Options) (roots : List String) :
    ∃ scene, Scene.ofEntries heap (components.map .component) registry options = .ok scene ∧
      (∀ levels, scene.components.length < levels → ∀ deepest,
        renderIdsBy ((level scene)^[levels] deepest) roots = renderIds scene roots) ∧
      ((∃ markup, (renderIds scene roots {}).1 = .ok markup) ↔
        (∀ m n id, walk (Component.lastNamed components) roots m = some id →
          walk (Component.lastNamed components) roots n = some id → m = n) ∧
        ∀ n id component, walk (Component.lastNamed components) roots n = some id →
          Component.lastNamed components id = some component →
            ∃ renderer, registry.get? component.type = some renderer) ∧
      ∀ fault, (renderIds scene roots {}).1 = .error fault ↔
        FirstOffends (Component.lastNamed components) registry roots fault := by
  obtain ⟨scene, isScene⟩ :
      ∃ scene, Scene.ofEntries heap (components.map .component) registry options = .ok scene :=
    ⟨_, ofEntries_map_component ..⟩
  obtain ⟨named, isKeyed, rfl⟩ := Scene.named_of_ofEntries isScene
  refine ⟨scene, isScene, fun levels enough deepest => ?_, ?_⟩
  · rw [iterate_level_eq_renderId scene enough]
    rfl
  have follows := renderIds_tracks isTotal isKeyed roots {} (List.Subset.refl _)
  rw [named] at follows
  rw [← forall_not_offends_iff]
  generalize renderIds scene roots {} = outcome at follows
  rcases outcome with ⟨fault | markup, last⟩
  · have first := Stops.firstOffends follows
    obtain ⟨n, offends, -⟩ := id first
    refine ⟨⟨fun ⟨markup, isMarkup⟩ => ?_, fun clean => absurd offends (clean n fault)⟩,
      fun other => ⟨fun same => ?_, fun second => ?_⟩⟩
    · cases isMarkup
    · cases same
      exact first
    · rw [first.unique second]
  · have clean := Clears.not_offends follows
    refine ⟨⟨fun _ => clean, fun _ => ⟨markup, rfl⟩⟩,
      fun other => ⟨fun failed => ?_, fun first => ?_⟩⟩
    · cases failed
    · obtain ⟨n, offends, -⟩ := first
      exact absurd offends (clean n other)

/-- A registry of boxes, which hold what their zones hold. -/
def boxes : Registry :=
  [("box", { name := "box"
             render := fun _ _ children _ => .ok (.element "div" [] [.ready children.joined]) })]

def box (id : String) (zones : Ordered (List String)) : Component :=
  { id, type := "box", props := .null, zones }

theorem isTotal_boxes : boxes.IsTotal := by
  intro type renderer registered heap entries children context
  simp only [boxes, Registry.get?, Ordered.get?] at registered
  split at registered
  · cases registered
    exact ⟨_, rfl⟩
  · cases registered

/-- Two boxes that hold each other, beside an id that names nothing. -/
theorem renderIds_follows_walk_circle :
    boxes.IsTotal ∧ ∃ scene, Scene.ofEntries {}
        ([box "a" [("main", ["none", "b"])], box "b" [("main", ["a"])]].map .component) boxes {} =
          .ok scene ∧
      (renderIds scene ["a"] {}).1 = .error (.cyclicContainment "a") ∧
      FirstOffends
        (Component.lastNamed [box "a" [("main", ["none", "b"])], box "b" [("main", ["a"])]]) boxes
        ["a"] (.cyclicContainment "a") := by
  obtain ⟨scene, isScene, -, -, fails⟩ := renderIds_follows_walk {}
    [box "a" [("main", ["none", "b"])], box "b" [("main", ["a"])]] isTotal_boxes {} ["a"]
  cases isScene
  exact ⟨isTotal_boxes, _, rfl, rfl, (fails _).mp rfl⟩

end Rendering

end StaticSite
