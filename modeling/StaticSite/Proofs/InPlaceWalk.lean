import StaticSite.Proofs.Cloning
import StaticSite.Proofs.StringScan

/-!
# Relinking in place, step by step

Relinking first finds all containers and then replaces their strings. The same can be done in one
walk that changes the containers while it goes through them: it comes to a container, remembers
that it has entered it, and writes every member back once that has been rewritten. The entries of a
dict are those that it had when it was entered; the items of a list are read as the walk comes to
them. Tuples are built anew and are not remembered. The walk has no bound on its steps.

The walk is not misled by its own changes: what it has changed it does not enter again, and what it
has not entered is as it was. So every call returns with the value rewritten, the walk ends, and the
containers are then those that come of finding all containers first.
-/

namespace StaticSite

/-- The container with another value at a position; an entry keeps its key. -/
def Container.write (position : Nat) (value : Value) : Container → Container
  | .dict entries => .dict (entries.modify position fun entry => (entry.1, value))
  | .list items => .list (items.set position value)

theorem Container.write_dict (done rest : Entries) (key value new : Value) :
    (Container.dict (done ++ (key, value) :: rest)).write done.length new =
      .dict (done ++ (key, new) :: rest) := by
  simp [Container.write, List.modify_eq_take_cons_drop]

theorem Container.write_list (done rest : List Value) (value new : Value) :
    (Container.list (done ++ value :: rest)).write done.length new =
      .list (done ++ new :: rest) := by
  simp [Container.write]

namespace Relink

open StateTransition (Reaches)

/-! ## Steps -/

/-- The containers as they are by now, and the places of those entered so far, latest first. -/
structure Memory where
  heap : Heap
  entered : List Nat

namespace Memory

def enter (memory : Memory) (id : Nat) : Memory :=
  { memory with entered := id :: memory.entered }

def write (memory : Memory) (id position : Nat) (value : Value) : Memory :=
  match memory.heap.container? id with
  | none => memory
  | some container => { memory with heap := memory.heap.set id (container.write position value) }

@[simp] theorem entered_write (memory : Memory) (id position : Nat) (value : Value) :
    (memory.write id position value).entered = memory.entered := by
  unfold write
  split <;> rfl

theorem container?_write (memory : Memory) (id position : Nat) (value : Value) :
    (memory.write id position value).heap.container? id =
      (memory.heap.container? id).map (Container.write position value) := by
  unfold write
  split
  next absent => rw [absent, Option.map_none]
  next container found =>
    rw [Heap.container?_set, if_pos rfl, found, Option.map_some, Option.map_some]

/-- Nothing is written but at the place that is meant. -/
theorem container?_write_of_ne (memory : Memory) {id other : Nat} (different : other ≠ id)
    (position : Nat) (value : Value) :
    (memory.write id position value).heap.container? other = memory.heap.container? other := by
  unfold write
  split
  · rfl
  · rw [Heap.container?_set, if_neg (Ne.symm different)]

end Memory

/-- What is left to do with a container or tuple when one of its members has been rewritten. -/
inductive Frame where
  /-- A dict: the position of the entry, and the entries behind it as the walk has found them. -/
  | entry (id : Nat) (context : Context) (position : Nat) (rest : Entries)
  /-- A list: the position of the item; those behind it are read when their turn comes. -/
  | item (id : Nat) (context : Context) (position : Nat)
  /-- A tuple: its new items so far and the old ones behind. -/
  | part (label : Nat) (context : Context) (done rest : List Value)

/-- What a walk does next. -/
inductive Turn where
  /-- It goes on with the next component. -/
  | idle
  /-- It rewrites a value. -/
  | call (context : Context) (value : Value)
  /-- It hands a rewritten value to what waits for it. -/
  | give (value : Value)
  | failed (fault : Fault)

/-- Where a walk stands: the innermost of its frames first, and the components ahead. -/
structure State where
  memory : Memory
  frames : List Frame
  turn : Turn
  ahead : List Entry

namespace State

def give (state : State) (value : Value) : State := { state with turn := .give value }

def call (state : State) (context : Context) (value : Value) : State :=
  { state with turn := .call context value }

/-- Rewrites a value, for which a new frame waits. -/
def within (state : State) (frame : Frame) (context : Context) (value : Value) : State :=
  { state with frames := frame :: state.frames }.call context value

def write (state : State) (id position : Nat) (value : Value) : State :=
  { state with memory := state.memory.write id position value }

/-- Goes on in a dict, with the entries from a position on. -/
def entriesFrom (state : State) (id : Nat) (context : Context) (position : Nat) : Entries → State
  | [] => state.give (.ref id)
  | (key, value) :: rest =>
    state.within (.entry id context position rest) (context.inner key) value

/-- Goes on in a list, with the item that now stands at a position. -/
def itemsFrom (state : State) (id : Nat) (context : Context) (position : Nat) : State :=
  match ((state.memory.heap.list? (.ref id)).getD [])[position]? with
  | none => state.give (.ref id)
  | some value => state.within (.item id context position) context value

theorem itemsFrom_end {state : State} {id : Nat} {items : List Value}
    (stands : state.memory.heap.container? id = some (.list items)) (context : Context) :
    state.itemsFrom id context items.length = state.give (.ref id) := by
  simp [itemsFrom, Heap.list?, stands]

theorem itemsFrom_cons {state : State} {id : Nat} {done rest : List Value} {value : Value}
    (stands : state.memory.heap.container? id = some (.list (done ++ value :: rest)))
    (context : Context) :
    state.itemsFrom id context done.length =
      state.within (.item id context done.length) context value := by
  simp [itemsFrom, Heap.list?, stands]

/-- Goes on in a tuple. -/
def partsFrom (state : State) (label : Nat) (context : Context) (done : List Value) :
    List Value → State
  | [] => state.give (.tuple label done)
  | value :: rest => state.within (.part label context done rest) context value

/-- Enters a container unless that has been done. -/
def enter (state : State) (context : Context) (id : Nat) : State :=
  if id ∈ state.memory.entered then state.give (.ref id)
  else
    let inside := { state with memory := state.memory.enter id }
    match state.memory.heap.container? id with
    | none => state.give (.ref id)
    | some (.dict entries) => inside.entriesFrom id context 0 entries
    | some (.list _) => inside.itemsFrom id context 0

section

variable {state : State} {id : Nat} (context : Context)

theorem enter_of_entered (entered : id ∈ state.memory.entered) :
    state.enter context id = state.give (.ref id) := by
  rw [enter, if_pos entered]

theorem enter_of_absent (absent : state.memory.heap.container? id = none) :
    state.enter context id = state.give (.ref id) := by
  simp [enter, absent]

theorem enter_dict {entries : Entries} (new : id ∉ state.memory.entered)
    (found : state.memory.heap.container? id = some (.dict entries)) :
    state.enter context id =
      { state with memory := state.memory.enter id }.entriesFrom id context 0 entries := by
  simp [enter, new, found]

theorem enter_list {items : List Value} (new : id ∉ state.memory.entered)
    (found : state.memory.heap.container? id = some (.list items)) :
    state.enter context id =
      { state with memory := state.memory.enter id }.itemsFrom id context 0 := by
  simp [enter, new, found]

end

def rewrite (map : UrlMap) (state : State) (context : Context) : Value → State
  | .str s => state.give (.str (replaceString map context s))
  | .tuple label items => state.partsFrom label context [] items
  | .ref id => state.enter context id
  | value => state.give value

/-- Stores a rewritten value where it belongs and goes on behind it. -/
def resume (state : State) (value : Value) : Frame → State
  | .entry id context position rest =>
    (state.write id position value).entriesFrom id context (position + 1) rest
  | .item id context position =>
    (state.write id position value).itemsFrom id context (position + 1)
  | .part label context done rest => state.partsFrom label context (done ++ [value]) rest

/-- Begins with the props of a component, if they are a dict. -/
def component (catalog : Option Catalog) (state : State) (type : String) (props : Value) : State :=
  match state.memory.heap.dict? props with
  | none => state
  | some _ => state.call ⟨none, Catalog.urlFields? catalog type⟩ props

def entry (catalog : Option Catalog) (state : State) : Entry → State
  | .component c => state.component catalog c.type c.props
  | .nameless type props _ => state.component catalog type props
  | .stray value =>
    { state with turn := .failed (.missingOperation (state.memory.heap.kind value)
        (if catalog.isSome then "type" else "props")) }

/-- One step; a walk ends with the last component, or with a fault. -/
def next (map : UrlMap) (catalog : Option Catalog) (state : State) : Option State :=
  match state.turn with
  | .failed _ => none
  | .call context value => some (state.rewrite map context value)
  | .give value =>
    match state.frames with
    | [] => some { state with turn := .idle }
    | frame :: frames => some ({ state with frames }.resume value frame)
  | .idle =>
    match state.ahead with
    | [] => none
    | entry :: ahead => some ({ state with ahead }.entry catalog entry)

/-- The beginning of a walk through the copies of all components. -/
def start (heap : Heap) (assets : List Asset) (entries : List Entry) : State where
  memory := ⟨heap.withCopy, []⟩
  frames := []
  turn := .idle
  ahead := if (urlMap assets).isEmpty then [] else entries.map (shiftEntry heap.objects.size)

/-- What a walk that has ended comes to: the containers as they are then, or its fault. -/
def outcome (state : State) : Except Fault Heap :=
  match state.turn with
  | .failed fault => .error fault
  | _ => .ok state.memory.heap

/-! ## What a step enters -/

variable (state : State)

@[simp] theorem memory_entriesFrom (id : Nat) (context : Context) (position : Nat)
    (entries : Entries) :
    (state.entriesFrom id context position entries).memory = state.memory := by
  cases entries <;> rfl

@[simp] theorem memory_itemsFrom (id : Nat) (context : Context) (position : Nat) :
    (state.itemsFrom id context position).memory = state.memory := by
  unfold itemsFrom
  split <;> rfl

@[simp] theorem memory_partsFrom (label : Nat) (context : Context) (done items : List Value) :
    (state.partsFrom label context done items).memory = state.memory := by
  cases items <;> rfl

@[simp] theorem memory_component (catalog : Option Catalog) (type : String) (props : Value) :
    (state.component catalog type props).memory = state.memory := by
  unfold component
  split <;> rfl

@[simp] theorem memory_entry (catalog : Option Catalog) (entry : Entry) :
    (state.entry catalog entry).memory = state.memory := by
  cases entry with
  | component c => exact memory_component state catalog c.type c.props
  | nameless type props zones => exact memory_component state catalog type props
  | stray value => rfl

theorem enteredOnce_enter (context : Context) (id : Nat) :
    EnteredOnce state.memory.entered (state.enter context id).memory.entered := by
  unfold enter
  split
  · exact .refl _
  next new =>
    dsimp only
    split
    · exact .refl _
    · rw [memory_entriesFrom]
      exact .cons new
    · rw [memory_itemsFrom]
      exact .cons new

theorem enteredOnce_rewrite (map : UrlMap) (context : Context) (value : Value) :
    EnteredOnce state.memory.entered (state.rewrite map context value).memory.entered := by
  cases value with
  | ref id => exact enteredOnce_enter state context id
  | tuple label items =>
    rw [rewrite, memory_partsFrom]
    exact .refl _
  | _ => exact .refl _

/-- What is written back changes containers and enters none. -/
theorem entered_resume (value : Value) (frame : Frame) :
    (state.resume value frame).memory.entered = state.memory.entered := by
  cases frame with
  | entry id context position rest => simp [resume, write]
  | item id context position => simp [resume, write]
  | part label context done rest => simp [resume]

variable {state}

theorem enteredOnce_next {map : UrlMap} {catalog : Option Catalog} {after : State}
    (step : after ∈ state.next map catalog) :
    EnteredOnce state.memory.entered after.memory.entered := by
  unfold next at step
  split at step
  · cases step
  next context value _ =>
    cases step
    exact enteredOnce_rewrite state map context value
  · split at step
    · cases step
      exact .refl _
    · cases step
      rw [entered_resume]
      exact .refl _
  · split at step
    · cases step
    · cases step
      rw [memory_entry]
      exact .refl _

/-- Relinking in place enters every container at most once, for whatever component that is. -/
theorem enteredOnce_of_reaches {map : UrlMap} {catalog : Option Catalog} {last : State}
    (reaches : Reaches (next map catalog) state last) :
    EnteredOnce state.memory.entered last.memory.entered :=
  .of_reaches (·.memory.entered) (fun _ _ step => enteredOnce_next step) reaches

end State

/-! ## What a walk has changed -/

/-- A memory in step with visits: the same is entered, and what is not entered is as it was. -/
structure Tracks (heap : Heap) (visits : Visits) (memory : Memory) : Prop where
  entered : heap.Agree memory.entered (visits.map (·.1))
  untouched : ∀ id, id ∉ memory.entered → memory.heap.container? id = heap.container? id

/--
What a walk does to a memory while the visits go on: of what was entered before only the containers
in `busy` change, and what has been entered since is rewritten in the context of its visit.
-/
structure Follows (map : UrlMap) (heap : Heap) (busy : List Nat) (visits later : Visits)
    (first second : Memory) : Prop where
  tracks : Tracks heap later second
  visited : visits ⊆ later
  entered : first.entered ⊆ second.entered
  kept : ∀ id ∉ busy, id ∈ first.entered ∨ id ∉ second.entered →
    second.heap.container? id = first.heap.container? id
  rewritten : ∀ id ∉ busy, id ∉ first.entered → id ∈ second.entered → ∃ context,
    (id, context) ∈ later ∧
      second.heap.container? id = (first.heap.container? id).map (replaceContainer map context)

section

variable {map : UrlMap} {heap : Heap} {busy : List Nat} {visits later final : Visits}
  {first second third : Memory}

theorem Follows.stay (tracks : Tracks heap later first) (visited : visits ⊆ later) :
    Follows map heap busy visits later first first :=
  ⟨tracks, visited, List.Subset.refl _, fun _ _ _ => rfl,
    fun _ _ absent member => absurd member absent⟩

theorem Follows.refl (tracks : Tracks heap visits first) :
    Follows map heap busy visits visits first first :=
  .stay tracks (List.Subset.refl _)

theorem Follows.trans (early : Follows map heap busy visits later first second)
    (late : Follows map heap busy later final second third) :
    Follows map heap busy visits final first third := by
  refine ⟨late.tracks, List.Subset.trans early.visited late.visited,
    List.Subset.trans early.entered late.entered, fun id idle same => ?_,
    fun id idle absent member => ?_⟩
  · rcases same with before | never
    · exact (late.kept id idle (.inl (early.entered before))).trans
        (early.kept id idle (.inl before))
    · exact (late.kept id idle (.inr never)).trans
        (early.kept id idle (.inr fun between => never (late.entered between)))
  · by_cases between : id ∈ second.entered
    · obtain ⟨context, visit, changed⟩ := early.rewritten id idle absent between
      exact ⟨context, late.visited visit, (late.kept id idle (.inl between)).trans changed⟩
    · obtain ⟨context, visit, changed⟩ := late.rewritten id idle between member
      exact ⟨context, visit, changed.trans (congrArg _ (early.kept id idle (.inr between)))⟩

/-- What changes nothing that was entered before may as well change a container in hand. -/
theorem Follows.hold (follows : Follows map heap [] visits later first second) (id : Nat) :
    Follows map heap [id] visits later first second :=
  ⟨follows.tracks, follows.visited, follows.entered,
    fun other _ => follows.kept other List.not_mem_nil,
    fun other _ => follows.rewritten other List.not_mem_nil⟩

theorem Follows.write (tracks : Tracks heap visits first) {id : Nat} (member : id ∈ first.entered)
    (position : Nat) (value : Value) :
    Follows map heap [id] visits visits first (first.write id position value) := by
  refine ⟨⟨?_, fun other absent => ?_⟩, List.Subset.refl _, ?_, fun other idle _ => ?_,
    fun other _ absent member => ?_⟩
  · rw [Memory.entered_write]
    exact tracks.entered
  · rw [Memory.entered_write] at absent
    have different : other ≠ id := fun same => absent (same ▸ member)
    rw [Memory.container?_write_of_ne first different]
    exact tracks.untouched other absent
  · rw [Memory.entered_write]
    exact List.Subset.refl _
  · exact Memory.container?_write_of_ne first (List.ne_of_not_mem_cons idle) position value
  · rw [Memory.entered_write] at member
    exact absurd member absent

theorem Tracks.enter (tracks : Tracks heap visits first) (id : Nat) (context : Context) :
    Tracks heap ((id, context) :: visits) (first.enter id) :=
  ⟨tracks.entered.cons id, fun other absent =>
    tracks.untouched other fun member => absent (List.mem_cons_of_mem _ member)⟩

/-- A container that has been entered is rewritten once the walk has come through it. -/
theorem Follows.leave {id : Nat} {context : Context} (new : id ∉ first.entered)
    (inside : Follows map heap [id] ((id, context) :: visits) later (first.enter id) second)
    (done : second.heap.container? id =
      (first.heap.container? id).map (replaceContainer map context)) :
    Follows map heap [] visits later first second := by
  refine ⟨inside.tracks, List.Subset.trans (List.subset_cons_self ..) inside.visited,
    List.Subset.trans (List.subset_cons_self ..) inside.entered, fun other _ same => ?_,
    fun other _ absent member => ?_⟩
  · have different : other ≠ id := by
      rintro rfl
      rcases same with before | never
      · exact new before
      · exact never (inside.entered (List.mem_cons_self ..))
    exact inside.kept other (by simpa using different) (same.imp_left (List.mem_cons_of_mem _))
  · by_cases same : other = id
    · subst same
      exact ⟨context, inside.visited (List.mem_cons_self ..), done⟩
    · have absent' : other ∉ (first.enter id).entered :=
        List.not_mem_cons_of_ne_of_not_mem same absent
      exact inside.rewritten other (by simpa using same) absent' member

end

/-! ## Calls return -/

/--
Whatever waits for it and whatever comes later, the walk comes to give the answer, and by then it
has done to its memory what the visits say.
-/
def Returns (map : UrlMap) (catalog : Option Catalog) (heap : Heap) (visits later : Visits)
    (memory : Memory) (begun : State → State) (answer : Value) : Prop :=
  ∃ after, Follows map heap [] visits later memory after ∧
    ∀ frames ahead, Reaches (State.next map catalog) (begun ⟨memory, frames, .idle, ahead⟩)
      ⟨after, frames, .give answer, ahead⟩

/-- With so many containers left, calls return that visit what `enter` visits at a container. -/
def Enter.IsFollowed (map : UrlMap) (catalog : Option Catalog) (heap : Heap) (levels : Nat)
    (enter : Enter) : Prop :=
  ∀ context id visits (memory : Memory), Tracks heap visits memory →
    (heap.unentered memory.entered).card ≤ levels →
      Returns map catalog heap visits (enter context id visits) memory
        (·.call context (.ref id)) (.ref id)

section

variable {map : UrlMap} {catalog : Option Catalog} {heap : Heap} {visits later : Visits}
  {memory : Memory} {enter : Enter} {levels : Nat}

/-- A call that answers at once returns. -/
theorem Returns.now {context : Context} {value answer : Value} (tracks : Tracks heap later memory)
    (visited : visits ⊆ later)
    (step : ∀ frames ahead, State.rewrite map ⟨memory, frames, .call context value, ahead⟩ context
      value = ⟨memory, frames, .give answer, ahead⟩) :
    Returns map catalog heap visits later memory (·.call context value) answer :=
  ⟨memory, .stay tracks visited, fun frames ahead => .single (congrArg some (step frames ahead))⟩

/-- There is nothing to rewrite at a place at which no container stands. -/
theorem Returns.absent {id : Nat} (tracks : Tracks heap later memory)
    (absent : heap.container? id = none) (visited : visits ⊆ later) (context : Context) :
    Returns map catalog heap visits later memory (·.call context (.ref id)) (.ref id) := by
  refine .now tracks visited fun frames ahead => ?_
  by_cases entered : id ∈ memory.entered
  · exact State.enter_of_entered context entered
  · exact State.enter_of_absent context ((tracks.untouched id entered).trans absent)

/-- A value that has been rewritten is stored in the container that it comes from. -/
theorem Returns.stored {context : Context} {value new : Value}
    (returns : Returns map catalog heap visits later memory (·.call context value) new)
    {id : Nat} {container : Container} (entered : id ∈ memory.entered)
    (stands : memory.heap.container? id = some container) (position : Nat) :
    ∃ between : Memory, Follows map heap [id] visits later memory (between.write id position new) ∧
      (between.write id position new).heap.container? id =
        some (container.write position new) ∧
      ∀ frame frames ahead, Reaches (State.next map catalog)
        (State.within ⟨memory, frames, .idle, ahead⟩ frame context value)
        (State.resume ⟨between, frames, .give new, ahead⟩ new frame) := by
  obtain ⟨between, follows, reaches⟩ := returns
  have write : Follows map heap [id] later later between (between.write id position new) :=
    .write follows.tracks (follows.entered entered) position new
  refine ⟨between, (follows.hold id).trans write, ?_, fun frame frames ahead => ?_⟩
  · rw [Memory.container?_write, follows.kept id List.not_mem_nil (.inl entered), stands,
      Option.map_some]
  · exact (reaches (frame :: frames) ahead).trans (.single rfl)

mutual

/-- The induction is on the value: what a container holds is the concern of `enter`. -/
theorem returns_visit (followed : enter.IsFollowed map catalog heap levels) (context : Context) :
    (value : Value) → ∀ visits (memory : Memory), Tracks heap visits memory →
      (heap.unentered memory.entered).card ≤ levels →
        Returns map catalog heap visits (visit enter context value visits) memory
          (·.call context value) (replace map context value)
  | .tuple label items, visits, memory, tracks, room => by
    obtain ⟨after, follows, parts⟩ :=
      returns_visitAll followed context label items [] visits memory tracks room
    exact ⟨after, follows, fun frames ahead => .head rfl (parts frames ahead)⟩
  | .ref id, visits, memory, tracks, room => followed context id visits memory tracks room
  | .str _, _, _, tracks, _ => .now tracks (List.Subset.refl _) fun _ _ => rfl
  | .null, _, _, tracks, _ => .now tracks (List.Subset.refl _) fun _ _ => rfl
  | .bool _, _, _, tracks, _ => .now tracks (List.Subset.refl _) fun _ _ => rfl
  | .int _, _, _, tracks, _ => .now tracks (List.Subset.refl _) fun _ _ => rfl
  | .float _, _, _, tracks, _ => .now tracks (List.Subset.refl _) fun _ _ => rfl
  | .date _, _, _, tracks, _ => .now tracks (List.Subset.refl _) fun _ _ => rfl
  | .datetime _, _, _, tracks, _ => .now tracks (List.Subset.refl _) fun _ _ => rfl
  | .time _, _, _, tracks, _ => .now tracks (List.Subset.refl _) fun _ _ => rfl
  | .unknown, _, _, tracks, _ => .now tracks (List.Subset.refl _) fun _ _ => rfl

theorem returns_visitAll (followed : enter.IsFollowed map catalog heap levels)
    (context : Context) (label : Nat) : (items done : List Value) → ∀ visits (memory : Memory),
      Tracks heap visits memory → (heap.unentered memory.entered).card ≤ levels →
        Returns map catalog heap visits (visitAll enter context items visits) memory
          (·.partsFrom label context done items)
          (.tuple label (done ++ replaceAll map context items))
  | [], done, visits, memory, tracks, _ => by
    rw [replaceAll, List.append_nil]
    exact ⟨memory, .refl tracks, fun _ _ => .refl⟩
  | item :: items, done, visits, memory, tracks, room => by
    obtain ⟨between, early, here⟩ := returns_visit followed context item visits memory tracks room
    obtain ⟨after, late, behind⟩ := returns_visitAll followed context label items
      (done ++ [replace map context item]) _ between early.tracks
      ((Heap.card_unentered_le early.entered).trans room)
    refine ⟨after, early.trans late, fun frames ahead => ?_⟩
    rw [replaceAll, List.append_cons]
    exact (here _ ahead).trans (.head rfl (behind frames ahead))

end

/-- The entries of a dict that has been entered are rewritten one after the other. -/
theorem returns_visitEntries (followed : enter.IsFollowed map catalog heap levels)
    (context : Context) {id : Nat} (rest done : Entries) {visits : Visits} {memory : Memory}
    (tracks : Tracks heap visits memory)
    (room : (heap.unentered memory.entered).card ≤ levels) (entered : id ∈ memory.entered)
    (stands : memory.heap.container? id = some (.dict (done ++ rest))) :
    ∃ after, Follows map heap [id] visits (visitEntries enter context rest visits) memory after ∧
      after.heap.container? id = some (.dict (done ++
        rest.map fun (key, value) => (key, replace map (context.inner key) value))) ∧
      ∀ frames ahead, Reaches (State.next map catalog)
        (State.entriesFrom ⟨memory, frames, .idle, ahead⟩ id context done.length rest)
        ⟨after, frames, .give (.ref id), ahead⟩ := by
  induction rest generalizing done visits memory with
  | nil => exact ⟨memory, .refl tracks, stands, fun _ _ => .refl⟩
  | cons entry rest ih =>
    obtain ⟨key, value⟩ := entry
    obtain ⟨between, early, written, here⟩ :=
      (returns_visit followed (context.inner key) value visits memory tracks room).stored entered
        stands done.length
    rw [Container.write_dict, List.append_cons] at written
    obtain ⟨after, late, last, behind⟩ := ih _ early.tracks
      ((Heap.card_unentered_le early.entered).trans room) (early.entered entered) written
    refine ⟨after, early.trans late, by simpa using last, fun frames ahead => ?_⟩
    have onward := behind frames ahead
    rw [List.length_append] at onward
    exact (here _ frames ahead).trans onward

/--
The items of a list that has been entered are rewritten one after the other, each as it stands when
its turn comes.
-/
theorem returns_visitItems (followed : enter.IsFollowed map catalog heap levels)
    (context : Context) {id : Nat} (rest done : List Value) {visits : Visits} {memory : Memory}
    (tracks : Tracks heap visits memory)
    (room : (heap.unentered memory.entered).card ≤ levels) (entered : id ∈ memory.entered)
    (stands : memory.heap.container? id = some (.list (done ++ rest))) :
    ∃ after, Follows map heap [id] visits (visitAll enter context rest visits) memory after ∧
      after.heap.container? id = some (.list (done ++ rest.map (replace map context))) ∧
      ∀ frames ahead, Reaches (State.next map catalog)
        (State.itemsFrom ⟨memory, frames, .idle, ahead⟩ id context done.length)
        ⟨after, frames, .give (.ref id), ahead⟩ := by
  induction rest generalizing done visits memory with
  | nil =>
    refine ⟨memory, .refl tracks, stands, fun frames ahead => ?_⟩
    rw [List.append_nil] at stands
    rw [State.itemsFrom_end stands]
    exact .refl
  | cons value rest ih =>
    obtain ⟨between, early, written, here⟩ :=
      (returns_visit followed context value visits memory tracks room).stored entered stands
        done.length
    rw [Container.write_list, List.append_cons] at written
    obtain ⟨after, late, last, behind⟩ := ih _ early.tracks
      ((Heap.card_unentered_le early.entered).trans room) (early.entered entered) written
    refine ⟨after, early.trans late, by simpa using last, fun frames ahead => ?_⟩
    have onward := behind frames ahead
    rw [List.length_append] at onward
    rw [State.itemsFrom_cons stands]
    exact (here _ frames ahead).trans onward

/-- A container that has not been entered is rewritten with all that it leads to. -/
theorem returns_visitMembers (followed : enter.IsFollowed map catalog heap levels)
    (context : Context) {id : Nat} {container : Container} (tracks : Tracks heap visits memory)
    (room : (heap.unentered memory.entered).card ≤ levels + 1) (new : id ∉ memory.entered)
    (found : heap.container? id = some container) :
    Returns map catalog heap visits
      (visitMembers enter context container.members ((id, context) :: visits)) memory
      (·.call context (.ref id)) (.ref id) := by
  have stands : memory.heap.container? id = some container :=
    (tracks.untouched id new).trans found
  have left : (heap.unentered (memory.enter id).entered).card ≤ levels :=
    Nat.le_of_lt_succ ((Heap.card_unentered_cons_lt found new).trans_le room)
  have inside : id ∈ (memory.enter id).entered := List.mem_cons_self ..
  cases container with
  | dict entries =>
    obtain ⟨after, follows, last, reaches⟩ :=
      returns_visitEntries followed context entries [] (tracks.enter id context) left inside stands
    rw [Container.members, ← visitEntries_eq]
    refine ⟨after, follows.leave new (by rw [last, stands]; rfl), fun frames ahead => ?_⟩
    exact .head (congrArg some (State.enter_dict context new stands)) (reaches frames ahead)
  | list items =>
    obtain ⟨after, follows, last, reaches⟩ :=
      returns_visitItems followed context items [] (tracks.enter id context) left inside stands
    rw [Container.members, ← visitAll_eq]
    refine ⟨after, follows.leave new (by rw [last, stands]; rfl), fun frames ahead => ?_⟩
    exact .head (congrArg some (State.enter_list context new stands)) (reaches frames ahead)

/-- The induction is on the levels, of which a walk has one for each container that is left. -/
theorem isFollowed_enterContainer (map : UrlMap) (catalog : Option Catalog) (heap : Heap)
    (levels : Nat) : (enterContainer heap levels).IsFollowed map catalog heap levels := by
  induction levels with
  | zero =>
    intro context id visits memory tracks room
    cases found : heap.container? id with
    | none => exact .absent tracks found (List.Subset.refl _) context
    | some container =>
      have entered := Heap.mem_of_card_unentered_eq_zero found (Nat.le_zero.mp room)
      exact .now tracks (List.Subset.refl _) fun _ _ => State.enter_of_entered context entered
  | succ levels ih =>
    intro context id visits memory tracks room
    rw [enterContainer]
    cases found : heap.container? id with
    | none =>
      -- Visits may count a place at which nothing stands; a walk in place does not.
      split
      · exact .absent tracks found (List.Subset.refl _) context
      · have later : Tracks heap ((id, context) :: visits) memory :=
          ⟨tracks.entered.cons_right found, tracks.untouched⟩
        exact .absent later found (List.subset_cons_self ..) context
    | some container =>
      have same := tracks.entered id container found
      split
      next visited =>
        have entered := same.mpr visited
        exact .now tracks (List.Subset.refl _) fun _ _ => State.enter_of_entered context entered
      next unvisited =>
        have new : id ∉ memory.entered := fun entered => unvisited (same.mp entered)
        have through := returns_visitMembers ih context tracks room new found
        cases container with
        | dict entries => rwa [Container.members, ← visitEntries_eq] at through
        | list items => rwa [Container.members, ← visitAll_eq] at through

/-- Every call returns, in whatever memory, with the value as it is rewritten. -/
theorem exists_reaches_give (map : UrlMap) (catalog : Option Catalog) (context : Context)
    (value : Value) (memory : Memory) (frames : List Frame) (ahead : List Entry) :
    ∃ after : Memory,
      Reaches (State.next map catalog) ⟨memory, frames, .call context value, ahead⟩
        ⟨after, frames, .give (replace map context value), ahead⟩ ∧
      EnteredOnce memory.entered after.entered := by
  have tracks : Tracks memory.heap (memory.entered.map fun id => (id, context)) memory := by
    refine ⟨?_, fun _ _ => rfl⟩
    simpa [Function.comp_def] using Heap.Agree.refl memory.heap memory.entered
  obtain ⟨after, -, reaches⟩ := returns_visit
    (isFollowed_enterContainer map catalog memory.heap memory.heap.objects.size) context value _
    memory tracks (memory.heap.card_unentered_le_size memory.entered)
  exact ⟨after, reaches frames ahead, State.enteredOnce_of_reaches (reaches frames ahead)⟩

end

end Relink

end StaticSite
