import StaticSite.Proofs.InPlaceWalk
import StaticSite.Proofs.StringScan

/-!
# Walks end

Neither the walk for strings nor the walk that relinks has a bound on its steps. Both end, whatever
containers are shared and whatever circles they form, because they enter a container once.
-/

namespace StaticSite

open StateTransition (Reaches eval)

namespace Heap

theorem kind_ref (heap : Heap) (id : Nat) :
    heap.kind (.ref id) =
      if (heap.container? id).map Container.shape = some .list then .list else .dict := by
  rw [kind]
  rcases heap.container? id with _ | _ | _ <;> rfl

theorem isSome_dict?_ref (heap : Heap) (id : Nat) :
    (heap.dict? (.ref id)).isSome =
      decide ((heap.container? id).map Container.shape = some .dict) := by
  rw [dict?]
  rcases heap.container? id with _ | _ | _ <;> rfl

section

variable {heap other : Heap} (same : ∀ id, (other.container? id).map Container.shape =
  (heap.container? id).map Container.shape)

include same

theorem kind_congr (value : Value) : other.kind value = heap.kind value := by
  cases value with
  | ref id => rw [kind_ref, kind_ref, same]
  | _ => rfl

theorem isSome_dict?_congr (value : Value) :
    (other.dict? value).isSome = (heap.dict? value).isSome := by
  cases value with
  | ref id => simp only [isSome_dict?_ref, same]
  | _ => rfl

end

end Heap

namespace Relink

section

variable {map : UrlMap} {catalog : Option Catalog} {heap : Heap} {visits : Visits}
  {memory : Memory}

theorem Follows.shape_eq (follows : Follows map heap [] [] visits ⟨heap, []⟩ memory) (id : Nat) :
    (memory.heap.container? id).map Container.shape =
      (heap.container? id).map Container.shape := by
  by_cases entered : id ∈ memory.entered
  · obtain ⟨context, -, rewritten⟩ :=
      follows.rewritten id List.not_mem_nil List.not_mem_nil entered
    rw [rewritten, Option.map_map]
    exact congrArg (Option.map · (heap.container? id))
      (funext fun container => shape_replaceContainer context container)
  · rw [follows.kept id List.not_mem_nil (.inr entered)]

/-- When all components have been walked through, every container is as its visit leaves it. -/
theorem Follows.heap_eq (follows : Follows map heap [] [] visits ⟨heap, []⟩ memory)
    (nodup : (visits.map (·.1)).Nodup) : memory.heap = replaceVisited map heap visits := by
  refine Heap.ext_container? fun id => ?_
  by_cases entered : id ∈ memory.entered
  · obtain ⟨context, visit, rewritten⟩ :=
      follows.rewritten id List.not_mem_nil List.not_mem_nil entered
    rw [rewritten, container?_replaceVisited nodup visit]
  · rw [follows.kept id List.not_mem_nil (.inr entered)]
    by_cases visited : id ∈ visits.map (·.1)
    · have absent : heap.container? id = none := Option.eq_none_iff_forall_ne_some.mpr
        fun container found => entered ((follows.tracks.entered id container found).mpr visited)
      rw [container?_replaceVisited nodup (contextOf_mem visited), absent, Option.map_none]
    · rw [container?_replaceVisited_of_notMem visited]

theorem nodup_visitComponent (nodup : (visits.map (·.1)).Nodup) (catalog : Option Catalog)
    (type : String) (props : Value) :
    ((visitComponent heap catalog type props visits).map (·.1)).Nodup := by
  unfold visitComponent
  split
  · exact nodup
  · have once : Behind 0 visits := ⟨nodup, fun _ _ => Nat.zero_le _⟩
    exact (visit_keeps (P := Behind 0) _ props (fun id _ context visits behind =>
      behind.enterContainer (fun _ _ _ _ => Nat.zero_le _) _ context (Nat.zero_le id)) visits
        once).nodup

theorem exists_reaches_idle (follows : Follows map heap [] [] visits ⟨heap, []⟩ memory)
    (type : String) (props : Value) (ahead : List Entry) :
    ∃ after, Follows map heap [] [] (visitComponent heap catalog type props visits) ⟨heap, []⟩
        after ∧
      Reaches (State.next map catalog)
        (State.component catalog ⟨memory, [], .idle, ahead⟩ type props)
        ⟨after, [], .idle, ahead⟩ := by
  have same := Heap.isSome_dict?_congr follows.shape_eq props
  unfold visitComponent State.component
  cases found : heap.dict? props with
  | none =>
    rw [found, Option.isSome_none, Option.isSome_eq_false_iff, Option.isNone_iff_eq_none] at same
    dsimp only
    rw [same]
    exact ⟨memory, follows, .refl⟩
  | some entries =>
    rw [found, Option.isSome_some, Option.isSome_iff_exists] at same
    obtain ⟨others, same⟩ := same
    have followed := isFollowed_enterContainer map catalog heap heap.objects.size
    obtain ⟨after, onward, reaches⟩ :=
      returns_visit followed ⟨none, Catalog.urlFields? catalog type⟩ props visits memory
        follows.tracks (heap.card_unentered_le_size memory.entered)
    dsimp only
    rw [same]
    exact ⟨after, follows.trans onward, (reaches [] ahead).tail rfl⟩

/-- Component after component, the walk comes to where the visits come to, or to their fault. -/
theorem exists_reaches_end (map : UrlMap) (catalog : Option Catalog) (entries : List Entry)
    (follows : Follows map heap [] [] visits ⟨heap, []⟩ memory)
    (nodup : (visits.map (·.1)).Nodup) :
    ∃ last, Reaches (State.next map catalog) ⟨memory, [], .idle, entries⟩ last ∧
      last.next map catalog = none ∧
      last.outcome =
        (entries.foldlM (visitEntry heap catalog) visits).map (replaceVisited map heap) := by
  induction entries generalizing visits memory with
  | nil => exact ⟨_, .refl, rfl, congrArg Except.ok (follows.heap_eq nodup)⟩
  | cons entry entries ih =>
    have walked (type : String) (props : Value) : ∃ last,
        Reaches (State.next map catalog)
          (State.component catalog ⟨memory, [], .idle, entries⟩ type props) last ∧
        last.next map catalog = none ∧
        last.outcome = (entries.foldlM (visitEntry heap catalog)
          (visitComponent heap catalog type props visits)).map (replaceVisited map heap) := by
      obtain ⟨after, onward, reaches⟩ := exists_reaches_idle follows type props entries
      obtain ⟨last, later, ended, outcome⟩ :=
        ih onward (nodup_visitComponent nodup catalog type props)
      exact ⟨last, reaches.trans later, ended, outcome⟩
    cases entry with
    | component c =>
      obtain ⟨last, reaches, ended, outcome⟩ := walked c.type c.props
      exact ⟨last, .head rfl reaches, ended, outcome⟩
    | nameless type props zones =>
      obtain ⟨last, reaches, ended, outcome⟩ := walked type props
      exact ⟨last, .head rfl reaches, ended, outcome⟩
    | stray value =>
      have kind := Heap.kind_congr follows.shape_eq value
      have fault : visitEntry heap catalog visits (.stray value) = .error (.missingOperation
          (memory.heap.kind value) (if catalog.isSome then "type" else "props")) := by
        rw [kind]
        rfl
      refine ⟨_, .single rfl, rfl, ?_⟩
      rw [List.foldlM_cons, fault]
      rfl

/-- The walk through the components ends, and it comes to what relinking comes to. -/
theorem exists_eval_relink (heap : Heap) (catalog : Option Catalog) (assets : List Asset)
    (entries : List Entry) :
    ∃ last ∈ eval (State.next (urlMap assets) catalog)
        (State.start heap assets entries),
      relink heap catalog assets entries =
        last.outcome.map fun after => (after, entries.map (shiftEntry heap.objects.size)) := by
  have tracks : Tracks heap.withCopy [] ⟨heap.withCopy, []⟩ := ⟨.refl _ [], fun _ _ => rfl⟩
  obtain ⟨last, reaches, ended, outcome⟩ := exists_reaches_end (urlMap assets) catalog
    (if (urlMap assets).isEmpty then [] else entries.map (shiftEntry heap.objects.size))
    (.refl tracks) List.nodup_nil
  refine ⟨last, StateTransition.mem_eval.mpr ⟨reaches, ended⟩, ?_⟩
  rw [outcome, relink]
  split
  · rfl
  · cases (entries.map (shiftEntry heap.objects.size)).foldlM (visitEntry heap.withCopy catalog) []
      <;> rfl

end

end Relink

open Relink Value

/--
Walks over data end, whatever is shared and whatever circles there are; tuples are held in values,
so a circle passes through a container. A scan of a value, with whatever has been seen, ends with
the strings that the walk finds and has entered every container and every tuple at most once. A call
to rewrite a value in place, in whatever memory, returns with the value rewritten. And the walk that
relinks the components in place ends with what relinking gives, and has entered every container at
most once for all components together.
-/
theorem walks_end_entering_once (heap : Heap) (catalog : Option Catalog) :
    (∀ (key : Option String) (value : Value) (seen : Seen),
      ∃ last ∈ eval (Scan.next heap) ⟨[(key, value)], seen, []⟩,
        last.found =
          (stringsIn (Value.enterContainer heap heap.objects.size) key value seen).1 ∧
        EnteredOnce seen.containers last.seen.containers ∧
        EnteredOnce seen.tuples last.seen.tuples) ∧
    (∀ (map : UrlMap) (context : Context) (value : Value) (memory : Memory)
      (frames : List Frame) (ahead : List Entry), ∃ after : Memory,
        Reaches (State.next map catalog) ⟨memory, frames, .call context value, ahead⟩
          ⟨after, frames, .give (Relink.replace map context value), ahead⟩ ∧
        EnteredOnce memory.entered after.entered) ∧
    ∀ (assets : List Asset) (entries : List Entry),
      ∃ last ∈ eval (State.next (urlMap assets) catalog) (.start heap assets entries),
        relink heap catalog assets entries = last.outcome.map (fun after =>
          (after, entries.map (shiftEntry heap.objects.size))) ∧
        last.memory.entered.Nodup := by
  refine ⟨exists_eval_scan heap, fun map => exists_reaches_give map catalog,
    fun assets entries => ?_⟩
  obtain ⟨last, ends, outcome⟩ := exists_eval_relink heap catalog assets entries
  obtain ⟨reaches, -⟩ := StateTransition.mem_eval.mp ends
  exact ⟨last, ends, outcome, (State.enteredOnce_of_reaches reaches).nodup⟩

end StaticSite
