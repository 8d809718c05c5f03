import StaticSite.Proofs.Walk
import Mathlib.Computability.StateTransition
import Mathlib.Data.Finset.Card

/-!
# The walk for strings, step by step

A scan has a list of values ahead of it. One step takes the first of them: a string is found, and
what a container or tuple holds is put in its place unless that has been entered before. A scan has
no bound on its steps. It ends all the same, also where containers hold themselves, and it finds
the strings that the walk with as many levels as the heap has containers finds.
-/

namespace StaticSite

/-!
## What is entered

A walk enters a container or tuple unless it has entered it before. So it enters each of them at
most once, and with each container that it enters there are fewer left. Nothing is asked of what has
been entered at first: it may name a place twice, or one at which no container stands.
-/

open StateTransition (Reaches eval)

/-- What has been entered since stands in front: nothing twice, and nothing that was there. -/
def EnteredOnce (before after : List Nat) : Prop :=
  ∃ new : List Nat, after = new ++ before ∧ new.Nodup ∧ ∀ id ∈ new, id ∉ before

namespace EnteredOnce

variable {before between after : List Nat} {id : Nat}

theorem refl (entered : List Nat) : EnteredOnce entered entered :=
  ⟨[], rfl, List.nodup_nil, by simp⟩

theorem cons (new : id ∉ before) : EnteredOnce before (id :: before) :=
  ⟨[id], rfl, List.nodup_singleton id, by simpa using new⟩

theorem trans (first : EnteredOnce before between) (second : EnteredOnce between after) :
    EnteredOnce before after := by
  obtain ⟨early, rfl, nodup, absent⟩ := first
  obtain ⟨late, rfl, nodup', absent'⟩ := second
  refine ⟨late ++ early, (List.append_assoc ..).symm, ?_, fun id member => ?_⟩
  · refine List.nodup_append.mpr ⟨nodup', nodup, fun id inLate other inEarly same => ?_⟩
    exact absent' id inLate (List.mem_append_left _ (same ▸ inEarly))
  · rcases List.mem_append.mp member with inLate | inEarly
    · exact fun inBefore => absent' id inLate (List.mem_append_right _ inBefore)
    · exact absent id inEarly

theorem nodup (once : EnteredOnce [] after) : after.Nodup := by
  obtain ⟨new, rfl, nodup, -⟩ := once
  rwa [List.append_nil]

/-- What is entered once by every step is entered once by every run. -/
theorem of_reaches {σ : Type} {next : σ → Option σ} (entered : σ → List Nat)
    (step : ∀ first second, second ∈ next first → EnteredOnce (entered first) (entered second))
    {first last : σ} (reaches : Reaches next first last) :
    EnteredOnce (entered first) (entered last) := by
  induction reaches with
  | refl => exact refl _
  | tail _ onward ih => exact ih.trans (step _ _ onward)

end EnteredOnce

namespace Heap

/-- The places of the containers that have not been entered. -/
def unentered (heap : Heap) (entered : List Nat) : Finset Nat :=
  Finset.range heap.objects.size \ entered.toFinset

variable {heap : Heap} {entered others : List Nat} {id : Nat} {container : Container}

theorem mem_unentered : id ∈ heap.unentered entered ↔ id < heap.objects.size ∧ id ∉ entered := by
  simp [unentered]

theorem card_unentered_le_size (heap : Heap) (entered : List Nat) :
    (heap.unentered entered).card ≤ heap.objects.size :=
  calc (heap.unentered entered).card
    _ ≤ (Finset.range heap.objects.size).card := Finset.card_le_card Finset.sdiff_subset
    _ = heap.objects.size := Finset.card_range _

theorem card_unentered_le (grown : entered ⊆ others) :
    (heap.unentered others).card ≤ (heap.unentered entered).card := by
  refine Finset.card_le_card fun id member => ?_
  obtain ⟨bound, absent⟩ := mem_unentered.mp member
  exact mem_unentered.mpr ⟨bound, fun inEntered => absent (grown inEntered)⟩

/-- A container that is entered is one less that can be entered. -/
theorem card_unentered_cons_lt (found : heap.container? id = some container)
    (new : id ∉ entered) :
    (heap.unentered (id :: entered)).card < (heap.unentered entered).card := by
  have here : id ∈ heap.unentered entered := mem_unentered.mpr ⟨lt_of_container? found, new⟩
  have gone : id ∉ heap.unentered (id :: entered) := fun member =>
    (mem_unentered.mp member).2 (List.mem_cons_self ..)
  refine Finset.card_lt_card ((Finset.ssubset_iff_of_subset fun other member => ?_).mpr
    ⟨id, here, gone⟩)
  obtain ⟨bound, absent⟩ := mem_unentered.mp member
  exact mem_unentered.mpr ⟨bound, fun inEntered => absent (List.mem_cons_of_mem _ inEntered)⟩

/-- A container is among those that have been entered once none is left. -/
theorem mem_of_card_unentered_eq_zero (found : heap.container? id = some container)
    (none : (heap.unentered entered).card = 0) : id ∈ entered := by
  by_contra new
  have fewer := card_unentered_cons_lt found new
  omega

/-- Two records of what has been entered agree, but for places at which no container stands. -/
def Agree (heap : Heap) (entered others : List Nat) : Prop :=
  ∀ id container, heap.container? id = some container → (id ∈ entered ↔ id ∈ others)

namespace Agree

theorem refl (heap : Heap) (entered : List Nat) : heap.Agree entered entered :=
  fun _ _ _ => Iff.rfl

theorem cons (agree : heap.Agree entered others) (id : Nat) :
    heap.Agree (id :: entered) (id :: others) := by
  intro other container found
  rw [List.mem_cons, List.mem_cons, agree other container found]

theorem cons_right (agree : heap.Agree entered others) (absent : heap.container? id = none) :
    heap.Agree entered (id :: others) := by
  intro other container found
  have different : other ≠ id := fun same => by
    rw [same, absent] at found
    cases found
  rw [List.mem_cons, agree other container found, or_iff_right different]

end Agree

end Heap

namespace Value

/-! ## Steps -/

/-- The mark and the members of what a walk can enter: a tuple, or a container of the heap. -/
def enterable? (heap : Heap) : Value → Option (Mark × List (Option Value × Value))
  | .tuple label items => some ((true, label), items.map fun item => (none, item))
  | .ref id => (heap.container? id).map fun container => ((false, id), container.members)
  | _ => none

theorem enterable?_ref {heap : Heap} {id : Nat} {container : Container}
    (found : heap.container? id = some container) :
    (Value.ref id).enterable? heap = some ((false, id), container.members) := by
  rw [enterable?, found, Option.map_some]

theorem enterable?_ref_none {heap : Heap} {id : Nat} (absent : heap.container? id = none) :
    (Value.ref id).enterable? heap = none := by
  rw [enterable?, absent, Option.map_none]

/-- Where a scan stands: the values ahead with their keys, what it has entered and found. -/
structure Scan where
  ahead : List (Option String × Value)
  seen : Seen
  found : List Occurrence

/-- Members with the keys under which a walk comes to them. -/
def keyed (key : Option String) (members : List (Option Value × Value)) :
    List (Option String × Value) :=
  members.map fun (k, value) => (keyUnder key k, value)

theorem keyed_items (key : Option String) (items : List Value) :
    keyed key (items.map fun item => (none, item)) = items.map fun item => (key, item) :=
  List.map_map

namespace Scan

/-- One step; a scan with nothing ahead has ended. -/
def next (heap : Heap) (scan : Scan) : Option Scan :=
  match scan.ahead with
  | [] => none
  | (key, value) :: rest =>
    match value.enterable? heap with
    | none =>
      some { scan with
        ahead := rest, found := scan.found ++ value.str?.toList.map fun s => (key, s) }
    | some (mark, members) =>
      if scan.seen.Has mark then some { scan with ahead := rest }
      else some { scan with ahead := keyed key members ++ rest, seen := scan.seen.add mark }

variable {heap : Heap}

theorem enteredOnce_next {scan after : Scan} (step : after ∈ scan.next heap) :
    EnteredOnce scan.seen.containers after.seen.containers ∧
      EnteredOnce scan.seen.tuples after.seen.tuples := by
  obtain ⟨ahead, seen, found⟩ := scan
  cases ahead with
  | nil => cases step
  | cons pending rest =>
    obtain ⟨key, value⟩ := pending
    simp only [next] at step
    split at step
    · cases step
      exact ⟨.refl _, .refl _⟩
    next mark members _ =>
      split at step
      · cases step
        exact ⟨.refl _, .refl _⟩
      next new =>
        cases step
        obtain ⟨kind, label⟩ := mark
        cases kind with
        | true => exact ⟨.refl _, .cons new⟩
        | false => exact ⟨.cons new, .refl _⟩

/-- A scan enters every container and every tuple at most once. -/
theorem enteredOnce_of_reaches {scan last : Scan} (reaches : Reaches (next heap) scan last) :
    EnteredOnce scan.seen.containers last.seen.containers ∧
      EnteredOnce scan.seen.tuples last.seen.tuples :=
  ⟨.of_reaches (·.seen.containers) (fun _ _ step => (enteredOnce_next step).1) reaches,
    .of_reaches (·.seen.tuples) (fun _ _ step => (enteredOnce_next step).2) reaches⟩

end Scan

namespace Seen

/-- Two records agree, but for places at which no container stands. -/
structure Agree (heap : Heap) (seen other : Seen) : Prop where
  containers : heap.Agree seen.containers other.containers
  tuples : seen.tuples = other.tuples

theorem Agree.refl (heap : Heap) (seen : Seen) : seen.Agree heap seen :=
  ⟨.refl heap _, rfl⟩

end Seen

/-! ## A scan follows the walk -/

/--
A scan comes through the values, whatever follows them, and finds what the walk finds. Afterwards
the two have entered the same.
-/
def Scans (heap : Heap) (values : List (Option String × Value)) (seen : Seen) (walked : Found) :
    Prop :=
  ∃ after : Seen, after.Agree heap walked.2 ∧ seen.containers ⊆ after.containers ∧
    ∀ rest found, Reaches (Scan.next heap) ⟨values ++ rest, seen, found⟩
      ⟨rest, after, found ++ walked.1⟩

section

variable {heap : Heap} {key : Option String} {seen other : Seen}

theorem Scans.nil (agree : seen.Agree heap other) : Scans heap [] seen ([], other) := by
  refine ⟨seen, agree, List.Subset.refl _, fun rest found => ?_⟩
  rw [List.append_nil]
  exact .refl

theorem Scans.append {values others : List (Option String × Value)} {first : Found}
    {more : Seen → Found} (front : Scans heap values seen first)
    (back : ∀ between : Seen, between.Agree heap first.2 →
      seen.containers ⊆ between.containers → Scans heap others between (more first.2)) :
    Scans heap (values ++ others) seen (first.1 ++ (more first.2).1, (more first.2).2) := by
  obtain ⟨between, agree, grown, through⟩ := front
  obtain ⟨last, agree', grown', onward⟩ := back between agree grown
  refine ⟨last, agree', List.Subset.trans grown grown', fun rest found => ?_⟩
  have late := onward rest (found ++ first.1)
  rw [List.append_assoc] at late ⊢
  exact (through (others ++ rest) found).trans late

/-- What can be entered is passed over if it has been. -/
theorem Scans.pass {value : Value} {mark : Mark} {members : List (Option Value × Value)}
    (here : value.enterable? heap = some (mark, members)) (has : seen.Has mark)
    (agree : seen.Agree heap other) : Scans heap [(key, value)] seen ([], other) := by
  refine ⟨seen, agree, List.Subset.refl _, fun rest found => .single ?_⟩
  simp [Scan.next, here, has]

/-- What has not been entered is scanned through its members. -/
theorem Scans.enter {value : Value} {mark : Mark} {members : List (Option Value × Value)}
    {walked : Found} (here : value.enterable? heap = some (mark, members)) (new : ¬ seen.Has mark)
    (inside : Scans heap (keyed key members) (seen.add mark) walked) :
    Scans heap [(key, value)] seen walked := by
  obtain ⟨after, agree, grown, through⟩ := inside
  have wider : seen.containers ⊆ (seen.add mark).containers := by
    obtain ⟨kind, label⟩ := mark
    cases kind with
    | true => exact List.Subset.refl _
    | false => exact List.subset_cons_self ..
  refine ⟨after, agree, List.Subset.trans wider grown, fun rest found => ?_⟩
  refine .head ?_ (through rest found)
  simp [Scan.next, here, new]

/-- What cannot be entered is a string, or nothing is found there. -/
theorem Scans.single {value : Value} (here : value.enterable? heap = none)
    (agree : seen.Agree heap other) :
    Scans heap [(key, value)] seen (value.str?.toList.map fun s => (key, s), other) := by
  refine ⟨seen, agree, List.Subset.refl _, fun rest found => .single ?_⟩
  simp [Scan.next, here]

end

section

variable {heap : Heap} {enter : Enter} {levels : Nat}

/-- With so many containers left, a scan does what `enter` does at a container. -/
def Enter.IsScanned (heap : Heap) (levels : Nat) (enter : Enter) : Prop :=
  ∀ key id (seen other : Seen), seen.Agree heap other →
    (heap.unentered seen.containers).card ≤ levels →
      Scans heap [(key, .ref id)] seen (enter key id other)

mutual

/-- The induction is on the value: what a container holds is the concern of `enter`. -/
theorem scans_stringsIn (scanned : enter.IsScanned heap levels) (key : Option String) :
    (value : Value) → ∀ seen other : Seen, seen.Agree heap other →
      (heap.unentered seen.containers).card ≤ levels →
        Scans heap [(key, value)] seen (stringsIn enter key value other)
  | .tuple label items, seen, other, agree, room => by
    rw [stringsIn]
    split
    next has =>
      rw [← agree.tuples] at has
      exact .pass rfl has agree
    next new =>
      rw [← agree.tuples] at new ⊢
      refine .enter rfl new ?_
      have inside := scans_stringsInAll scanned key items (seen.add (true, label))
        { other with tuples := label :: seen.tuples } ⟨agree.containers, rfl⟩ room
      rwa [keyed_items]
  | .ref id, seen, other, agree, room => scanned key id seen other agree room
  | .str _, _, _, agree, _ => .single rfl agree
  | .null, _, _, agree, _ => .single rfl agree
  | .bool _, _, _, agree, _ => .single rfl agree
  | .int _, _, _, agree, _ => .single rfl agree
  | .float _, _, _, agree, _ => .single rfl agree
  | .date _, _, _, agree, _ => .single rfl agree
  | .datetime _, _, _, agree, _ => .single rfl agree
  | .time _, _, _, agree, _ => .single rfl agree
  | .unknown, _, _, agree, _ => .single rfl agree

theorem scans_stringsInAll (scanned : enter.IsScanned heap levels) (key : Option String) :
    (items : List Value) → ∀ seen other : Seen, seen.Agree heap other →
      (heap.unentered seen.containers).card ≤ levels →
        Scans heap (items.map fun item => (key, item)) seen (stringsInAll enter key items other)
  | [], _, _, agree, _ => .nil agree
  | item :: items, seen, other, agree, room =>
    (scans_stringsIn scanned key item seen other agree room).append fun between agree' grown =>
      scans_stringsInAll scanned key items between _ agree'
        ((Heap.card_unentered_le grown).trans room)

end

theorem scans_stringsInMembers (scanned : enter.IsScanned heap levels) (key : Option String)
    (members : List (Option Value × Value)) {seen other : Seen} (agree : seen.Agree heap other)
    (room : (heap.unentered seen.containers).card ≤ levels) :
    Scans heap (keyed key members) seen (stringsInMembers enter key members other) := by
  induction members generalizing seen other with
  | nil => exact .nil agree
  | cons member members ih =>
    exact (scans_stringsIn scanned (keyUnder key member.1) member.2 seen other agree room).append
      fun between agree' grown => ih agree' ((Heap.card_unentered_le grown).trans room)

end

section

variable {heap : Heap}

/-- The induction is on the levels, of which a walk has one for each container that is left. -/
theorem isScanned_enterContainer (levels : Nat) :
    (enterContainer heap levels).IsScanned heap levels := by
  induction levels with
  | zero =>
    intro key id seen other agree room
    cases found : heap.container? id with
    | none => exact .single (enterable?_ref_none found) agree
    | some container =>
      have has : seen.Has (false, id) :=
        Heap.mem_of_card_unentered_eq_zero found (Nat.le_zero.mp room)
      exact .pass (enterable?_ref found) has agree
  | succ levels ih =>
    intro key id seen other agree room
    rw [enterContainer]
    cases found : heap.container? id with
    | none =>
      have here := enterable?_ref_none found
      split
      · exact .single here agree
      · exact .single here ⟨agree.containers.cons_right found, agree.tuples⟩
    | some container =>
      have here := enterable?_ref found
      have same := agree.containers id container found
      split
      next has => exact .pass here (same.mpr has) agree
      next absent =>
        have new : ¬ seen.Has (false, id) := fun has => absent (same.mp has)
        have fewer := Heap.card_unentered_cons_lt found new
        have inside : Scans heap (keyed key container.members) (seen.add (false, id))
            (stringsInMembers (enterContainer heap levels) key container.members
              { other with containers := id :: other.containers }) :=
          scans_stringsInMembers ih key container.members ⟨agree.containers.cons id, agree.tuples⟩
            (show (heap.unentered (id :: seen.containers)).card ≤ levels by omega)
        refine .enter here new ?_
        cases container with
        | dict entries =>
          dsimp only
          rw [stringsInEntries_eq]
          exact inside
        | list items =>
          dsimp only
          rw [stringsInAll_eq]
          exact inside

/-- Every scan of a value ends, and it finds the strings that the walk over the value finds. -/
theorem exists_eval_scan (heap : Heap) (key : Option String) (value : Value) (seen : Seen) :
    ∃ last ∈ eval (Scan.next heap) ⟨[(key, value)], seen, []⟩,
      last.found = (stringsIn (enterContainer heap heap.objects.size) key value seen).1 ∧
      EnteredOnce seen.containers last.seen.containers ∧
      EnteredOnce seen.tuples last.seen.tuples := by
  obtain ⟨after, -, -, through⟩ := scans_stringsIn (isScanned_enterContainer heap.objects.size)
    key value seen seen (.refl heap seen) (heap.card_unentered_le_size seen.containers)
  have reaches := through [] []
  have once := Scan.enteredOnce_of_reaches reaches
  exact ⟨_, StateTransition.mem_eval.mpr ⟨reaches, rfl⟩, rfl, once⟩

end

end Value

end StaticSite
