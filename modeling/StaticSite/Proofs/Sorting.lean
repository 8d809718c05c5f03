import Mathlib

/-!
# The last of a sorted list

A list sorted by a key keeps the order of elements of one key. So the last element that passes a
test can be found in the unsorted list: it has the greatest key there, and is the last one of that
key.
-/

namespace StaticSite

variable {α : Type} {key : α → Int} {q : α → Bool} {l : List α} {x : α}

/-- The element with the greatest key of those that pass the test, and the last one of these. -/
def IsLastGreatest (key : α → Int) (q : α → Bool) (l : List α) (x : α) : Prop :=
  q x ∧ ∃ before after, l = before ++ x :: after ∧
    (∀ y ∈ before, q y → key y ≤ key x) ∧ ∀ y ∈ after, q y → key y < key x

theorem pairwise_sort (key : α → Int) (l : List α) :
    (l.mergeSort fun a b => key a ≤ key b).Pairwise fun a b => key a ≤ key b := by
  have sorted := @List.pairwise_mergeSort α (fun a b => decide (key a ≤ key b))
    (by simp only [decide_eq_true_eq]; omega)
    (by simp only [Bool.or_eq_true, decide_eq_true_eq]; omega) l
  simpa using sorted

/-- Elements of one key keep their order. -/
theorem filter_sort_of_key (key : α → Int) (l : List α) {p : α → Bool} {k : Int}
    (alike : ∀ y, p y → key y = k) :
    (l.mergeSort fun a b => key a ≤ key b).filter p = l.filter p := by
  have isSublist : (l.filter p).Sublist (l.mergeSort fun a b => key a ≤ key b) := by
    refine List.sublist_mergeSort (by simp only [decide_eq_true_eq]; omega)
      (by simp only [Bool.or_eq_true, decide_eq_true_eq]; omega) ?_ List.filter_sublist
    rw [List.pairwise_filter]
    exact List.pairwise_of_forall fun a b first second => by simp [alike a first, alike b second]
  have within := isSublist.filter p
  simp only [List.filter_filter, Bool.and_self] at within
  exact (within.eq_of_length (((List.mergeSort_perm l _).filter p).length_eq.symm)).symm

theorem getLast?_filter_iff : (l.filter q).getLast? = some x ↔
    q x ∧ ∃ before after, l = before ++ x :: after ∧ ∀ y ∈ after, ¬ q y := by
  constructor
  · intro isLast
    obtain ⟨earlier, filtered⟩ := List.getLast?_eq_some_iff.mp isLast
    obtain ⟨left, right, rfl, -, single⟩ := List.filter_eq_append_iff.mp filtered
    obtain ⟨before, after, rfl, -, passes, none⟩ := List.filter_eq_cons_iff.mp single
    exact ⟨passes, left ++ before, after, by simp, List.filter_eq_nil_iff.mp none⟩
  · rintro ⟨passes, before, after, rfl, none⟩
    rw [List.filter_append, List.filter_cons_of_pos passes, List.filter_eq_nil_iff.mpr none,
      List.getLast?_append, List.getLast?_singleton, Option.some_or]

/-- The last element of the sorted list has the greatest key and is the last one of its key. -/
theorem greatest_of_getLast?_sort
    (isLast : ((l.mergeSort fun a b => key a ≤ key b).filter q).getLast? = some x) :
    (∀ y ∈ l, q y → key y ≤ key x) ∧
      (l.filter fun y => key y = key x && q y).getLast? = some x := by
  obtain ⟨earlier, filtered⟩ := List.getLast?_eq_some_iff.mp isLast
  constructor
  · intro y member passes
    have ordered := (pairwise_sort key l).filter q
    rw [filtered, List.pairwise_append] at ordered
    have inSorted : y ∈ (l.mergeSort fun a b => key a ≤ key b).filter q :=
      List.mem_filter.mpr ⟨List.mem_mergeSort.mpr member, passes⟩
    rw [filtered, List.mem_append, List.mem_singleton] at inSorted
    rcases inSorted with isEarlier | rfl
    · exact ordered.2.2 y isEarlier x (List.mem_singleton_self x)
    · exact le_rfl
  · rw [← filter_sort_of_key key l (k := key x) (by simp +contextual), ← List.filter_filter,
      filtered]
    simp

theorem getLast?_sort_iff :
    ((l.mergeSort fun a b => key a ≤ key b).filter q).getLast? = some x ↔
      IsLastGreatest key q l x := by
  constructor
  · intro isLast
    obtain ⟨greatest, lastOfKey⟩ := greatest_of_getLast?_sort isLast
    obtain ⟨passes, before, after, rfl, none⟩ := getLast?_filter_iff.mp lastOfKey
    simp only [Bool.and_eq_true, decide_eq_true_eq] at passes none
    refine ⟨passes.2, before, after, rfl, fun y member => greatest y (by simp [member]),
      fun y member passes => lt_of_le_of_ne (greatest y (by simp [member]) passes) ?_⟩
    exact fun same => none y member ⟨same, passes⟩
  · rintro ⟨passes, before, after, rfl, notAbove, below⟩
    have nonempty : x ∈ ((before ++ x :: after).mergeSort fun a b => key a ≤ key b).filter q :=
      List.mem_filter.mpr ⟨List.mem_mergeSort.mpr (by simp), passes⟩
    obtain ⟨z, isLast⟩ := Option.isSome_iff_exists.mp
      (List.getLast?_isSome.mpr (List.ne_nil_of_mem nonempty))
    obtain ⟨greatest, lastOfKey⟩ := greatest_of_getLast?_sort isLast
    -- both are among the greatest, and both are the last of those
    have same : key z = key x := by
      refine le_antisymm ?_ (greatest x (by simp) passes)
      have member := List.mem_filter.mp (List.mem_of_getLast? isLast)
      rw [List.mem_mergeSort, List.mem_append, List.mem_cons] at member
      obtain ⟨earlier | rfl | later, passes⟩ := member
      · exact notAbove z earlier passes
      · exact le_rfl
      · exact (below z later passes).le
    have last :
        ((before ++ x :: after).filter fun y => key y = key z && q y).getLast? = some x := by
      refine getLast?_filter_iff.mpr
        ⟨by simp [same, passes], before, after, rfl, fun y member => ?_⟩
      simp only [Bool.and_eq_true, decide_eq_true_eq, same]
      exact fun ⟨greatest, passes⟩ => absurd greatest (below y member passes).ne
    rw [isLast, ← lastOfKey, last]

end StaticSite
