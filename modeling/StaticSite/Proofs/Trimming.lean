/-!
# Trimmed lists

A list is trimmed by dropping what is blank at both its ends. What is left is the only part between
blanks that neither starts nor ends with one.
-/

namespace StaticSite

/-- The list without what is blank at both ends. -/
def trimmed {α : Type} (blank : α → Bool) (l : List α) : List α :=
  ((l.dropWhile blank).reverse.dropWhile blank).reverse

/-- Nothing blank stands at an end of the list. -/
structure HasEnds {α : Type} (blank : α → Bool) (l : List α) : Prop where
  head : ∀ x ∈ l.head?, blank x = false
  last : ∀ x ∈ l.getLast?, blank x = false

section

variable {α : Type} {blank : α → Bool}

theorem dropWhile_eq_self {l : List α} (head : ∀ x ∈ l.head?, blank x = false) :
    l.dropWhile blank = l := by
  cases l with
  | nil => rfl
  | cons x l => rw [List.dropWhile_cons_of_neg (by simp [head x rfl])]

theorem head?_dropWhile (l : List α) : ∀ x ∈ (l.dropWhile blank).head?, blank x = false := by
  intro x isHead
  have notBlank := List.head?_dropWhile_not blank l
  rw [Option.mem_def.mp isHead] at notBlank
  exact notBlank

theorem of_mem_takeWhile (l : List α) : ∀ x ∈ l.takeWhile blank, blank x = true :=
  List.all_eq_true.mp List.all_takeWhile

theorem trimmed_eq {front mid back : List α} (isFront : ∀ x ∈ front, blank x = true)
    (isBack : ∀ x ∈ back, blank x = true) (ends : HasEnds blank mid) :
    trimmed blank (front ++ mid ++ back) = mid := by
  have fromLast : (mid ++ back).reverse.dropWhile blank = mid.reverse := by
    rw [List.reverse_append, List.dropWhile_append_of_pos (by simpa using isBack)]
    exact dropWhile_eq_self (by simpa using ends.last)
  rw [trimmed, List.append_assoc, List.dropWhile_append_of_pos isFront]
  cases mid with
  | nil =>
    have all : (back ++ []).dropWhile blank = [].dropWhile blank :=
      List.dropWhile_append_of_pos isBack
    rw [List.append_nil] at all
    rw [List.nil_append, all]
    rfl
  | cons x mid =>
    have fromFirst : (x :: mid ++ back).dropWhile blank = x :: mid ++ back :=
      dropWhile_eq_self (by simpa using ends.head)
    rw [fromFirst, fromLast, List.reverse_reverse]

theorem exists_trimmed (blank : α → Bool) (l : List α) :
    ∃ front back, l = front ++ trimmed blank l ++ back ∧ (∀ x ∈ front, blank x = true) ∧
      (∀ x ∈ back, blank x = true) ∧ HasEnds blank (trimmed blank l) := by
  have behind : l.dropWhile blank =
      trimmed blank l ++ ((l.dropWhile blank).reverse.takeWhile blank).reverse := by
    rw [trimmed, ← List.reverse_append, List.takeWhile_append_dropWhile, List.reverse_reverse]
  refine ⟨l.takeWhile blank, ((l.dropWhile blank).reverse.takeWhile blank).reverse, ?_,
    of_mem_takeWhile l, ?_, ?_, ?_⟩
  · rw [List.append_assoc, ← behind, List.takeWhile_append_dropWhile]
  · intro x member
    exact of_mem_takeWhile _ x (List.mem_reverse.mp member)
  · intro x isHead
    refine head?_dropWhile l x ?_
    rw [behind, List.head?_append, Option.mem_def.mp isHead]
    rfl
  · intro x isLast
    rw [trimmed, List.getLast?_reverse] at isLast
    exact head?_dropWhile _ x isLast

theorem hasEnds_trimmed (l : List α) : HasEnds blank (trimmed blank l) := by
  obtain ⟨_, _, -, -, -, ends⟩ := exists_trimmed blank l
  exact ends

theorem mem_of_mem_trimmed {l : List α} {x : α} (member : x ∈ trimmed blank l) : x ∈ l := by
  obtain ⟨front, back, whole, -⟩ := exists_trimmed blank l
  rw [whole]
  exact List.mem_append_left _ (List.mem_append_right _ member)

theorem hasEnds_of_forall {l : List α} (solid : ∀ x ∈ l, blank x = false) : HasEnds blank l :=
  ⟨fun x isHead => solid x (List.mem_of_head? isHead),
    fun x isLast => solid x (List.mem_of_getLast? isLast)⟩

theorem HasEnds.append {l m : List α} (left : HasEnds blank l) (right : HasEnds blank m)
    (nonempty : l ≠ [] ∧ m ≠ []) (between : List α) : HasEnds blank (l ++ between ++ m) := by
  constructor
  · have isHead := List.head?_eq_some_head nonempty.1
    rw [List.append_assoc, List.head?_append, isHead]
    simpa [isHead] using left.head
  · have isLast := List.getLast?_eq_some_getLast nonempty.2
    rw [List.getLast?_append, isLast]
    simpa [isLast] using right.last

theorem HasEnds.of_imp {other : α → Bool} {l : List α} (ends : HasEnds blank l)
    (weaker : ∀ x, other x = true → blank x = true) : HasEnds other l := by
  have solid (x : α) (notBlank : blank x = false) : other x = false :=
    Bool.eq_false_iff.mpr fun isOther => Bool.eq_false_iff.mp notBlank (weaker x isOther)
  exact ⟨fun x isHead => solid x (ends.head x isHead), fun x isLast => solid x (ends.last x isLast)⟩

theorem HasEnds.trimmed_eq_self {l : List α} (ends : HasEnds blank l) : trimmed blank l = l := by
  simpa using @trimmed_eq _ _ [] l [] (by simp) (by simp) ends

theorem trimmed_congr {other : α → Bool} {l : List α} (same : ∀ x ∈ l, blank x = other x) :
    trimmed blank l = trimmed other l := by
  obtain ⟨front, back, whole, isFront, isBack, ends⟩ := exists_trimmed blank l
  generalize trimmed blank l = mid at whole ends ⊢
  subst whole
  simp only [List.mem_append, or_imp, forall_and] at same
  obtain ⟨⟨inFront, inMid⟩, inBack⟩ := same
  refine (trimmed_eq (fun x member => ?_) (fun x member => ?_) ⟨fun x isHead => ?_,
    fun x isLast => ?_⟩).symm
  · exact (inFront x member).symm.trans (isFront x member)
  · exact (inBack x member).symm.trans (isBack x member)
  · exact (inMid x (List.mem_of_head? isHead)).symm.trans (ends.head x isHead)
  · exact (inMid x (List.mem_of_getLast? isLast)).symm.trans (ends.last x isLast)

end

end StaticSite
