import Mathlib.Data.List.Count
import StaticSite.Text.Search

/-!
# Splitting at a character

The pieces between the occurrences of a character join to the text, so pieces that do not hold the
character are those of the text that they join to.
-/

namespace StaticSite.Text

theorem splitOnChar_append_cons (mark : Char) (s t : List Char) :
    splitOnChar mark (s ++ mark :: t) = splitOnChar mark s ++ splitOnChar mark t := by
  induction s with
  | nil => simp [splitOnChar]
  | cons c s ih =>
    by_cases same : c = mark
    · simp [splitOnChar, same, ih]
    · cases pieces : splitOnChar mark s with
      | nil =>
        exfalso
        cases s with
        | nil => simp [splitOnChar] at pieces
        | cons d s =>
          simp only [splitOnChar] at pieces
          split at pieces
          · cases pieces
          · split at pieces <;> cases pieces
      | cons piece rest => simp [splitOnChar, same, ih, pieces]

theorem splitOnChar_of_not_mem {mark : Char} {s : List Char} (absent : mark ∉ s) :
    splitOnChar mark s = [s] := by
  induction s with
  | nil => rfl
  | cons c s ih =>
    simp only [List.mem_cons, not_or] at absent
    simp [splitOnChar, Ne.symm absent.1, ih absent.2]

theorem splitOnChar_flatMap {mark : Char} {front : List Char} {pieces : List (List Char)}
    (bare : mark ∉ front) (apart : ∀ piece ∈ pieces, mark ∉ piece) :
    splitOnChar mark (front ++ pieces.flatMap (mark :: ·)) = front :: pieces := by
  induction pieces generalizing front with
  | nil => simpa using splitOnChar_of_not_mem bare
  | cons piece pieces ih =>
    rw [List.forall_mem_cons] at apart
    rw [List.flatMap_cons, List.cons_append, splitOnChar_append_cons, ih apart.1 apart.2,
      splitOnChar_of_not_mem bare]
    rfl

theorem length_splitOnChar (mark : Char) (s : List Char) :
    (splitOnChar mark s).length = s.count mark + 1 := by
  induction s with
  | nil => rfl
  | cons c s ih =>
    rw [splitOnChar]
    split
    next same => rw [List.length_cons, ih, same, List.count_cons_self]
    next other =>
      rw [List.count_cons_of_ne other, ← ih]
      cases pieces : splitOnChar mark s with
      | nil => rw [pieces] at ih; cases ih
      | cons piece pieces => rfl

end StaticSite.Text
