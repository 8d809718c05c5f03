import StaticSite.Text.Search
import Mathlib.Data.List.Infix

/-!
# Replacing a mark

A replacement runs through a text from left to right, over occurrences and over characters at which
none starts. Its laws follow that run. A character that a mark does not hold keeps apart what stands
before it and what stands behind it, and a replacement takes away no such character.
-/

namespace StaticSite.Text

theorem dropMark?_eq_some {mark s rest : List Char} :
    dropMark? mark s = some rest ↔ s = mark ++ rest := by
  induction mark generalizing s with
  | nil => simp [dropMark?]
  | cons m mark ih =>
    cases s with
    | nil => simp [dropMark?]
    | cons c s =>
      by_cases same : m = c
      · subst same
        simp [dropMark?, ih]
      · simp [dropMark?, same, Ne.symm same]

theorem startsWith_iff {mark s : List Char} : startsWith mark s = true ↔ mark <+: s := by
  rw [startsWith, Option.isSome_iff_exists]
  simp only [dropMark?_eq_some, List.IsPrefix]
  exact exists_congr fun _ => eq_comm

/-- A mark that starts in front of a character it does not hold ends in front of it. -/
theorem prefix_of_prefix_append_cons {mark after : List Char} {c : Char} (absent : c ∉ mark)
    (before : List Char) (start : mark <+: before ++ c :: after) : mark <+: before := by
  rcases List.prefix_or_prefix_of_prefix start (List.prefix_append before (c :: after)) with
    inside | across
  · exact inside
  · obtain ⟨rest, rfl⟩ := across
    rw [List.prefix_append_right_inj] at start
    cases rest with
    | nil => simp
    | cons d rest =>
      obtain ⟨rfl, _⟩ := List.cons_prefix_cons.mp start
      simp at absent

section

variable {mark new : List Char}

theorem replaceFrom_eq_drop (skip : Nat) (s : List Char) :
    replaceFrom mark new skip s = replaceFrom mark new 0 (s.drop skip) := by
  induction skip generalizing s with
  | zero => rfl
  | succ skip ih =>
    cases s with
    | nil => simp [replaceFrom]
    | cons c s => simp [replaceFrom, ih]

@[simp] theorem replace_nil : replace mark new [] = [] := rfl

theorem replace_mark_append (nonempty : mark ≠ []) (s : List Char) :
    replace mark new (mark ++ s) = new ++ replace mark new s := by
  obtain ⟨m, rest, rfl⟩ := List.exists_cons_of_ne_nil nonempty
  have found : startsWith (m :: rest) (m :: (rest ++ s)) = true :=
    startsWith_iff.mpr (List.prefix_append (m :: rest) s)
  simp [replace, replaceFrom, found, replaceFrom_eq_drop rest.length]

theorem replace_cons {c : Char} {s : List Char} (absent : ¬ mark <+: c :: s) :
    replace mark new (c :: s) = c :: replace mark new s := by
  have kept : startsWith mark (c :: s) = false := by
    rw [Bool.eq_false_iff, Ne, startsWith_iff]
    exact absent
  simp [replace, replaceFrom, kept]

/-- The run of a replacement: the end, an occurrence, or a character that starts none. -/
@[elab_as_elim]
theorem replace_induction {motive : List Char → Prop} (nonempty : mark ≠ []) (nil : motive [])
    (found : ∀ s, motive s → motive (mark ++ s))
    (kept : ∀ c s, ¬ mark <+: c :: s → motive s → motive (c :: s)) (s : List Char) : motive s := by
  induction length : s.length using Nat.strong_induction_on generalizing s with
  | _ n ih =>
    by_cases start : mark <+: s
    · obtain ⟨rest, rfl⟩ := start
      have shorter : rest.length < n := by
        have := List.length_pos_of_ne_nil nonempty
        rw [← length, List.length_append]
        omega
      exact found rest (ih rest.length shorter rest rfl)
    · cases s with
      | nil => exact nil
      | cons c s =>
        have shorter : s.length < n := by
          rw [← length, List.length_cons]
          omega
        exact kept c s start (ih s.length shorter s rfl)

theorem replace_append_cons {c : Char} (nonempty : mark ≠ []) (absent : c ∉ mark)
    (before after : List Char) :
    replace mark new (before ++ c :: after) =
      replace mark new before ++ c :: replace mark new after := by
  induction before using replace_induction nonempty with
  | nil =>
    have start : ¬ mark <+: c :: after := fun start =>
      nonempty (List.prefix_nil.mp (prefix_of_prefix_append_cons absent [] start))
    simp [replace_cons start]
  | found before ih =>
    rw [List.append_assoc, replace_mark_append nonempty, ih, replace_mark_append nonempty,
      List.append_assoc]
  | kept d before outside ih =>
    have start : ¬ mark <+: d :: (before ++ c :: after) := fun start =>
      outside (prefix_of_prefix_append_cons absent (d :: before) start)
    rw [List.cons_append, replace_cons start, ih, replace_cons outside, List.cons_append]

/-- A text that lacks a character of the mark stays as it is. -/
theorem replace_eq_self {c : Char} (needed : c ∈ mark) {s : List Char} (lacking : c ∉ s) :
    replace mark new s = s := by
  induction s with
  | nil => rfl
  | cons d s ih =>
    have start : ¬ mark <+: d :: s := fun start => lacking (start.subset needed)
    rw [replace_cons start, ih (fun member => lacking (List.mem_cons_of_mem d member))]

/-- A replacement takes away no character that the mark does not hold. -/
theorem count_le_count_replace {c : Char} (nonempty : mark ≠ []) (absent : c ∉ mark)
    (s : List Char) : s.count c ≤ (replace mark new s).count c := by
  induction s using replace_induction nonempty with
  | nil => simp
  | found s ih =>
    rw [replace_mark_append nonempty, List.count_append, List.count_append,
      List.count_eq_zero_of_not_mem absent]
    omega
  | kept d s outside ih =>
    rw [replace_cons outside, List.count_cons, List.count_cons]
    omega

end

section

variable {mark : List Char} {n : Char} {run : List Char}

/-- What starts a replaced text without the new character starts the text itself. -/
theorem prefix_of_prefix_replace (nonempty : mark ≠ []) (lacking : n ∉ run) {s : List Char}
    (start : run <+: replace mark [n] s) : run <+: s := by
  induction s using replace_induction nonempty generalizing run with
  | nil => exact start
  | found s _ =>
    rw [replace_mark_append nonempty, List.singleton_append] at start
    cases run with
    | nil => exact List.nil_prefix
    | cons c run =>
      obtain ⟨rfl, -⟩ := List.cons_prefix_cons.mp start
      simp at lacking
  | kept c s outside ih =>
    rw [replace_cons outside] at start
    cases run with
    | nil => exact List.nil_prefix
    | cons d run =>
      obtain ⟨rfl, rest⟩ := List.cons_prefix_cons.mp start
      exact List.cons_prefix_cons.mpr
        ⟨rfl, ih (fun member => lacking (List.mem_cons_of_mem d member)) rest⟩

theorem infix_of_infix_replace (nonempty : mark ≠ []) (lacking : n ∉ run) {s : List Char}
    (inside : run <:+: replace mark [n] s) : run <:+: s := by
  induction s using replace_induction nonempty with
  | nil => exact inside
  | found s ih =>
    rw [replace_mark_append nonempty, List.singleton_append, List.infix_cons_iff] at inside
    rcases inside with start | later
    · cases run with
      | nil => exact List.nil_infix
      | cons c run =>
        obtain ⟨rfl, -⟩ := List.cons_prefix_cons.mp start
        simp at lacking
    · exact (ih later).trans (List.suffix_append mark s).isInfix
  | kept c s outside ih =>
    have whole : replace mark [n] (c :: s) = c :: replace mark [n] s := replace_cons outside
    rw [whole, List.infix_cons_iff] at inside
    rcases inside with start | later
    · rw [← whole] at start
      exact (prefix_of_prefix_replace nonempty lacking start).isInfix
    · exact (ih later).trans (List.suffix_cons c s).isInfix

end

/-- Two texts that agree from the same occurrence of a character on agree before it, too. -/
theorem append_cons_inj_of_count {c : Char} {s t u v : List Char}
    (same : s.count c = t.count c) (equal : s ++ c :: u = t ++ c :: v) : s = t ∧ u = v := by
  induction s generalizing t with
  | nil =>
    cases t with
    | nil => simpa using equal
    | cons d t =>
      obtain ⟨rfl, _⟩ := List.cons.inj equal
      simp at same
  | cons d s ih =>
    cases t with
    | nil =>
      obtain ⟨rfl, _⟩ := List.cons.inj equal
      simp at same
    | cons e t =>
      obtain ⟨rfl, tails⟩ := List.cons.inj equal
      have rest : s.count c = t.count c := by
        simpa [List.count_cons] using same
      obtain ⟨rfl, ends⟩ := ih rest tails
      exact ⟨rfl, ends⟩

end StaticSite.Text
