import Mathlib.Data.List.Forall2

/-!
# Outcomes of steps that can fail

A sequence of steps that has succeeded gives the results of all its steps; one that has failed gives
the fault of one of them.
-/

namespace StaticSite

theorem exists_of_bind_eq_ok {ε α β : Type} {first : Except ε α} {next : α → Except ε β}
    {result : β} (done : first >>= next = .ok result) :
    ∃ value, first = .ok value ∧ next value = .ok result := by
  cases first with
  | error fault => cases done
  | ok value => exact ⟨value, rfl, done⟩

theorem exists_of_map_eq_ok {ε α β : Type} {f : α → β} {first : Except ε α} {result : β}
    (done : first.map f = .ok result) : ∃ value, first = .ok value ∧ f value = result := by
  cases first with
  | error fault => cases done
  | ok value => exact ⟨value, rfl, Except.ok.inj done⟩

/-- Two steps in a row fail where one of them fails. -/
theorem error_of_bind_eq_error {ε α β : Type} {first : Except ε α} {next : α → Except ε β}
    {fault : ε} (failed : first >>= next = .error fault) :
    first = .error fault ∨ ∃ value, first = .ok value ∧ next value = .error fault := by
  cases first with
  | error other => exact .inl (congrArg Except.error (Except.error.inj failed))
  | ok value => exact .inr ⟨value, rfl, failed⟩

theorem error_of_map_eq_error {ε α β : Type} {f : α → β} {first : Except ε α} {fault : ε}
    (failed : first.map f = .error fault) : first = .error fault := by
  cases first with
  | error other => exact congrArg Except.error (Except.error.inj failed)
  | ok value => cases failed

/-- What each step of a fold keeps is kept by a fold that succeeds. -/
theorem foldlM_keeps {ε α β : Type} {f : β → α → Except ε β} (inv : β → Prop) {l : List α}
    (step : ∀ b a b', a ∈ l → inv b → f b a = .ok b' → inv b') {start result : β}
    (before : inv start) (done : l.foldlM f start = .ok result) : inv result := by
  induction l generalizing start with
  | nil =>
    cases done
    exact before
  | cons a l ih =>
    rw [List.foldlM_cons] at done
    obtain ⟨middle, first, rest⟩ := exists_of_bind_eq_ok done
    have kept := step start a middle (List.mem_cons_self ..) before first
    exact ih (fun b c b' member => step b c b' (List.mem_cons_of_mem _ member)) kept rest

/-- A fold that fails does so at one of its steps. -/
theorem exists_of_foldlM_eq_error {ε α β : Type} {f : β → α → Except ε β} {l : List α} {start : β}
    {fault : ε} (failed : l.foldlM f start = .error fault) :
    ∃ a ∈ l, ∃ b, f b a = .error fault := by
  induction l generalizing start with
  | nil => cases failed
  | cons a l ih =>
    rw [List.foldlM_cons] at failed
    rcases error_of_bind_eq_error failed with here | ⟨middle, -, later⟩
    · exact ⟨a, List.mem_cons_self .., start, here⟩
    · obtain ⟨c, member, step⟩ := ih later
      exact ⟨c, List.mem_cons_of_mem _ member, step⟩

/-- A traversal gives the results of all elements, or the fault of one of them. -/
theorem mapM_ok_or_error {α β ε : Type} (f : α → Except ε β) (l : List α) :
    (∃ results, l.mapM f = .ok results ∧
      List.Forall₂ (fun a b => a ∈ l ∧ f a = .ok b) l results ∧ ∀ a ∈ l, ∃ b, f a = .ok b) ∨
      ∃ a ∈ l, ∃ fault, f a = .error fault ∧ l.mapM f = .error fault := by
  induction l with
  | nil => exact .inl ⟨[], rfl, .nil, by simp⟩
  | cons a l ih =>
    rw [List.mapM_cons]
    cases first : f a with
    | error fault => exact .inr ⟨a, List.mem_cons_self .., fault, first, rfl⟩
    | ok b =>
      rcases ih with ⟨results, all, each, every⟩ | ⟨other, member, fault, failed, stopped⟩
      · have later : List.Forall₂ (fun c d => c ∈ a :: l ∧ f c = .ok d) l results :=
          each.imp fun c d ⟨member, done⟩ => ⟨List.mem_cons_of_mem _ member, done⟩
        exact .inl ⟨b :: results, by rw [all]; rfl, .cons ⟨List.mem_cons_self .., first⟩ later,
          List.forall_mem_cons.mpr ⟨⟨b, first⟩, every⟩⟩
      · exact .inr ⟨other, List.mem_cons_of_mem _ member, fault, failed, by rw [stopped]; rfl⟩

section

variable {α β ε : Type} {f : α → Except ε β} {l : List α} {results : List β}

theorem forall₂_of_mapM_eq_ok (done : l.mapM f = .ok results) :
    List.Forall₂ (fun a b => a ∈ l ∧ f a = .ok b) l results := by
  rcases mapM_ok_or_error f l with ⟨others, all, each, -⟩ | ⟨a, -, fault, -, stopped⟩
  · obtain rfl : others = results := Except.ok.inj (all.symm.trans done)
    exact each
  · rw [done] at stopped
    cases stopped

theorem exists_of_mapM_eq_error {fault : ε} (failed : l.mapM f = .error fault) :
    ∃ a ∈ l, f a = .error fault := by
  rcases mapM_ok_or_error f l with ⟨others, all, -, -⟩ | ⟨a, member, other, here, stopped⟩
  · rw [all] at failed
    cases failed
  · rw [stopped] at failed
    exact ⟨a, member, by rw [here, Except.error.inj failed]⟩

theorem exists_of_mem_left {R : α → β → Prop} (each : List.Forall₂ R l results) {a : α}
    (member : a ∈ l) : ∃ b ∈ results, R a b := by
  induction each with
  | nil => cases member
  | cons here _ ih =>
    rcases List.mem_cons.mp member with rfl | later
    · exact ⟨_, List.mem_cons_self .., here⟩
    · obtain ⟨b, isResult, related⟩ := ih later
      exact ⟨b, List.mem_cons_of_mem _ isResult, related⟩

theorem exists_of_mem_right {R : α → β → Prop} (each : List.Forall₂ R l results) {b : β}
    (member : b ∈ results) : ∃ a ∈ l, R a b :=
  exists_of_mem_left each.flip member

theorem exists_of_mem_mapM (done : l.mapM f = .ok results) {b : β} (member : b ∈ results) :
    ∃ a, a ∈ l ∧ f a = .ok b := by
  obtain ⟨a, isSource, -, given⟩ := exists_of_mem_right (forall₂_of_mapM_eq_ok done) member
  exact ⟨a, isSource, given⟩

theorem exists_result_of_mem (done : l.mapM f = .ok results) {a : α} (member : a ∈ l) :
    ∃ b ∈ results, f a = .ok b := by
  obtain ⟨b, isResult, -, given⟩ := exists_of_mem_left (forall₂_of_mapM_eq_ok done) member
  exact ⟨b, isResult, given⟩

end

end StaticSite
