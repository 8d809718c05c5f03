import StaticSite.Proofs.Uncommenting

/-!
# Tightened text

Blanks become one space or go where a tag follows. A text so tightened opens and closes nothing that
was not opened or closed before.
-/

namespace StaticSite.Markup

/-- The second text is the first with each run of blanks as a space, or gone in front of a `<`. -/
inductive Tightened : List Char → List Char → Prop
  | nil : Tightened [] []
  | keep (c : Char) {s t : List Char} (rest : Tightened s t) : Tightened (c :: s) (c :: t)
  | space {b : Char} {s t : List Char} (blank : Text.isBlank b = true) (rest : Tightened s t) :
    Tightened (b :: s) (' ' :: t)
  | drop {b c : Char} {s t : List Char} (blank : Text.isBlank b = true) (follows : c = ' ' ∨ c = '<')
    (rest : Tightened s (c :: t)) : Tightened (b :: s) (c :: t)

namespace Tightened

variable {s t u : List Char}

theorem append_left (tightened : Tightened s t) : (u : List Char) → Tightened (u ++ s) (u ++ t)
  | [] => tightened
  | c :: u => .keep c (tightened.append_left u)

theorem of_blanks {blanks : List Char} (tightened : Tightened s t)
    (blank : ∀ b ∈ blanks, Text.isBlank b = true) (nonempty : blanks ≠ []) :
    Tightened (blanks ++ s) (' ' :: t) := by
  induction blanks with
  | nil => exact absurd rfl nonempty
  | cons b blanks ih =>
    obtain ⟨here, later⟩ := List.forall_mem_cons.mp blank
    cases blanks with
    | nil => exact .space here tightened
    | cons b' blanks => exact .drop here (.inl rfl) (ih later (by simp))

theorem of_dropped {blanks : List Char} (tightened : Tightened s ('<' :: t))
    (blank : ∀ b ∈ blanks, Text.isBlank b = true) : Tightened (blanks ++ s) ('<' :: t) := by
  induction blanks with
  | nil => exact tightened
  | cons b blanks ih =>
    obtain ⟨here, later⟩ := List.forall_mem_cons.mp blank
    exact .drop here (.inr rfl) (ih later)

theorem mem (tightened : Tightened s t) {c : Char} (member : c ∈ t) : c = ' ' ∨ c ∈ s := by
  induction tightened with
  | nil => cases member
  | keep d rest ih =>
    rcases List.mem_cons.mp member with rfl | later
    · exact .inr (List.mem_cons_self ..)
    · exact (ih later).imp_right (List.mem_cons_of_mem _)
  | space blank rest ih =>
    rcases List.mem_cons.mp member with rfl | later
    · exact .inl rfl
    · exact (ih later).imp_right (List.mem_cons_of_mem _)
  | drop blank follows rest ih => exact (ih member).imp_right (List.mem_cons_of_mem _)

/-- What has been tightened behind some text stood behind some text. -/
theorem exists_suffix (tightened : Tightened s (u ++ t)) :
    ∃ front rest, s = front ++ rest ∧ Tightened rest t := by
  generalize whole : u ++ t = w at tightened
  induction tightened generalizing u with
  | nil =>
    obtain ⟨rfl, rfl⟩ := List.append_eq_nil_iff.mp whole
    exact ⟨[], [], rfl, .nil⟩
  | @keep c s w rest ih =>
    cases u with
    | nil => exact ⟨[], c :: s, rfl, by rw [← List.nil_append t, whole]; exact .keep c rest⟩
    | cons d u =>
      obtain ⟨front, rest', rfl, tight⟩ := ih (List.cons.inj whole).2
      exact ⟨c :: front, rest', rfl, tight⟩
  | @space b s w blank rest ih =>
    cases u with
    | nil => exact ⟨[], b :: s, rfl, by rw [← List.nil_append t, whole]; exact .space blank rest⟩
    | cons d u =>
      obtain ⟨front, rest', rfl, tight⟩ := ih (List.cons.inj whole).2
      exact ⟨b :: front, rest', rfl, tight⟩
  | @drop b c s w blank follows rest ih =>
    obtain ⟨front, rest', rfl, tight⟩ := ih whole
    exact ⟨b :: front, rest', rfl, tight⟩

/-- Characters that are neither blank nor `<` have stood as they stand. -/
theorem exists_rest {mark : List Char} (solid : ∀ c ∈ mark, Text.isBlank c = false ∧ c ≠ '<')
    (tightened : Tightened s (mark ++ t)) : ∃ rest, s = mark ++ rest ∧ Tightened rest t := by
  induction mark generalizing s with
  | nil => exact ⟨s, rfl, tightened⟩
  | cons m mark ih =>
    obtain ⟨⟨notBlank, notOpening⟩, later⟩ := List.forall_mem_cons.mp solid
    have notSpace : m ≠ ' ' := by
      rintro rfl
      cases notBlank
    cases tightened with
    | keep _ rest =>
      obtain ⟨s', rfl, rest'⟩ := ih later rest
      exact ⟨s', rfl, rest'⟩
    | space blank rest => exact absurd rfl notSpace
    | drop blank follows rest => exact absurd follows (by simp [notSpace, notOpening])

theorem exists_tightened {mark : List Char} (solid : ∀ c ∈ mark, Text.isBlank c = false)
    (tightened : Tightened (mark ++ s) t) : ∃ rest, t = mark ++ rest ∧ Tightened s rest := by
  induction mark generalizing t with
  | nil => exact ⟨t, rfl, tightened⟩
  | cons m mark ih =>
    obtain ⟨notBlank, later⟩ := List.forall_mem_cons.mp solid
    cases tightened with
    | keep _ rest =>
      obtain ⟨t', rfl, rest'⟩ := ih later rest
      exact ⟨t', rfl, rest'⟩
    | space blank rest => rw [notBlank] at blank; cases blank
    | drop blank follows rest => rw [notBlank] at blank; cases blank

theorem exists_opening (tightened : Tightened s ('<' :: t)) :
    ∃ front rest, s = front ++ '<' :: rest ∧ Tightened rest t := by
  generalize whole : '<' :: t = w at tightened
  induction tightened with
  | nil => cases whole
  | @keep c s w rest ih =>
    obtain ⟨rfl, rfl⟩ := List.cons.inj whole
    exact ⟨[], s, rfl, rest⟩
  | space blank rest ih => cases whole
  | @drop b c s w blank follows rest ih =>
    obtain ⟨front, rest', rfl, tight⟩ := ih whole
    exact ⟨b :: front, rest', rfl, tight⟩

theorem exists_closing {blanks : List Char} (blank : ∀ b ∈ blanks, Text.isBlank b = true)
    (tightened : Tightened s (blanks ++ '>' :: t)) :
    ∃ blanks' rest, s = blanks' ++ '>' :: rest ∧ ∀ b ∈ blanks', Text.isBlank b = true := by
  generalize whole : blanks ++ '>' :: t = w at tightened
  induction tightened generalizing blanks with
  | nil => simp at whole
  | @keep c s w rest ih =>
    cases blanks with
    | nil =>
      obtain ⟨rfl, -⟩ := List.cons.inj whole
      exact ⟨[], s, rfl, by simp⟩
    | cons b blanks =>
      obtain ⟨rfl, inner⟩ := List.cons.inj whole
      obtain ⟨here, later⟩ := List.forall_mem_cons.mp blank
      obtain ⟨blanks', rest', rfl, blank'⟩ := ih later inner
      exact ⟨b :: blanks', rest', rfl, List.forall_mem_cons.mpr ⟨here, blank'⟩⟩
  | @space b s w here rest ih =>
    cases blanks with
    | nil => cases whole
    | cons b' blanks =>
      obtain ⟨blanks', rest', rfl, blank'⟩ :=
        ih (List.forall_mem_cons.mp blank).2 (List.cons.inj whole).2
      exact ⟨b :: blanks', rest', rfl, List.forall_mem_cons.mpr ⟨here, blank'⟩⟩
  | @drop b c s w here follows rest ih =>
    obtain ⟨blanks', rest', rfl, blank'⟩ := ih blank whole
    exact ⟨b :: blanks', rest', rfl, List.forall_mem_cons.mpr ⟨here, blank'⟩⟩

/-! ## Marks, names and closing tags -/

theorem mark_infix {mark : List Char} (solid : ∀ c ∈ mark, Text.isBlank c = false ∧ c ≠ '<')
    (tightened : Tightened s t) (within : mark <:+: t) : mark <:+: s := by
  obtain ⟨front, back, rfl⟩ := within
  rw [List.append_assoc] at tightened
  obtain ⟨front', s', rfl, tight⟩ := tightened.exists_suffix
  obtain ⟨rest, rfl, -⟩ := tight.exists_rest solid
  exact ⟨front', rest, by simp⟩

theorem closing_infix {name : List Char} (isName : IsTagName name) (closing : IsClosing name u)
    (tightened : Tightened s t) (within : u <:+: t) : ∃ v, IsClosing name v ∧ v <:+: s := by
  obtain ⟨spelled, blanks, rfl, folded, blank⟩ := closing
  have solid : ∀ c ∈ '/' :: spelled, Text.isBlank c = false ∧ c ≠ '<' := by
    refine List.forall_mem_cons.mpr ⟨by decide, fun c member => ?_⟩
    have isSolid := (isName.of_map_eq folded).solid member
    exact ⟨isSolid.1, isSolid.2.1⟩
  obtain ⟨front, back, rfl⟩ := within
  have tightened : Tightened s (front ++ ('<' :: ('/' :: spelled ++ (blanks ++ '>' :: back)))) := by
    simpa using tightened
  obtain ⟨front', fromFront, rfl, opens⟩ := tightened.exists_suffix
  obtain ⟨between, fromOpening, rfl, names⟩ := opens.exists_opening
  obtain ⟨fromName, rfl, closes⟩ := names.exists_rest solid
  obtain ⟨blanks', rest, rfl, blank'⟩ := closes.exists_closing blank
  exact ⟨_, ⟨spelled, blanks', rfl, folded, blank'⟩, front' ++ between, rest, by simp⟩

theorem isWord_eq_false {c : Char} (blank : Text.isBlank c = true) : Text.isWord c = false :=
  Text.forall_isBlank (p := (Text.isWord · = false)) (by decide +kernel) blank

/-- Where a word ends it has ended before. -/
theorem head?_isWord (tightened : Tightened s t) :
    (∀ c ∈ s.head?, Text.isWord c = false) ↔ ∀ c ∈ t.head?, Text.isWord c = false := by
  cases tightened with
  | nil => rfl
  | keep c rest => simp
  | space blank rest =>
    have space : Text.isWord ' ' = false := by decide
    simp [isWord_eq_false blank, space]
  | @drop b c s t blank follows rest =>
    have noWord : Text.isWord c = false := by rcases follows with rfl | rfl <;> decide
    simp [isWord_eq_false blank, noWord]

theorem wholeName?_eq {tag : String} (isRaw : tag ∈ rawTags) (tightened : Tightened s t) :
    wholeName? s tag = wholeName? t tag := by
  refine Option.ext fun name => ⟨fun found => ?_, fun found => ?_⟩
  · have isName := IsTagName.of_wholeName? isRaw found
    obtain ⟨rest, rfl, ends, spells⟩ := wholeName?_eq_some.mp found
    obtain ⟨rest', rfl, tight⟩ := tightened.exists_tightened fun c member =>
      (isName.solid member).1
    exact wholeName?_eq_some.mpr ⟨rest', rfl, tight.head?_isWord.mp ends, spells⟩
  · have isName := IsTagName.of_wholeName? isRaw found
    obtain ⟨rest, rfl, ends, spells⟩ := wholeName?_eq_some.mp found
    obtain ⟨rest', rfl, tight⟩ := tightened.exists_rest fun c member =>
      ⟨(isName.solid member).1, (isName.solid member).2.1⟩
    exact wholeName?_eq_some.mpr ⟨rest', rfl, tight.head?_isWord.mpr ends, spells⟩

/-- No kept element comes about. -/
theorem rawLength?_eq_none (tightened : Tightened s t) (absent : rawLength? ('<' :: s) = none) :
    rawLength? ('<' :: t) = none := by
  rw [← Option.not_isSome_iff_eq_none, isSome_rawLength?_iff] at absent ⊢
  rintro ⟨name, rest, u, whole, named, closing, within⟩
  cases whole
  have isName : IsTagName name := .of_rawName? named
  have same := rawName?_congr fun tag isRaw => tightened.wholeName?_eq isRaw
  obtain ⟨rest', rfl, tight⟩ := tightened.exists_rest fun c member =>
    ⟨(isName.solid member).1, (isName.solid member).2.1⟩
  obtain ⟨v, closing', within'⟩ := tight.closing_infix isName closing within
  exact absent ⟨name, rest', v, rfl, same.trans named, closing', within'⟩

/-- No comment comes about. -/
theorem comment?_eq_none {conditional : Bool} (tightened : Tightened s t)
    (absent : comment? conditional ('<' :: s) = none) : comment? conditional ('<' :: t) = none := by
  rw [← Option.not_isSome_iff_eq_none, isSome_comment?_iff] at absent ⊢
  rintro ⟨body, whole, plain, closed⟩
  obtain rfl : t = ['!', '-', '-'] ++ body := (List.cons.inj whole).2
  obtain ⟨body', rfl, tight⟩ := tightened.exists_rest (by simp [Text.isBlank])
  refine absent ⟨body', rfl, fun unconditional starts => plain unconditional ?_,
    tight.mark_infix (by simp [Text.isBlank]) closed⟩
  obtain ⟨rest, rfl⟩ := starts
  obtain ⟨rest', rfl, -⟩ := tight.exists_tightened (by simp [Text.isBlank])
  exact List.prefix_append ..

end Tightened

end StaticSite.Markup
