import StaticSite.Markup.Minify
import StaticSite.Proofs.Replacement
import Mathlib.Data.List.Forall2
import Mathlib.Data.List.TakeWhile

/-!
# Kept elements

A kept element goes from the name of its tag to the first closing tag for that name. Both are found
by what they are made of, so an element stays one whatever follows it.
-/

namespace StaticSite.Markup

/-! ## Ends -/

/-- The text ends with its only `>`. -/
def EndsOnce (u : List Char) : Prop := ∃ v, '>' ∉ v ∧ u = v ++ ['>']

/-- What ends with its only `>` stands before or behind another `>`. -/
theorem EndsOnce.infix_cases {u before after : List Char} (ends : EndsOnce u)
    (within : u <:+: before ++ '>' :: after) : u <:+: before ++ ['>'] ∨ u <:+: after := by
  obtain ⟨v, unclosed, rfl⟩ := ends
  obtain ⟨front, back, whole⟩ := within
  have whole : front ++ v ++ ('>' :: back) = before ++ '>' :: after := by simpa using whole
  rcases List.append_eq_append_iff.mp whole with ⟨w, isBefore, isRest⟩ | ⟨w, isFront, isRest⟩
  · left
    cases w with
    | nil => exact ⟨front, [], by simp [isBefore]⟩
    | cons c w =>
      obtain ⟨rfl, -⟩ := List.cons.inj isRest
      exact ⟨front, w ++ ['>'], by simp [isBefore]⟩
  · cases w with
    | nil => exact .inl ⟨front, [], by rw [List.append_nil] at isFront; simp [← isFront]⟩
    | cons c w =>
      obtain ⟨rfl, rfl⟩ := List.cons.inj isRest
      rcases List.append_eq_append_iff.mp isFront with ⟨x, -, rfl⟩ | ⟨x, -, isRest'⟩
      · simp at unclosed
      · cases x with
        | nil =>
          rw [List.nil_append] at isRest'
          simp [← isRest'] at unclosed
        | cons d x =>
          obtain ⟨-, rfl⟩ := List.cons.inj isRest'
          exact .inr ⟨x, back, by simp⟩

theorem EndsOnce.prefix_append {u before after : List Char} (ends : EndsOnce u)
    (starts : u <+: before ++ '>' :: after) : u <+: before ++ ['>'] := by
  obtain ⟨v, unclosed, rfl⟩ := ends
  obtain ⟨rest, rfl⟩ :=
    Text.prefix_of_prefix_append_cons unclosed before ((List.prefix_append v _).trans starts)
  rw [List.append_assoc, List.prefix_append_right_inj] at starts ⊢
  cases rest with
  | nil => simp
  | cons c rest =>
    obtain ⟨rfl, -⟩ := List.cons_prefix_cons.mp starts
    simp

/-! ## Names -/

/-- A character that is neither blank nor a bracket. -/
def Solid (c : Char) : Prop := Text.isBlank c = false ∧ c ≠ '<' ∧ c ≠ '>'

instance : DecidablePred Solid := fun _ => inferInstanceAs (Decidable (_ ∧ _))

theorem foldLetter_eq_self {c : Char} (h : ¬ Solid c) : foldLetter c = c := by
  have code : c.toNat ≠ 0x130 ∧ ¬ (65 ≤ c.toNat ∧ c.toNat ≤ 90) := by
    simp only [Solid, not_and_or, Bool.not_eq_false, not_not] at h
    rcases h with blank | rfl | rfl
    · simp [Text.isBlank] at blank
      omega
    · decide
    · decide
  simp [foldLetter, Text.lowerAscii, code.1]
  omega

theorem Solid.of_foldLetter {c : Char} (solid : Solid (foldLetter c)) : Solid c := by
  by_contra h
  exact h (foldLetter_eq_self h ▸ solid)

/-- A name of letters that count as letters of tags. -/
def IsTagName (name : List Char) : Prop := ∀ c ∈ name, Solid (foldLetter c)

theorem solid_foldLetter {tag : String} (isRaw : tag ∈ rawTags) {letter c : Char}
    (inTag : letter ∈ tag.toList) (spells : isLetterOf letter c = true) : Solid (foldLetter c) := by
  have letters : ∀ tag ∈ rawTags, ∀ letter ∈ tag.toList, Solid letter := by
    simp [rawTags, Solid, Text.isBlank]
  have byCode {n : Nat} (isCode : c.toNat = n) (solid : Solid (foldLetter (Char.ofNat n))) :
      Solid (foldLetter c) := by
    rwa [← isCode, Char.ofNat_toNat] at solid
  simp only [isLetterOf, Bool.or_eq_true, Bool.and_eq_true, decide_eq_true_eq] at spells
  rcases spells with (same | ⟨-, long⟩) | ⟨-, dotless⟩
  · rw [same]
    exact letters tag isRaw letter inTag
  · exact byCode long (by decide)
  · exact byCode dotless (by decide)

section

variable {letters name s rest : List Char} {tag : String}

theorem takeSpelling?_eq_some : takeSpelling? letters s = some (name, rest) ↔
    s = name ++ rest ∧ List.Forall₂ (fun letter c => isLetterOf letter c = true) letters name := by
  induction letters generalizing name s rest with
  | nil =>
    rw [takeSpelling?, List.forall₂_nil_left_iff]
    constructor
    · rintro ⟨⟩
      exact ⟨rfl, rfl⟩
    · rintro ⟨rfl, rfl⟩
      rfl
  | cons letter letters ih =>
    cases s with
    | nil =>
      refine iff_of_false (by simp [takeSpelling?]) ?_
      rintro ⟨whole, spells⟩
      cases spells
      cases whole
    | cons c s =>
      rw [List.forall₂_cons_left_iff]
      by_cases same : isLetterOf letter c = true
      · simp only [takeSpelling?, same, if_true, Option.map_eq_some_iff, Prod.exists,
          Prod.mk.injEq, ih]
        constructor
        · rintro ⟨others, rest', ⟨rfl, spells⟩, rfl, rfl⟩
          exact ⟨rfl, c, others, same, spells, rfl⟩
        · rintro ⟨whole, d, others, -, spells, rfl⟩
          obtain ⟨rfl, rfl⟩ := List.cons.inj whole
          exact ⟨others, rest, ⟨rfl, spells⟩, rfl, rfl⟩
      · rw [takeSpelling?, if_neg same]
        refine iff_of_false (by simp) ?_
        rintro ⟨whole, d, others, spells, -, rfl⟩
        obtain ⟨rfl, -⟩ := List.cons.inj whole
        exact same spells

/-- How the name of one kept element is looked for. -/
def wholeName? (s : List Char) (tag : String) : Option (List Char) :=
  match takeSpelling? tag.toList s with
  | some (name, []) => some name
  | some (name, c :: _) => if Text.isWord c then none else some name
  | none => none

theorem rawName?_eq (s : List Char) : rawName? s = rawTags.findSome? (wholeName? s) := rfl

theorem wholeName?_eq_some : wholeName? s tag = some name ↔
    ∃ rest, s = name ++ rest ∧ (∀ c ∈ rest.head?, Text.isWord c = false) ∧
      List.Forall₂ (fun letter c => isLetterOf letter c = true) tag.toList name := by
  have spelled (rest : List Char) := @takeSpelling?_eq_some tag.toList name s rest
  constructor
  · intro found
    unfold wholeName? at found
    split at found
    next name' taken =>
      cases found
      obtain ⟨whole, spells⟩ := (spelled []).mp taken
      exact ⟨[], whole, by simp, spells⟩
    next name' c rest taken =>
      split at found
      · cases found
      next ends =>
        cases found
        obtain ⟨whole, spells⟩ := (spelled (c :: rest)).mp taken
        exact ⟨c :: rest, whole, by simpa using ends, spells⟩
    · cases found
  · rintro ⟨rest, whole, ends, spells⟩
    rw [wholeName?, (spelled rest).mpr ⟨whole, spells⟩]
    cases rest with
    | nil => rfl
    | cons c rest =>
      have notWord : Text.isWord c = false := ends c (by simp)
      simp [notWord]

theorem exists_letter
    (spells : List.Forall₂ (fun letter c => isLetterOf letter c = true) letters name) {c : Char}
    (member : c ∈ name) : ∃ letter ∈ letters, isLetterOf letter c = true := by
  induction spells with
  | nil => cases member
  | @cons letter d letters name same _ ih =>
    rcases List.mem_cons.mp member with rfl | later
    · exact ⟨letter, List.mem_cons_self .., same⟩
    · obtain ⟨other, inLetters, same⟩ := ih later
      exact ⟨other, List.mem_cons_of_mem _ inLetters, same⟩

theorem IsTagName.of_wholeName? (isRaw : tag ∈ rawTags) (found : wholeName? s tag = some name) :
    IsTagName name := by
  obtain ⟨rest, -, -, spells⟩ := wholeName?_eq_some.mp found
  intro c member
  obtain ⟨letter, inTag, spells⟩ := exists_letter spells member
  exact solid_foldLetter isRaw inTag spells

theorem IsTagName.of_rawName? (found : rawName? s = some name) : IsTagName name := by
  rw [rawName?_eq] at found
  obtain ⟨tag, isRaw, found⟩ := List.exists_of_findSome?_eq_some found
  exact .of_wholeName? isRaw found

theorem IsTagName.solid (isName : IsTagName name) {c : Char} (member : c ∈ name) : Solid c :=
  (isName c member).of_foldLetter

/-- Names are the same in texts that show the same ones. -/
theorem rawName?_congr {s t : List Char}
    (same : ∀ tag ∈ rawTags, wholeName? s tag = wholeName? t tag) : rawName? s = rawName? t := by
  have each : ∀ tags : List String, (∀ tag ∈ tags, wholeName? s tag = wholeName? t tag) →
      tags.findSome? (wholeName? s) = tags.findSome? (wholeName? t) := by
    intro tags same
    induction tags with
    | nil => rfl
    | cons tag tags ih =>
      obtain ⟨here, later⟩ := List.forall_mem_cons.mp same
      rw [List.findSome?_cons, List.findSome?_cons, here, ih later]
  exact each rawTags same

/-- A character that can stand neither in a name nor behind a part of one. -/
def IsBound (c : Char) : Prop := ¬ Solid c ∧ Text.isWord c = false

theorem isBound_closing : IsBound '>' := ⟨fun solid => solid.2.2 rfl, by decide⟩

/-- A name is found in front of a bound whatever follows. -/
theorem rawName?_bound {c d : Char} (bound : IsBound c) (bound' : IsBound d) (s x y : List Char) :
    rawName? (s ++ c :: x) = rawName? (s ++ d :: y) := by
  have oneWay (tag : String) (isRaw : tag ∈ rawTags) (name : List Char) {c d : Char}
      (bound : IsBound c) (bound' : IsBound d) (x y : List Char)
      (found : wholeName? (s ++ c :: x) tag = some name) :
      wholeName? (s ++ d :: y) tag = some name := by
    have unbound : c ∉ name := fun member =>
      bound.1 ((IsTagName.of_wholeName? isRaw found).solid member)
    obtain ⟨rest, whole, ends, spells⟩ := wholeName?_eq_some.mp found
    obtain ⟨between, rfl⟩ := Text.prefix_of_prefix_append_cons unbound s ⟨rest, whole.symm⟩
    rw [List.append_assoc, List.append_cancel_left_eq] at whole
    refine wholeName?_eq_some.mpr ⟨between ++ d :: y, by simp, ?_, spells⟩
    rw [← whole] at ends
    cases between with
    | nil => simpa using bound'.2
    | cons b between => simpa using ends
  refine rawName?_congr fun tag isRaw => Option.ext fun name => ?_
  exact ⟨oneWay tag isRaw name bound bound' x y, oneWay tag isRaw name bound' bound y x⟩

theorem rawName?_append (s x y : List Char) : rawName? (s ++ '>' :: x) = rawName? (s ++ '>' :: y) :=
  rawName?_bound isBound_closing isBound_closing s x y

end

/-! ## Closing tags -/

/-- A closing tag for a name. -/
def IsClosing (name u : List Char) : Prop :=
  ∃ spelled blanks, u = '<' :: '/' :: (spelled ++ blanks ++ ['>']) ∧
    spelled.map foldLetter = name.map foldLetter ∧ ∀ b ∈ blanks, Text.isBlank b = true

section

variable {name s : List Char} {length : Nat}

theorem dropName?_eq_some {rest : List Char} : dropName? name s = some rest ↔
    ∃ spelled, s = spelled ++ rest ∧ spelled.map foldLetter = name.map foldLetter := by
  induction name generalizing s with
  | nil => simp [dropName?]
  | cons n name ih =>
    cases s with
    | nil => simp [dropName?]
    | cons c s =>
      by_cases same : foldLetter n = foldLetter c
      · rw [dropName?, if_pos same, ih]
        constructor
        · rintro ⟨spelled, rfl, folded⟩
          exact ⟨c :: spelled, rfl, by simp [folded, same]⟩
        · rintro ⟨spelled, whole, folded⟩
          cases spelled with
          | nil => cases folded
          | cons d spelled =>
            exact ⟨spelled, (List.cons.inj whole).2, (List.cons.inj folded).2⟩
      · rw [dropName?, if_neg same]
        refine iff_of_false (by simp) ?_
        rintro ⟨spelled, whole, folded⟩
        cases spelled with
        | nil => cases folded
        | cons d spelled =>
          obtain ⟨rfl, -⟩ := List.cons.inj whole
          exact same (List.cons.inj folded).1.symm

theorem closingLength?_eq_some : closingLength? name s = some length ↔
    ∃ u rest, s = u ++ rest ∧ IsClosing name u ∧ u.length = length := by
  simp only [closingLength?, Option.bind_eq_bind, Option.bind_eq_some_iff, Text.dropMark?_eq_some,
    dropName?_eq_some, Option.ite_none_right_eq_some, Option.some.injEq]
  constructor
  · rintro ⟨_, rfl, after, ⟨spelled, rfl, folded⟩, closes, rfl⟩
    obtain ⟨rest, isRest⟩ := List.head?_eq_some_iff.mp closes
    have split : after.takeWhile Text.isBlank ++ '>' :: rest = after := by
      rw [← isRest, List.takeWhile_append_dropWhile]
    refine ⟨'<' :: '/' :: (spelled ++ after.takeWhile Text.isBlank ++ ['>']), rest, ?_,
      ⟨spelled, _, rfl, folded, fun b member => ?_⟩, ?_⟩
    · simp [split]
    · exact List.mem_takeWhile_imp member
    · have lengths := congrArg List.length split
      simp only [List.length_append, List.length_cons] at lengths
      simp [isRest]
      omega
  · rintro ⟨_, rest, rfl, ⟨spelled, blanks, rfl, folded, blank⟩, rfl⟩
    have after : (blanks ++ '>' :: rest).dropWhile Text.isBlank = '>' :: rest := by
      rw [List.dropWhile_append_of_pos blank, List.dropWhile_cons_of_neg (by decide)]
    refine ⟨spelled ++ (blanks ++ '>' :: rest), by simp, blanks ++ '>' :: rest,
      ⟨spelled, rfl, folded⟩, by rw [after]; rfl, ?_⟩
    rw [after]
    simp
    omega

theorem IsTagName.of_map_eq (isName : IsTagName name) {spelled : List Char}
    (folded : spelled.map foldLetter = name.map foldLetter) : IsTagName spelled := by
  intro c member
  have inName : foldLetter c ∈ name.map foldLetter := folded ▸ List.mem_map_of_mem member
  obtain ⟨n, inName, same⟩ := List.mem_map.mp inName
  exact same ▸ isName n inName

theorem IsClosing.endsOnce (isName : IsTagName name) {u : List Char} (closing : IsClosing name u) :
    EndsOnce u := by
  obtain ⟨spelled, blanks, rfl, folded, blank⟩ := closing
  refine ⟨'<' :: '/' :: (spelled ++ blanks), fun member => ?_, rfl⟩
  simp only [List.mem_cons, List.mem_append] at member
  rcases member with h | h | inName | inBlanks
  · cases h
  · cases h
  · exact ((isName.of_map_eq folded).solid inName).2.2 rfl
  · exact absurd (blank _ inBlanks) (by decide)

/-- The first closing tag is found whatever follows it. -/
theorem lengthToClosing?_eq_some (isName : IsTagName name)
    (found : lengthToClosing? name s = some length) :
    ∃ before u rest, s = before ++ u ++ rest ∧ IsClosing name u ∧ (before ++ u).length = length ∧
      ∀ other, lengthToClosing? name (before ++ u ++ other) = some length := by
  induction s generalizing length with
  | nil => cases found
  | cons c s ih =>
    unfold lengthToClosing? at found
    split at found
    next length' here =>
      cases found
      obtain ⟨u, rest, whole, closing, isLength⟩ := closingLength?_eq_some.mp here
      refine ⟨[], u, rest, whole, closing, isLength, fun other => ?_⟩
      have found := closingLength?_eq_some.mpr ⟨u, other, rfl, closing, isLength⟩
      obtain ⟨spelled, blanks, rfl, -⟩ := closing
      rw [List.nil_append, List.cons_append] at *
      rw [lengthToClosing?, found]
    next absent =>
      obtain ⟨length, later, rfl⟩ := Option.map_eq_some_iff.mp found
      obtain ⟨before, u, rest, rfl, closing, rfl, again⟩ := ih later
      refine ⟨c :: before, u, rest, rfl, closing, by simp, fun other => ?_⟩
      have absent' : closingLength? name (c :: (before ++ u ++ other)) = none := by
        rw [Option.eq_none_iff_forall_ne_some]
        intro length found
        obtain ⟨v, rest', whole, closing', isLength⟩ := closingLength?_eq_some.mp found
        obtain ⟨w, -, rfl⟩ := closing.endsOnce isName
        have starts : v <+: c :: (before ++ w) ++ '>' :: other := ⟨rest', by simp [← whole]⟩
        obtain ⟨between, same⟩ := (closing'.endsOnce isName).prefix_append starts
        have whole' : c :: (before ++ (w ++ ['>']) ++ rest) = v ++ (between ++ rest) := by
          rw [← List.append_assoc v, same]
          simp
        rw [closingLength?_eq_some.mpr ⟨v, _, whole', closing', isLength⟩] at absent
        cases absent
      rw [List.cons_append, List.cons_append, lengthToClosing?, absent', again]
      rfl

theorem isSome_lengthToClosing?_iff :
    (lengthToClosing? name s).isSome ↔ ∃ u, IsClosing name u ∧ u <:+: s := by
  induction s with
  | nil =>
    refine iff_of_false (by simp [lengthToClosing?]) ?_
    rintro ⟨u, ⟨spelled, blanks, rfl, -⟩, within⟩
    cases List.infix_nil.mp within
  | cons c s ih =>
    unfold lengthToClosing?
    split
    next length here =>
      obtain ⟨u, rest, whole, closing, -⟩ := closingLength?_eq_some.mp here
      exact iff_of_true rfl ⟨u, closing, [], rest, whole.symm⟩
    next absent =>
      rw [Option.isSome_map, ih]
      refine exists_congr fun u => and_congr_right fun closing => ?_
      rw [List.infix_cons_iff]
      refine (or_iff_right ?_).symm
      rintro ⟨rest, whole⟩
      rw [closingLength?_eq_some.mpr ⟨u, rest, whole.symm, closing, rfl⟩] at absent
      cases absent

end

/-! ## Elements -/

section

variable {s : List Char} {length : Nat}

theorem prefix_of_rawName? {name : List Char} (found : rawName? s = some name) : name <+: s := by
  rw [rawName?_eq] at found
  obtain ⟨tag, -, found⟩ := List.exists_of_findSome?_eq_some found
  obtain ⟨rest, whole, -⟩ := wholeName?_eq_some.mp found
  exact ⟨rest, whole.symm⟩

theorem rawLength?_eq_some : rawLength? s = some length ↔
    ∃ name rest toClosing, s = '<' :: (name ++ rest) ∧ rawName? (name ++ rest) = some name ∧
      lengthToClosing? name rest = some toClosing ∧ 1 + name.length + toClosing = length := by
  constructor
  · intro found
    unfold rawLength? at found
    split at found
    next inside =>
      simp only [Option.bind_eq_bind, Option.bind_eq_some_iff, Option.some.injEq] at found
      obtain ⟨name, named, toClosing, closes, rfl⟩ := found
      obtain ⟨rest, rfl⟩ := prefix_of_rawName? named
      rw [List.drop_left] at closes
      exact ⟨name, rest, toClosing, rfl, named, closes, rfl⟩
    · cases found
  · rintro ⟨name, rest, toClosing, rfl, named, closes, rfl⟩
    simp [rawLength?, named, closes]

theorem isSome_rawLength?_iff : (rawLength? s).isSome ↔
    ∃ name rest u, s = '<' :: (name ++ rest) ∧ rawName? (name ++ rest) = some name ∧
      IsClosing name u ∧ u <:+: rest := by
  rw [Option.isSome_iff_exists]
  simp only [rawLength?_eq_some]
  constructor
  · rintro ⟨_, name, rest, toClosing, whole, named, closes, -⟩
    obtain ⟨u, closing, within⟩ := isSome_lengthToClosing?_iff.mp (Option.isSome_of_eq_some closes)
    exact ⟨name, rest, u, whole, named, closing, within⟩
  · rintro ⟨name, rest, u, whole, named, closing, within⟩
    obtain ⟨toClosing, closes⟩ :=
      Option.isSome_iff_exists.mp (isSome_lengthToClosing?_iff.mpr ⟨u, closing, within⟩)
    exact ⟨_, name, rest, toClosing, whole, named, closes, rfl⟩

theorem rawLength?_eq_none {s : List Char} (unclosed : '>' ∉ s) : rawLength? s = none := by
  rw [← Option.not_isSome_iff_eq_none, isSome_rawLength?_iff]
  rintro ⟨name, rest, u, rfl, named, closing, within⟩
  obtain ⟨v, -, rfl⟩ := closing.endsOnce (.of_rawName? named)
  have closed : '>' ∈ rest := within.subset (by simp)
  exact unclosed (by simp [closed])

/-- A kept element is found whatever follows it. -/
theorem rawLength?_split (found : rawLength? s = some length) :
    ∃ inside rest, s = '<' :: inside ++ '>' :: rest ∧ inside.length + 2 = length ∧
      ∀ other, rawLength? ('<' :: inside ++ '>' :: other) = some length := by
  obtain ⟨name, rest, toClosing, rfl, named, closes, rfl⟩ := rawLength?_eq_some.mp found
  have isName : IsTagName name := .of_rawName? named
  obtain ⟨before, u, rest, rfl, closing, rfl, again⟩ := lengthToClosing?_eq_some isName closes
  obtain ⟨v, -, rfl⟩ := closing.endsOnce isName
  refine ⟨name ++ before ++ v, rest, by simp, by simp; omega, fun other => ?_⟩
  refine rawLength?_eq_some.mpr ⟨name, before ++ (v ++ ['>']) ++ other, _, by simp, ?_, again other,
    rfl⟩
  have same := rawName?_append (name ++ before ++ v) other rest
  have here : name ++ before ++ v ++ '>' :: rest = name ++ (before ++ (v ++ ['>']) ++ rest) := by simp
  have there : name ++ before ++ v ++ '>' :: other = name ++ (before ++ (v ++ ['>']) ++ other) := by
    simp
  rwa [here, there, named] at same

end

end StaticSite.Markup
