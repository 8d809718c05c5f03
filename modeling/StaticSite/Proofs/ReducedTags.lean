import StaticSite.Proofs.Reduction
import StaticSite.Proofs.TagReading

/-!
# Written tags in reduced markup

Reducing knows no quotes. Of the value of an attribute it leaves what it leaves of text: characters
of code zero go, and each run of blanks becomes one space. All else of a written tag stays.
-/

namespace StaticSite.Markup

/-! ## Squashed words -/

section

variable {blank : Char → Bool}

theorem squash_word {word : List Char} (solid : ∀ c ∈ word, blank c = false) (filled : word ≠ [])
    (pending : Bool) (rest : List Char) :
    squash blank pending (word ++ rest) =
      (if pending then [' '] else []) ++ word ++ squash blank false rest := by
  induction word generalizing pending with
  | nil => exact absurd rfl filled
  | cons c word ih =>
    obtain ⟨here, later⟩ := List.forall_mem_cons.mp solid
    have inner : squash blank false (word ++ rest) = word ++ squash blank false rest := by
      cases word with
      | nil => rfl
      | cons d word => exact ih later (List.cons_ne_nil _ _) false
    cases pending <;> simp [squash, here, inner]

/-- What stands on the two sides of a solid character is squashed by itself. -/
theorem squash_append_cons {c : Char} (solid : blank c = false) (pending : Bool) (s t : List Char) :
    squash blank pending (s ++ c :: t) = squash blank pending s ++ c :: squash blank false t := by
  induction s generalizing pending with
  | nil => cases pending <;> simp [squash, solid]
  | cons d s ih =>
    rw [List.cons_append]
    cases isBlank : blank d with
    | true => simp only [squash, isBlank, if_true, ih]
    | false => cases pending <;> simp [squash, isBlank, ih]

end

/-! ## Values -/

/-- What is left of a text in reduced markup. -/
def reducedText (s : List Char) : List Char := squash Text.isBlank false (dropNuls s)

/-- Whether a text has no character of code zero, no blank but the space, and no two in a row. -/
def isTight : List Char → Bool
  | [] => true
  | c :: s =>
    c.toNat ≠ 0 && (!Text.isBlank c || (c = ' ' && !s.head?.any Text.isBlank)) && isTight s

theorem isTight_squash {s : List Char} (noNul : ∀ c ∈ s, c.toNat ≠ 0) (pending : Bool) :
    isTight (squash Text.isBlank pending s) = true := by
  have space : Text.isBlank ' ' = true := by decide
  induction s generalizing pending with
  | nil => cases pending <;> decide
  | cons c s ih =>
    obtain ⟨here, later⟩ := List.forall_mem_cons.mp noNul
    cases blank : Text.isBlank c with
    | true => simpa only [squash, blank, if_true] using ih later true
    | false => cases pending <;> simp [squash, isTight, blank, here, ih later]

theorem reducedText_of_isTight {s : List Char} (tight : isTight s = true) : reducedText s = s := by
  induction s with
  | nil => rfl
  | cons c s ih =>
    simp only [isTight, Bool.and_eq_true, decide_eq_true_eq] at tight
    obtain ⟨⟨noNul, single⟩, later⟩ := tight
    have kept : dropNuls (c :: s) = c :: dropNuls s :=
      List.filter_cons_of_pos (by simpa using noNul)
    have rest : squash Text.isBlank false (dropNuls s) = s := ih later
    rw [reducedText, kept]
    cases blank : Text.isBlank c with
    | false => simp [squash, blank, rest]
    | true =>
      simp only [blank, Bool.not_true, Bool.false_or, Bool.and_eq_true, decide_eq_true_eq,
        Bool.not_eq_true'] at single
      obtain ⟨rfl, solid⟩ := single
      rw [squash, if_pos blank]
      cases s with
      | nil => rfl
      | cons d s =>
        have solid' : Text.isBlank d = false := by simpa using solid
        simp only [isTight, Bool.and_eq_true, decide_eq_true_eq] at later
        have kept' : dropNuls (d :: s) = d :: dropNuls s :=
          List.filter_cons_of_pos (by simpa using later.1.1)
        rw [kept'] at rest ⊢
        simpa [squash, solid'] using rest

/-- The tight texts are exactly those that read the same in reduced markup. -/
theorem reducedText_eq_self_iff (s : List Char) : reducedText s = s ↔ isTight s = true := by
  refine ⟨fun same => ?_, reducedText_of_isTight⟩
  have noNul : ∀ c ∈ dropNuls s, c.toNat ≠ 0 := fun c member => by
    simpa using (List.mem_filter.mp member).2
  rw [← same]
  exact isTight_squash noNul false

/--
A character is written as itself, or else it is neither blank nor of code zero, and so is each
character that it is written with.
-/
theorem escapeChar_cases (c : Char) : escapeChar c = [c] ∨
    (Text.isBlank c = false ∧ c.toNat ≠ 0) ∧ escapeChar c ≠ [] ∧
      ∀ d ∈ escapeChar c, Text.isBlank d = false ∧ d.toNat ≠ 0 := by
  have marks : ∀ c ∈ ['&', '<', '>', '"', '\''], (Text.isBlank c = false ∧ c.toNat ≠ 0) ∧
      escapeChar c ≠ [] ∧ ∀ d ∈ escapeChar c, Text.isBlank d = false ∧ d.toNat ≠ 0 := by decide
  by_cases mark : c ∈ ['&', '<', '>', '"', '\'']
  · exact .inr (marks c mark)
  · simp only [List.mem_cons, List.not_mem_nil, or_false, not_or] at mark
    have noApostrophe : c.toNat ≠ 39 := fun same =>
      mark.2.2.2.2 (Char.toNat_inj.mp (same.trans (by decide)))
    exact .inl (by simp [escapeChar, mark, noApostrophe])

theorem squash_escapeChars (pending : Bool) (s : List Char) :
    squash Text.isBlank pending (escapeChars s) = escapeChars (squash Text.isBlank pending s) := by
  have space : escapeChar ' ' = [' '] := by decide
  induction s generalizing pending with
  | nil => cases pending <;> decide
  | cons c s ih =>
    have split : escapeChars (c :: s) = escapeChar c ++ escapeChars s := rfl
    rw [split]
    rcases escapeChar_cases c with same | ⟨⟨solid, -⟩, filled, inner⟩
    · rw [same, List.singleton_append]
      cases blank : Text.isBlank c with
      | true => simp only [squash, blank, if_true, ih]
      | false => cases pending <;> simpa [squash, blank, escapeChars, space, same] using ih false
    · rw [squash_word (fun d member => (inner d member).1) filled, ih]
      cases pending <;> simp [squash, solid, escapeChars, space]

theorem dropNuls_escapeChars (s : List Char) :
    dropNuls (escapeChars s) = escapeChars (dropNuls s) := by
  induction s with
  | nil => rfl
  | cons c s ih =>
    have split : escapeChars (c :: s) = escapeChar c ++ escapeChars s := rfl
    rw [split, dropNuls_append, ih]
    rcases escapeChar_cases c with same | ⟨⟨-, noNul⟩, -, inner⟩
    · by_cases nul : c.toNat = 0 <;> simp [dropNuls, escapeChars, same, nul]
    · have kept : dropNuls (escapeChar c) = escapeChar c :=
        List.filter_eq_self.mpr fun d member => by simpa using (inner d member).2
      rw [kept]
      simp [dropNuls, escapeChars, noNul]

theorem reducedText_escapeChars (s : List Char) :
    reducedText (escapeChars s) = escapeChars (reducedText s) := by
  rw [reducedText, dropNuls_escapeChars, squash_escapeChars, reducedText]

/-! ## Tags -/

/-- An attribute with what is left of its value. -/
def Attribute.reduced : Attribute → Attribute
  | .value name text => .value name (String.ofList (reducedText text.toList))
  | .flag name => .flag name

theorem found_reduced (attr : Attribute) : attr.reduced.found = attr.found.map reducedText := by
  cases attr <;> simp [Attribute.reduced, Attribute.found, Found.map]

theorem isBlank_of_isMark {c : Char} (mark : isMark c = true) :
    Text.isBlank c = false ∧ c.toNat ≠ 0 := by
  have code := (code_of_isMark mark).1
  exact ⟨Text.isBlank_eq_false (by decide) mark, by omega⟩

theorem dropNuls_of_marks {name : List Char} (marks : ∀ c ∈ name, isMark c = true) :
    dropNuls name = name :=
  List.filter_eq_self.mpr fun c member => by simpa using (isBlank_of_isMark (marks c member)).2

theorem squash_name {name : List Char} (plain : isPlainName name = true) (rest : List Char) :
    squash Text.isBlank false (' ' :: (name ++ rest)) =
      ' ' :: (name ++ squash Text.isBlank false rest) := by
  have marks := isMark_of_mem_isPlainName plain
  have filled : name ≠ [] := by
    rintro rfl
    cases plain
  have first : squash Text.isBlank false (' ' :: (name ++ rest)) =
      squash Text.isBlank true (name ++ rest) := rfl
  rw [first, squash_word (fun c member => (isBlank_of_isMark (marks c member)).1) filled]
  rfl

/-- An attribute is reduced by itself. -/
theorem squash_attribute {attr : Attribute} (plain : isPlainName attr.name.toList = true)
    (rest : List Char) :
    squash Text.isBlank false (dropNuls attr.write.toList ++ rest) =
      attr.reduced.write.toList ++ squash Text.isBlank false rest := by
  cases attr with
  | flag name =>
    change isPlainName name.toList = true at plain
    have noNul := dropNuls_of_marks (isMark_of_mem_isPlainName plain)
    have written : (Attribute.flag name).write.toList = [' '] ++ name.toList := by
      simp [Attribute.write]
    have space : dropNuls [' '] = [' '] := by decide
    rw [Attribute.reduced, written, dropNuls_append, noNul, space, List.append_assoc]
    exact squash_name plain rest
  | value name text =>
    change isPlainName name.toList = true at plain
    have noNul := dropNuls_of_marks (isMark_of_mem_isPlainName plain)
    have dropped : dropNuls (Attribute.value name text).write.toList =
        ' ' :: (name.toList ++ '=' :: '"' :: (dropNuls (escapeChars text.toList) ++ ['"'])) := by
      have written : (Attribute.value name text).write.toList =
          [' '] ++ name.toList ++ ['=', '"'] ++ escapeChars text.toList ++ ['"'] := by
        simp [Attribute.write]
      have space : dropNuls [' '] = [' '] := by decide
      have opening : dropNuls ['=', '"'] = ['=', '"'] := by decide
      have closing : dropNuls ['"'] = ['"'] := by decide
      rw [written, dropNuls_append, dropNuls_append, dropNuls_append, dropNuls_append, noNul, space,
        opening, closing]
      simp only [List.append_assoc, List.cons_append, List.nil_append]
    have equals : Text.isBlank '=' = false := by decide
    have quote : Text.isBlank '"' = false := by decide
    have shown : (Attribute.value name text).reduced.write.toList =
        ' ' :: (name.toList ++ '=' :: '"' :: (escapeChars (reducedText text.toList) ++ ['"'])) := by
      simp [Attribute.reduced, Attribute.write]
    rw [dropped, shown, List.cons_append, List.append_assoc, squash_name plain]
    simp only [List.cons_append, List.append_assoc, List.nil_append, squash, equals, quote,
      squash_append_cons quote, Bool.false_eq_true, if_false]
    rw [← reducedText_escapeChars]
    rfl

theorem squash_attributes {attributes : List Attribute}
    (plain : ∀ attr ∈ attributes, isPlainName attr.name.toList = true) (rest : List Char) :
    squash Text.isBlank false
        (dropNuls (String.join (attributes.map Attribute.write)).toList ++ rest) =
      (String.join ((attributes.map Attribute.reduced).map Attribute.write)).toList ++
        squash Text.isBlank false rest := by
  induction attributes with
  | nil => rfl
  | cons attr attributes ih =>
    obtain ⟨here, later⟩ := List.forall_mem_cons.mp plain
    rw [List.map_cons, String.join_cons, String.toList_append, dropNuls_append, List.append_assoc,
      squash_attribute here, ih later]
    simp only [List.map_cons, String.join_cons, String.toList_append, List.append_assoc]

/-- A tag that opens no kept element. -/
structure Tag.IsFree (tag : String) (attributes : List Attribute) : Prop
    extends Tag.IsPlain tag attributes where
  free : rawName? (tag.toList ++ ['>']) = none

/-- What stands between the brackets of an opening tag. -/
def tagInside (tag : String) (attributes : List Attribute) : List Char :=
  tag.toList ++ (String.join (attributes.map Attribute.write)).toList

theorem toList_openTag (tag : String) (attributes : List Attribute) :
    (openTag tag attributes).toList = '<' :: (tagInside tag attributes ++ ['>']) := by
  simp [openTag, tagInside]

section

variable {tag : String} {attributes : List Attribute}

theorem not_mem_write {attr : Attribute} (plain : isPlainName attr.name.toList = true) :
    '>' ∉ attr.write.toList ∧ '<' ∉ attr.write.toList := by
  have marks := isMark_of_mem_isPlainName plain
  have noName (d : Char) (other : isMark d = false) : d ∉ attr.name.toList := fun member => by
    rw [marks d member] at other
    cases other
  have noClosing := noName '>' (by decide)
  have noOpening := noName '<' (by decide)
  cases attr with
  | value name text =>
    have ⟨_, single, unclosed⟩ := not_mem_escapeChars text.toList
    rw [toList_write_value]
    simp_all [Attribute.name]
  | flag name => simp_all [Attribute.name, Attribute.write]

theorem not_mem_tagInside (plain : Tag.IsPlain tag attributes) :
    '>' ∉ tagInside tag attributes ∧ '<' ∉ tagInside tag attributes := by
  have marks := isMark_of_mem_isPlainName plain.name
  have inAttributes (d : Char) (each : ∀ attr ∈ attributes, d ∉ attr.write.toList) :
      d ∉ (String.join (attributes.map Attribute.write)).toList := by
    rw [String.toList_join]
    simpa using each
  have absent (d : Char) (other : isMark d = false) (each : ∀ attr ∈ attributes,
      d ∉ attr.write.toList) : d ∉ tagInside tag attributes := by
    rw [tagInside, List.mem_append]
    rintro (inName | inRest)
    · rw [marks d inName] at other
      cases other
    · exact inAttributes d each inRest
  exact ⟨absent '>' (by decide) fun attr member => (not_mem_write (plain.attributes attr member)).1,
    absent '<' (by decide) fun attr member => (not_mem_write (plain.attributes attr member)).2⟩

theorem exists_toList_write (attr : Attribute) : ∃ rest, attr.write.toList = ' ' :: rest := by
  cases attr with
  | value name text => exact ⟨_, toList_write_value name text⟩
  | flag name => exact ⟨name.toList, by simp [Attribute.write]⟩

/-- Behind the name of a tag stands a blank or the end of the tag. -/
theorem exists_bound (tag : String) (attributes : List Attribute) :
    ∃ c rest, IsBound c ∧
      dropNuls (tagInside tag attributes) ++ ['>'] = dropNuls tag.toList ++ c :: rest := by
  cases attributes with
  | nil => exact ⟨'>', [], isBound_closing, by simp [tagInside]⟩
  | cons attr attributes =>
    obtain ⟨rest, blank⟩ := exists_toList_write attr
    have isBound : IsBound ' ' := ⟨fun solid => absurd solid.1 (by decide), by decide⟩
    refine ⟨' ', dropNuls (rest ++ (String.join (attributes.map Attribute.write)).toList) ++ ['>'],
      isBound, ?_⟩
    rw [tagInside, List.map_cons, String.join_cons, String.toList_append, blank, dropNuls_append,
      List.append_assoc]
    rfl

theorem Tag.IsFree.isOrdinary (free : Tag.IsFree tag attributes) :
    IsOrdinary (tagInside tag attributes) := by
  have absent := not_mem_tagInside free.toIsPlain
  have marks := isMark_of_mem_isPlainName free.name
  refine ⟨absent.1, absent.2, ?_, ?_⟩
  · obtain ⟨c, rest, bound, split⟩ := exists_bound tag attributes
    rw [split, dropNuls_of_marks marks, rawName?_bound bound isBound_closing _ rest [], free.free]
  · rw [tagInside, dropNuls_append, dropNuls_of_marks marks]
    have name := free.name
    cases chars : tag.toList with
    | nil =>
      rw [chars] at name
      cases name
    | cons c rest =>
      rw [chars] at marks
      have mark : c ≠ '!' := Text.ne_of_kind (marks c List.mem_cons_self) (by decide)
      simp [Ne.symm mark]

theorem squash_tagInside (plain : Tag.IsPlain tag attributes) :
    squash Text.isBlank false (dropNuls (tagInside tag attributes) ++ ['>']) =
      tagInside tag (attributes.map Attribute.reduced) ++ ['>'] := by
  have marks := isMark_of_mem_isPlainName plain.name
  have filled : tag.toList ≠ [] := by
    intro empty
    have name := plain.name
    rw [empty] at name
    cases name
  rw [tagInside, dropNuls_append, dropNuls_of_marks marks, List.append_assoc,
    squash_word (fun c member => (isBlank_of_isMark (marks c member)).1) filled,
    squash_attributes plain.attributes]
  simp only [tagInside, Bool.false_eq_true, if_false, List.nil_append, List.append_assoc]
  rfl

theorem isPlain_reduced (plain : Tag.IsPlain tag attributes) :
    Tag.IsPlain tag (attributes.map Attribute.reduced) := by
  refine ⟨plain.name, fun attr member => ?_, plain.text⟩
  obtain ⟨original, isOriginal, rfl⟩ := List.mem_map.mp member
  have named := plain.attributes original isOriginal
  cases original <;> exact named

/-! ## Leads through tags -/

theorem leads_openTag (plain : Tag.IsPlain tag attributes) :
    Leads .text (openTag tag attributes).toList .text
      [(Tag.opening tag attributes).map escapeChars] :=
  ⟨_, run_openTag plain, rfl⟩

theorem leadsReduced_openTag (free : Tag.IsFree tag attributes) :
    LeadsReduced .text (openTag tag attributes).toList .text
      [(Tag.opening tag (attributes.map Attribute.reduced)).map escapeChars] := by
  rw [toList_openTag]
  refine free.isOrdinary.leadsReduced .text ?_
  rw [squash_tagInside free.toIsPlain, ← toList_openTag]
  exact leads_openTag (isPlain_reduced free.toIsPlain)

theorem leads_closeTag (plain : isPlainName tag.toList = true) :
    Leads .text ("</" ++ tag ++ ">").toList .text [] :=
  ⟨_, run_closeTag plain, rfl⟩

theorem leadsReduced_closeTag (plain : isPlainName tag.toList = true) :
    LeadsReduced .text ("</" ++ tag ++ ">").toList .text [] := by
  have marks := isMark_of_mem_isPlainName plain
  have written : ("</" ++ tag ++ ">").toList = '<' :: ('/' :: tag.toList ++ ['>']) := by simp
  have dropped : dropNuls ('/' :: tag.toList) = '/' :: tag.toList :=
    congrArg ('/' :: ·) (dropNuls_of_marks marks)
  have solid : ∀ c ∈ '/' :: tag.toList, Text.isBlank c = false :=
    List.forall_mem_cons.mpr ⟨by decide, fun c member => (isBlank_of_isMark (marks c member)).1⟩
  have noMark (d : Char) (other : isMark d = false) (noSlash : d ≠ '/') :
      d ∉ '/' :: tag.toList := by
    rw [List.mem_cons, not_or]
    exact ⟨noSlash, fun member => by rw [marks d member] at other; cases other⟩
  have ordinary : IsOrdinary ('/' :: tag.toList) := by
    refine ⟨noMark '>' (by decide) (by decide), noMark '<' (by decide) (by decide), ?_, ?_⟩
    · rw [dropped]
      rfl
    · rw [dropped]
      simp
  have leads := leads_closeTag plain
  rw [written] at leads ⊢
  refine ordinary.leadsReduced .text ?_
  rw [dropped, squash_word solid (List.cons_ne_nil _ _)]
  exact leads

end

end StaticSite.Markup
