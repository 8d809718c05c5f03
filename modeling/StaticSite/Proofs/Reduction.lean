import Mathlib
import StaticSite.Proofs.Minification
import StaticSite.Proofs.TagReader

/-!
# Reducing markup part by part

A part of a document is cut by itself if no comment and no kept element reaches over its end. What
is left of it is tightened from left to right, with the last piece and the blanks behind it in mind.
-/

namespace StaticSite.Markup

/-! ## Pieces that are left -/

/-- The pieces of a text that are left when characters of code zero and comments are gone. -/
def leftOf (s : List Char) : List Piece := dropCommentsFrom 0 (pieces (dropNuls s))

/-- Whether these pieces are left of a text whatever follows it. -/
def IsLeftOf (s : List Char) (ps : List Piece) : Prop :=
  ∀ rest, leftOf (s ++ rest) = ps ++ leftOf rest

theorem IsLeftOf.nil : IsLeftOf [] [] := fun _ => rfl

theorem IsLeftOf.append {s t : List Char} {ps qs : List Piece} (first : IsLeftOf s ps)
    (second : IsLeftOf t qs) : IsLeftOf (s ++ t) (ps ++ qs) := fun rest => by
  rw [List.append_assoc, first, second, List.append_assoc]

theorem dropNuls_append (s t : List Char) : dropNuls (s ++ t) = dropNuls s ++ dropNuls t :=
  List.filter_append ..

theorem mem_of_mem_dropNuls {s : List Char} {c : Char} (member : c ∈ dropNuls s) : c ∈ s :=
  (List.mem_filter.mp member).1

/-- Characters in which nothing starts are left as they are. -/
theorem isLeftOf_of_absent {s : List Char}
    (noRaw : ∀ t, t <:+ dropNuls s → t ≠ [] → ∀ rest, rawLength? (t ++ rest) = none)
    (noComment : ∀ t, t <:+ dropNuls s → t ≠ [] →
      ∀ rest, commentLength? (t.map .char ++ rest) = none) :
    IsLeftOf s ((dropNuls s).map .char) := fun rest => by
  rw [leftOf, dropNuls_append, pieces_append fun t within nonempty => noRaw t within nonempty _,
    dropComments_append fun t within nonempty => noComment t within nonempty _]
  rfl

theorem rawLength?_of_ne {c : Char} (noBracket : c ≠ '<') (s : List Char) :
    rawLength? (c :: s) = none := by
  simp [rawLength?, noBracket]

theorem commentLength?_of_ne {c : Char} (noBracket : c ≠ '<') (ps : List Piece) :
    commentLength? (.char c :: ps) = none := by
  rw [commentLength?_eq, dropMark?, if_neg (Ne.symm noBracket)]

theorem isLeftOf_text {s : List Char} (bare : '<' ∉ s) : IsLeftOf s ((dropNuls s).map .char) := by
  have ne {c : Char} {t : List Char} (within : c :: t <:+ dropNuls s) : c ≠ '<' := by
    rintro rfl
    exact bare (mem_of_mem_dropNuls (within.subset List.mem_cons_self))
  refine isLeftOf_of_absent (fun t within nonempty rest => ?_) fun t within nonempty rest => ?_
  · obtain ⟨c, t, rfl⟩ := List.exists_cons_of_ne_nil nonempty
    exact rawLength?_of_ne (ne within) _
  · obtain ⟨c, t, rfl⟩ := List.exists_cons_of_ne_nil nonempty
    exact commentLength?_of_ne (ne within) _

/-- Whether a tag opens no kept element and no comment; `inside` is what stands in it. -/
structure IsOrdinary (inside : List Char) : Prop where
  unclosed : '>' ∉ inside
  single : '<' ∉ inside
  name : rawName? (dropNuls inside ++ ['>']) = none
  noComment : ¬ ['!', '-'] <+: dropNuls inside

theorem IsOrdinary.isLeftOf {inside : List Char} (ordinary : IsOrdinary inside) :
    IsLeftOf ('<' :: (inside ++ ['>'])) ((dropNuls ('<' :: (inside ++ ['>']))).map .char) := by
  have whole : dropNuls ('<' :: (inside ++ ['>'])) = '<' :: (dropNuls inside ++ ['>']) := by
    simp [dropNuls]
  have ne {c : Char} {t : List Char} (within : c :: t <:+ dropNuls inside ++ ['>']) : c ≠ '<' := by
    rintro rfl
    rcases List.mem_append.mp (within.subset List.mem_cons_self) with inner | last
    · exact ordinary.single (mem_of_mem_dropNuls inner)
    · exact absurd (List.mem_singleton.mp last) (by decide)
  refine isLeftOf_of_absent (fun t within nonempty rest => ?_) fun t within nonempty rest => ?_
  all_goals
    rw [whole] at within
    rcases List.suffix_cons_iff.mp within with rfl | within
  · have named : rawName? (dropNuls inside ++ '>' :: rest) = none := by
      rw [rawName?_append _ rest [], ordinary.name]
    rw [List.cons_append, List.append_assoc, List.singleton_append, rawLength?, named]
    rfl
  · obtain ⟨c, t, rfl⟩ := List.exists_cons_of_ne_nil nonempty
    exact rawLength?_of_ne (ne within) _
  · have noMark : dropMark? ['<', '!', '-', '-']
        (('<' :: (dropNuls inside ++ ['>'])).map .char ++ rest) = none := by
      have noComment := ordinary.noComment
      generalize dropNuls inside = s at noComment
      rcases s with _ | ⟨c, _ | ⟨d, s⟩⟩
      · simp [dropMark?]
      · simp [dropMark?]
      · simp only [List.cons_prefix_cons, List.nil_prefix, and_true, not_and] at noComment
        simp only [List.map_cons, List.cons_append, dropMark?, if_true]
        split
        next isMark => rw [if_neg (noComment isMark)]
        next => rfl
    rw [commentLength?_eq, noMark]
  · obtain ⟨c, t, rfl⟩ := List.exists_cons_of_ne_nil nonempty
    exact commentLength?_of_ne (ne within) _

/-! ## Tightened pieces -/

/-- Tightening writes no blank without what follows it. -/
theorem isBlank_getLast?_run (state : Option Piece × Bool) (ps : List Piece) :
    ∀ p ∈ (tightener.run state ps).2.getLast?, p.isBlank = false := by
  induction ps generalizing state with
  | nil => nofun
  | cons p ps ih =>
    intro last member
    rw [Machine.run, List.getLast?_append, Option.mem_def, Option.or_eq_some_iff] at member
    rcases member with later | ⟨-, here⟩
    · exact ih _ last later
    · cases solid : p.isBlank with
      | true =>
        rw [tightener_blank solid] at here
        cases here
      | false =>
        rw [tightener_solid solid, List.getLast?_concat] at here
        cases here
        exact solid

theorem mem_of_mem_run {state : Option Piece × Bool} {ps : List Piece} {p : Piece}
    (member : p ∈ (tightener.run state ps).2) : p = .char ' ' ∨ p ∈ ps := by
  induction ps generalizing state with
  | nil => cases member
  | cons q ps ih =>
    rw [Machine.run, List.mem_append] at member
    rcases member with here | later
    · cases solid : q.isBlank with
      | true =>
        rw [tightener_blank solid] at here
        cases here
      | false =>
        rw [tightener_solid solid, List.mem_append, List.mem_singleton] at here
        rcases here with lead | rfl
        · split at lead
          · exact .inl (List.mem_singleton.mp lead)
          · cases lead
        · exact .inr List.mem_cons_self
    · exact (ih later).imp_right (List.mem_cons_of_mem _)

/-- Two parts are tightened one after the other. -/
theorem text_run_append (state : Option Piece × Bool) (ps qs : List Piece) :
    (tightener.run state (ps ++ qs)).2.flatMap Piece.text =
      (tightener.run state ps).2.flatMap Piece.text ++
        (tightener.run (tightener.run state ps).1 qs).2.flatMap Piece.text := by
  have whole : tightener.run state (ps ++ qs) = _ :=
    Machine.run_append rfl (rfl : tightener.run (tightener.run state ps).1 qs = (_, _))
  rw [whole, List.flatMap_append]

/-- What stands in front of the last piece that is not blank stays when blanks at the ends go. -/
theorem exists_trimmed_append {α : Type} {blank : α → Bool} {l : List α} (ends : HasEnds blank l)
    (filled : l ≠ []) (rest : List α) : ∃ more, trimmed blank (l ++ rest) = l ++ more := by
  have front : (l ++ rest).dropWhile blank = l ++ rest := by
    refine dropWhile_eq_self fun x head => ends.head x ?_
    obtain ⟨y, l, rfl⟩ := List.exists_cons_of_ne_nil filled
    exact head
  have back : l.reverse.dropWhile blank = l.reverse :=
    dropWhile_eq_self (by simpa using ends.last)
  rw [trimmed, front, List.reverse_append, List.dropWhile_append]
  split
  · exact ⟨[], by rw [back, List.reverse_reverse, List.append_nil]⟩
  · exact ⟨(rest.reverse.dropWhile blank).reverse, by simp⟩

/-! ## Leads -/

def Lexeme.opening? : Lexeme → Option Tag
  | .tag written => if written.closing then none else some written
  | _ => none

/-- The opening tags among lexemes. -/
def openings (lexemes : List Lexeme) : List Tag := lexemes.filterMap Lexeme.opening?

theorem openings_append (l m : List Lexeme) : openings (l ++ m) = openings l ++ openings m :=
  List.filterMap_append

/-- Whether a text takes a reader of tags from one mode to another, past these opening tags. -/
def Leads (first : Mode) (s : List Char) (last : Mode) (tags : List Tag) : Prop :=
  ∃ lexemes, tagLexer.run first s = (last, lexemes) ∧ openings lexemes = tags

/-- Whether what is left of a text in a reduced document does so, whatever stands around it. -/
def LeadsReduced (first : Mode) (s : List Char) (last : Mode) (tags : List Tag) : Prop :=
  ∃ ps, IsLeftOf s ps ∧
    ∀ state, Leads first ((tightener.run state ps).2.flatMap Piece.text) last tags

section

variable {first next last : Mode} {s t : List Char} {a b : List Tag}

theorem Leads.nil : Leads first [] first [] := ⟨[], rfl, rfl⟩

theorem leads_of_run (run : (tagLexer.run first s).1 = last) :
    Leads first s last (openings (tagLexer.run first s).2) := ⟨_, by rw [← run], rfl⟩

theorem Leads.append (front : Leads first s next a) (back : Leads next t last b) :
    Leads first (s ++ t) last (a ++ b) := by
  obtain ⟨l, run, rfl⟩ := front
  obtain ⟨m, run', rfl⟩ := back
  exact ⟨l ++ m, Machine.run_append run run', openings_append l m⟩

theorem LeadsReduced.nil : LeadsReduced first [] first [] := ⟨[], .nil, fun _ => .nil⟩

theorem LeadsReduced.append (front : LeadsReduced first s next a)
    (back : LeadsReduced next t last b) : LeadsReduced first (s ++ t) last (a ++ b) := by
  obtain ⟨ps, left, leads⟩ := front
  obtain ⟨qs, left', leads'⟩ := back
  refine ⟨ps ++ qs, left.append left', fun state => ?_⟩
  rw [text_run_append]
  exact (leads state).append (leads' _)

/--
Whether a reader of tags that enters a text outside of tags leaves it there, also when the text has
been reduced as a part of a document.
-/
structure IsSelfContained (s : List Char) : Prop where
  whole : ∃ tags, Leads .text s .text tags
  reduced : ∃ ps, IsLeftOf s ps ∧
    ∀ state, ∃ tags, Leads .text ((tightener.run state ps).2.flatMap Piece.text) .text tags

theorem Leads.isSelfContained (leads : Leads .text s .text a)
    (reduced : LeadsReduced .text s .text b) : IsSelfContained s := by
  obtain ⟨ps, left, leads'⟩ := reduced
  exact ⟨⟨a, leads⟩, ps, left, fun state => ⟨b, leads' state⟩⟩

theorem IsSelfContained.append (front : IsSelfContained s) (back : IsSelfContained t) :
    IsSelfContained (s ++ t) := by
  obtain ⟨⟨a, leads⟩, ps, left, each⟩ := front
  obtain ⟨⟨b, leads'⟩, qs, left', each'⟩ := back
  refine ⟨⟨a ++ b, leads.append leads'⟩, ps ++ qs, left.append left', fun state => ?_⟩
  obtain ⟨tags, first⟩ := each state
  obtain ⟨more, second⟩ := each' (tightener.run state ps).1
  rw [text_run_append]
  exact ⟨tags ++ more, first.append second⟩

/-- The modes in which only an opening bracket leads to another mode. -/
inductive Mode.Rests : Mode → Prop
  | text : Rests .text
  | raw (element : List Char) : Rests (.raw element)

theorem Mode.Rests.leads (rests : first.Rests) (bare : '<' ∉ s) : Leads first s first [] := by
  induction s with
  | nil => exact .nil
  | cons c s ih =>
    rw [List.mem_cons, not_or] at bare
    have here : Leads first [c] first [] := by
      cases rests with
      | text =>
        exact ⟨[.char c], Machine.run_singleton (by
          simp [tagLexer, Mode.step, textStep, Ne.symm bare.1]), rfl⟩
      | raw element =>
        exact ⟨[.raw c], Machine.run_singleton (by
          simp [tagLexer, Mode.step, rawStep, Ne.symm bare.1]), rfl⟩
    exact here.append (ih bare.2)

theorem Mode.Rests.leadsReduced (rests : first.Rests) (bare : '<' ∉ s) :
    LeadsReduced first s first [] := by
  refine ⟨_, isLeftOf_text bare, fun state => rests.leads fun member => ?_⟩
  obtain ⟨p, written, inText⟩ := List.mem_flatMap.mp member
  rcases mem_of_mem_run written with rfl | given
  · exact absurd inText (by decide)
  · obtain ⟨c, inside, rfl⟩ := List.mem_map.mp given
    exact bare (mem_of_mem_dropNuls (List.mem_singleton.mp inText ▸ inside))

/-- A tag that opens nothing is squashed by itself. -/
theorem IsOrdinary.leadsReduced {inside : List Char} (ordinary : IsOrdinary inside)
    (rests : first.Rests)
    (leads : Leads first ('<' :: squash Text.isBlank false (dropNuls inside ++ ['>'])) last a) :
    LeadsReduced first ('<' :: (inside ++ ['>'])) last a := by
  refine ⟨_, ordinary.isLeftOf, fun state => ?_⟩
  have unclosed : '>' ∉ dropNuls inside := fun member =>
    ordinary.unclosed (mem_of_mem_dropNuls member)
  have whole : dropNuls ('<' :: (inside ++ ['>'])) = '<' :: (dropNuls inside ++ ['>']) := by
    simp [dropNuls]
  have steps := Machine.run_cons (tightener_solid (p := .char '<') (by decide) state)
    (run_inside unclosed (by decide) false)
  rw [whole, List.map_cons, steps]
  simp only [List.flatMap_append, List.append_assoc, flatMap_text_map_char]
  refine Leads.append (a := []) ?_ leads
  split
  · exact rests.leads (by decide)
  · exact .nil

/-! ## Style elements -/

/-- A style element that holds no bracket goes up to its own closing tag. -/
theorem rawLength?_style (bare : '<' ∉ s) (rest : List Char) :
    rawLength? ("<style>".toList ++ s ++ "</style>".toList ++ rest) =
      some ("<style>".toList ++ s ++ "</style>".toList).length := by
  have closing : closingLength? "style".toList ("</style>".toList ++ rest) = some 8 := by
    have dropped : Text.dropMark? ['<', '/'] ("</style>".toList ++ rest) =
        some ("style>".toList ++ rest) := rfl
    have named : dropName? "style".toList ("style>".toList ++ rest) = some ('>' :: rest) := rfl
    have noBlank : ('>' :: rest).dropWhile Text.isBlank = '>' :: rest :=
      List.dropWhile_cons_of_neg (by decide)
    simp only [closingLength?, dropped, named, Option.bind_eq_bind, Option.bind_some, noBlank]
    simp
  have toClosing (s : List Char) (bare : '<' ∉ s) :
      lengthToClosing? "style".toList (s ++ ("</style>".toList ++ rest)) = some (s.length + 8) := by
    induction s with
    | nil =>
      have opened : ("</style>".toList ++ rest) = '<' :: ("/style>".toList ++ rest) := rfl
      rw [List.nil_append, opened, lengthToClosing?, ← opened, closing]
      rfl
    | cons c s ih =>
      rw [List.mem_cons, not_or] at bare
      have noClosing (x : List Char) : closingLength? "style".toList (c :: x) = none := by
        simp [closingLength?, Text.dropMark?, bare.1]
      rw [List.cons_append, lengthToClosing?, noClosing, ih bare.2]
      simp only [Option.map_some, List.length_cons]
  have named : rawName? ("style".toList ++ '>' :: (s ++ ("</style>".toList ++ rest))) =
      some "style".toList := by
    rw [rawName?_append _ _ []]
    decide
  have bare' : '<' ∉ '>' :: s := by simp [bare]
  refine rawLength?_eq_some.mpr ⟨"style".toList, _, _, ?_, named, toClosing ('>' :: s) bare', ?_⟩
  · simp
  · simp
    omega

/-- The characters of a style element. -/
def styleElement (s : List Char) : List Char := "<style>".toList ++ s ++ "</style>".toList

theorem dropNuls_styleElement (s : List Char) :
    dropNuls (styleElement s) = styleElement (dropNuls s) := by
  have inside (front back : List Char) (noNul : dropNuls front = front)
      (noNul' : dropNuls back = back) :
      dropNuls (front ++ s ++ back) = front ++ dropNuls s ++ back := by
    rw [dropNuls_append, dropNuls_append, noNul, noNul']
  exact inside _ _ (by decide) (by decide)

theorem isLeftOf_styleElement (bare : '<' ∉ s) :
    IsLeftOf (styleElement s) [.raw (styleElement (dropNuls s))] := fun rest => by
  have bare' : '<' ∉ dropNuls s := fun member => bare (mem_of_mem_dropNuls member)
  have starts : (Token.raw (styleElement (dropNuls s))).Starts true (dropNuls rest) :=
    starts_raw_iff.mpr (rawLength?_style bare' _)
  rw [leftOf, dropNuls_append, dropNuls_styleElement, pieces_raw starts, dropCommentsFrom]
  rfl

theorem leads_styleElement (bare : '<' ∉ s) :
    Leads .text (styleElement s) .text [⟨false, "style".toList, []⟩] := by
  have front : Leads .text "<style>".toList (.raw "style".toList) [⟨false, "style".toList, []⟩] :=
    ⟨[.tag ⟨false, "style".toList, []⟩], by decide, rfl⟩
  have back : Leads (.raw "style".toList) "</style>".toList .text [] :=
    ⟨[.tag ⟨true, "style".toList, []⟩], by decide, rfl⟩
  exact (front.append ((Mode.Rests.raw _).leads bare)).append back

theorem leadsReduced_styleElement (bare : '<' ∉ s) :
    LeadsReduced .text (styleElement s) .text [⟨false, "style".toList, []⟩] := by
  refine ⟨_, isLeftOf_styleElement bare, fun state => ?_⟩
  have bare' : '<' ∉ dropNuls s := fun member => bare (mem_of_mem_dropNuls member)
  have steps := Machine.run_singleton
    (tightener_solid (p := .raw (styleElement (dropNuls s))) rfl state)
  rw [steps, List.flatMap_append, List.flatMap_singleton]
  refine Leads.append (a := []) ?_ (leads_styleElement bare')
  split
  · exact Mode.Rests.text.leads (by decide)
  · exact .nil

/-! ## Whole documents -/

def Item.opening? : Item → Option Tag
  | .tag written => if written.closing then none else some written
  | _ => none

/-- The opening tags of markup, with the references in their values put in. -/
def elements (refs : References) (markup : String) : List Tag :=
  (items refs markup).filterMap Item.opening?

theorem elements_eq (refs : References) (markup : String) :
    elements refs markup = (openings (lexemes markup.toList)).map (Tag.map refs.decode) := by
  have inItems (s : List Char) (lexemes : List Lexeme) :
      (itemsFrom refs s lexemes).filterMap Item.opening? =
        (openings lexemes).map (Tag.map refs.decode) := by
    have texts (s : List Char) : (textItem s).filterMap Item.opening? = [] := by
      unfold textItem
      split <;> rfl
    induction lexemes generalizing s with
    | nil => exact texts _
    | cons lexeme lexemes ih =>
      cases lexeme with
      | char c => exact ih (s ++ [c])
      | tag tag =>
        have here : Item.opening? (.tag (tag.map refs.decode)) =
            (Lexeme.opening? (.tag tag)).map (Tag.map refs.decode) := by
          unfold Item.opening? Lexeme.opening? Tag.map
          dsimp only
          split <;> rfl
        rw [itemsFrom, List.filterMap_append, texts, List.nil_append, List.filterMap_cons, here, ih]
        unfold openings
        rw [List.filterMap_cons]
        cases Lexeme.opening? (.tag tag) <;> rfl
      | aside =>
        rw [itemsFrom, List.filterMap_append, texts, List.nil_append]
        exact ih []
      | raw c =>
        rw [itemsFrom, List.filterMap_append, texts, List.nil_append]
        exact ih []
  exact inItems [] _

theorem openings_lexemes (s : List Char) :
    openings (lexemes s) = openings (tagLexer.run .text s).2 := by
  have held (mode : Mode) : openings mode.held = [] := by
    cases mode with
    | rawEnd element read => simp [openings, Mode.held, Lexeme.opening?]
    | _ => rfl
  rw [lexemes, openings_append, held, List.append_nil]

/-- The first tag of a document, which tells its type. -/
def doctype : List Char := "<!DOCTYPE html>".toList

theorem isLeftOf_doctype : IsLeftOf doctype (doctype.map .char) := by
  have ordinary : IsOrdinary "!DOCTYPE html".toList := ⟨by decide, by decide, by decide, by decide⟩
  exact ordinary.isLeftOf

theorem leads_doctype : Leads .text doctype .text [] := ⟨[.aside], by decide, rfl⟩

/-- What is left of a document is tightened behind its type, whatever follows. -/
theorem exists_of_leftOf {document : List Char} {ps more : List Piece}
    (left : leftOf document = doctype.map .char ++ ps ++ more) :
    ∃ last, minifyChars document =
      doctype ++ (tightener.run (some (.char '>'), false) ps).2.flatMap Piece.text ++ last := by
  have start : tightener.run (none, false) (doctype.map .char) =
      ((some (.char '>'), false), doctype.map .char) := by decide
  have run : tightener.run (none, false) (doctype.map .char ++ ps) = _ :=
    Machine.run_append start (rfl : tightener.run (some (.char '>'), false) ps = (_, _))
  obtain ⟨out, opened⟩ : ∃ out, doctype.map Piece.char = .char '<' :: out := ⟨_, rfl⟩
  have ends : HasEnds Piece.isBlank
      (tightener.run (none, false) (doctype.map .char ++ ps)).2 := by
    refine ⟨?_, isBlank_getLast?_run _ _⟩
    rw [run, opened]
    intro p head
    cases head
    decide
  have filled : (tightener.run (none, false) (doctype.map .char ++ ps)).2 ≠ [] := by
    rw [run, opened]
    exact List.cons_ne_nil _ _
  obtain ⟨rest, trimmed⟩ := exists_trimmed_append ends filled
    (tighten (tightener.run (none, false) (doctype.map .char ++ ps)).1.1
      (tightener.run (none, false) (doctype.map .char ++ ps)).1.2 more)
  refine ⟨rest.flatMap Piece.text, ?_⟩
  have whole : minifyChars document =
      (StaticSite.trimmed Piece.isBlank (tighten none false (leftOf document))).flatMap
        Piece.text := rfl
  rw [whole, left, tighten_append (none, false), trimmed, run]
  simp only [List.flatMap_append, flatMap_text_map_char]

/--
Behind the document type, what leads through a part of a document does so in the reduced one, if the
part in front of it is self-contained.
-/
theorem exists_minifyChars (front : IsSelfContained s) (leads : LeadsReduced .text t .text a)
    (rest : List Char) :
    ∃ first middle last before, minifyChars (doctype ++ s ++ t ++ rest) = first ++ middle ++ last ∧
      Leads .text first .text before ∧ Leads .text middle .text a := by
  obtain ⟨-, ps, left, each⟩ := front
  obtain ⟨qs, left', leads⟩ := leads
  have split : leftOf (doctype ++ s ++ t ++ rest) =
      doctype.map .char ++ (ps ++ qs) ++ leftOf rest := by
    rw [← List.append_assoc]
    exact ((isLeftOf_doctype.append left).append left') rest
  obtain ⟨last, reduced⟩ := exists_of_leftOf split
  obtain ⟨before, first⟩ := each (some (.char '>'), false)
  rw [reduced, text_run_append, ← List.append_assoc]
  exact ⟨_, _, last, before, rfl, leads_doctype.append first, leads _⟩

theorem exists_openings {before : List Tag} (first : Leads .text s .text before)
    (leads : Leads .text t .text a) (rest : List Char) :
    ∃ after, openings (lexemes (s ++ t ++ rest)) = before ++ a ++ after := by
  obtain ⟨l, run, opened⟩ := first.append leads
  have whole : tagLexer.run .text (s ++ t ++ rest) = _ :=
    Machine.run_append run (rfl : tagLexer.run .text rest = (_, _))
  exact ⟨_, by rw [openings_lexemes, whole, openings_append, opened]⟩

end

end StaticSite.Markup
