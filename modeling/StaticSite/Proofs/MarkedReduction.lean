import StaticSite.Proofs.Markers
import StaticSite.Proofs.Squeezing

/-!
# Reducing a text with markers

A text with markers in the place of its kept elements is reduced as a text: comments go, then the
gaps between tags and markers, then all blanks but one. None of these steps looks into a marker, so
what they make of the text is the text of what the same steps make of its pieces.
-/

namespace StaticSite.Markup

/-! ## Steps on the text -/

/-- The length of the comment that a text starts with. -/
def commentEnd? (s : List Char) : Option Nat := (comment? false s).map List.length

/-- The comments that are dropped, from left to right. -/
def removedComments (s : List Char) : List (List Char) := blocks (cut commentEnd? s)

def withoutComments (s : List Char) : List Char := (cut commentEnd? s).filterMap Piece.char?

/-- Whether a tag, or a marker, ends with the character. -/
def isClosing (c : Char) : Bool := c = '>' || c = nul

/-- Whether a tag, or a marker, starts with the character. -/
def isOpening (c : Char) : Bool := c = '<' || c = nul

/-- The length of a gap between two tags or markers, with the characters on both of its sides. -/
def gapLength? : List Char → Option Nat
  | [] => none
  | c :: s =>
    let blanks := s.takeWhile Text.isBlank
    if isClosing c ∧ blanks ≠ [] ∧ (s.dropWhile Text.isBlank).head?.any isOpening then
      some (blanks.length + 2)
    else none

/-- Of a gap only the characters on its sides are left. -/
def Piece.closed : Piece → List Char
  | .char c => [c]
  | .raw gap => gap.head?.toList ++ gap.getLast?.toList

def closeGaps (s : List Char) : List Char := (cut gapLength? s).flatMap Piece.closed

/-- A text without comments, without the gaps between tags, and with one space for other blanks. -/
def reduce (s : List Char) : List Char := Text.trim (Text.collapse (closeGaps (withoutComments s)))

/-! ## Comments -/

section

variable {ps : List Piece}

/-- A comment in a text with markers holds each marker as a whole or not at all. -/
theorem comment?_piecesText (parked : ∀ p ∈ ps, p.IsParked) :
    comment? false (piecesText ps) =
      (commentLength? ps).map fun length => piecesText (ps.take length) := by
  rw [commentLength?_eq, comment?, dropMark?_piecesText (by decide) parked]
  cases opened : dropMark? ['<', '!', '-', '-'] ps with
  | none => rfl
  | some body =>
    obtain rfl := dropMark?_eq_some.mp opened
    have parkedBody : ∀ p ∈ body, p.IsParked := fun p member =>
      parked p (List.mem_append_right _ member)
    have conditional : Text.startsWith ['[', 'i', 'f'] (piecesText body) =
        (dropMark? ['[', 'i', 'f'] body).isSome := by
      rw [Text.startsWith, dropMark?_piecesText (by decide) parkedBody, Option.isSome_map]
    have outside : nul ∉ ['-', '-', '>'] := by decide
    have split := splitAtMark?_piecesText outside (by decide) parkedBody
    simp only [Option.map_some, Bool.not_false, Bool.true_and, conditional]
    split
    · rfl
    · have front := congrArg (Option.map (['<', '!', '-', '-'] ++ ·)) split
      have whole (length : Nat) :
          piecesText ((['<', '!', '-', '-'].map Piece.char ++ body).take (length + 4)) =
            ['<', '!', '-', '-'] ++ piecesText (body.take length) := rfl
      rw [Option.map_map, Option.map_map] at front
      simpa only [Option.map_map, Function.comp_def, List.append_assoc, whole] using front

theorem lengthToMark?_le {mark : List Char} {length : Nat} (found : lengthToMark? mark ps = some length) :
    length ≤ ps.length := by
  induction ps generalizing length with
  | nil => cases found
  | cons p ps ih =>
    unfold lengthToMark? at found
    split at found
    next rest starts =>
      cases found
      rw [dropMark?_eq_some.mp starts]
      simp
    · obtain ⟨length, later, rfl⟩ := Option.map_eq_some_iff.mp found
      exact Nat.succ_le_succ (ih later)

/-- A comment is some of the pieces, and starts with a character. -/
theorem exists_of_commentLength? {length : Nat} (found : commentLength? ps = some length) :
    ∃ c inside rest, ps = (.char c :: inside) ++ rest ∧ length = (Piece.char c :: inside).length := by
  rw [commentLength?_eq] at found
  split at found
  · cases found
  next body opened =>
    obtain rfl := dropMark?_eq_some.mp opened
    split at found
    · cases found
    · obtain ⟨length, marked, rfl⟩ := Option.map_eq_some_iff.mp found
      have bound := lengthToMark?_le marked
      refine ⟨'<', ['!', '-', '-'].map .char ++ body.take length, body.drop length, ?_, ?_⟩
      · simp
      · simp [bound]

/-- Pieces come one by one, or as many as a comment has. -/
theorem comment_induction {motive : List Piece → Prop} (nil : motive [])
    (comment : ∀ c inside rest,
      commentLength? ((.char c :: inside) ++ rest) = some (Piece.char c :: inside).length →
        motive rest → motive ((.char c :: inside) ++ rest))
    (piece : ∀ p ps, commentLength? (p :: ps) = none → motive ps → motive (p :: ps)) :
    ∀ ps, motive ps := by
  intro ps
  generalize size : ps.length = n
  induction n using Nat.strongRecOn generalizing ps with
  | ind n ih =>
    cases ps with
    | nil => exact nil
    | cons p ps =>
      cases found : commentLength? (p :: ps) with
      | none => exact piece p ps found (ih ps.length (by rw [← size]; exact Nat.lt_succ_self _) ps rfl)
      | some length =>
        obtain ⟨c, inside, rest, whole, rfl⟩ := exists_of_commentLength? found
        rw [whole] at found size ⊢
        refine comment c inside rest found (ih rest.length ?_ rest rfl)
        rw [← size, List.length_append, List.length_cons]
        omega

/-- A comment is cut out of the text as it is out of the pieces. -/
theorem cut_comment {c : Char} {inside rest : List Piece}
    (parked : ∀ p ∈ (.char c :: inside) ++ rest, p.IsParked)
    (found : commentLength? ((.char c :: inside) ++ rest) = some (Piece.char c :: inside).length) :
    cut commentEnd? (piecesText ((.char c :: inside) ++ rest)) =
      .raw (piecesText (.char c :: inside)) :: cut commentEnd? (piecesText rest) := by
  have isComment := comment?_piecesText parked
  rw [found, Option.map_some, List.take_left] at isComment
  rw [piecesText_append] at isComment ⊢
  exact cut_found (List.cons_ne_nil _ _) (by rw [commentEnd?, isComment]; rfl)

/-- Where no comment starts, a piece stays; within a marker there is no start of one. -/
theorem cut_piece {p : Piece} (parked : ∀ q ∈ p :: ps, q.IsParked)
    (absent : commentLength? (p :: ps) = none) :
    cut commentEnd? (piecesText (p :: ps)) =
      p.text.map .char ++ cut commentEnd? (piecesText ps) := by
  cases p with
  | char c =>
    have noComment := comment?_piecesText parked
    rw [absent, Option.map_none] at noComment
    exact cut_cons (by rw [commentEnd?, ← List.singleton_append]; exact congrArg _ noComment)
  | raw block =>
    obtain ⟨k, rfl⟩ := parked _ (List.mem_cons_self ..)
    refine cut_append fun u within nonempty => ?_
    obtain ⟨c, u, rfl⟩ := List.exists_cons_of_ne_nil nonempty
    have isMarker : c = nul ∨ isDigit c = true :=
      eq_nul_or_isDigit (within.subset (List.mem_cons_self ..))
    have notOpening : '<' ≠ c := by
      rintro rfl
      revert isMarker
      decide
    rw [commentEnd?, comment?, List.cons_append, Text.dropMark?, if_neg notOpening]
    rfl

theorem filterMap_char?_map_char (s : List Char) : (s.map Piece.char).filterMap Piece.char? = s := by
  rw [List.filterMap_map]
  exact List.filterMap_some

/-- Dropping comments from a text with markers is dropping them from the pieces. -/
theorem withoutComments_piecesText (parked : ∀ p ∈ ps, p.IsParked) :
    withoutComments (piecesText ps) = piecesText (dropCommentsFrom 0 ps) := by
  induction ps using comment_induction with
  | nil => rfl
  | comment c inside rest found ih =>
    rw [withoutComments, cut_comment parked found, dropComments_comment (List.cons_ne_nil _ _) found]
    exact ih fun p member => parked p (List.mem_append_right _ member)
  | piece p ps absent ih =>
    rw [withoutComments, cut_piece parked absent, List.filterMap_append, filterMap_char?_map_char,
      dropCommentsFrom, absent, ← withoutComments, ih fun q member =>
        parked q (List.mem_cons_of_mem _ member)]
    rfl

/-- A marker is left in the text, or stands in one of the comments that are dropped. -/
theorem blocks_perm (parked : ∀ p ∈ ps, p.IsParked) :
    (blocks ps).Perm (blocks (dropCommentsFrom 0 ps) ++
      (removedComments (piecesText ps)).flatMap fun text => blocks (cut markerLength? text)) := by
  induction ps using comment_induction with
  | nil => exact .nil
  | comment c inside rest found ih =>
    obtain ⟨parkedInside, parkedRest⟩ := List.forall_mem_append.mp parked
    rw [blocks_append, removedComments, cut_comment parked found,
      dropComments_comment (List.cons_ne_nil _ _) found]
    have inComment := cut_piecesText parkedInside
    rw [blocks_raw, List.flatMap_cons, inComment]
    exact ((ih parkedRest).append_left _).trans (List.perm_append_comm_assoc ..)
  | piece p ps absent ih =>
    obtain ⟨-, later⟩ := List.forall_mem_cons.mp parked
    have noBlocks : blocks (p.text.map .char) = [] := by simp [blocks, Piece.block?, List.filterMap_map]
    rw [removedComments, cut_piece parked absent, blocks_append, noBlocks, List.nil_append,
      dropCommentsFrom, absent]
    cases p with
    | char c => exact ih later
    | raw block => exact (ih later).cons block

end

/-! ## Gaps -/

section

variable {c : Char} {s t blanks : List Char}

@[simp] theorem closeGaps_nil : closeGaps [] = [] := rfl

theorem closeGaps_cons (noGap : gapLength? (c :: s) = none) :
    closeGaps (c :: s) = c :: closeGaps s := by
  rw [closeGaps, cut_cons noGap]
  rfl

theorem gapLength?_cons (unclosed : isClosing c = false) : gapLength? (c :: s) = none :=
  if_neg fun gap => by simp [unclosed] at gap

/-- Where no tag ends, nothing is dropped. -/
theorem closeGaps_append (unclosed : ∀ c ∈ t, isClosing c = false) :
    closeGaps (t ++ s) = t ++ closeGaps s := by
  induction t with
  | nil => rfl
  | cons c t ih =>
    obtain ⟨here, later⟩ := List.forall_mem_cons.mp unclosed
    rw [List.cons_append, closeGaps_cons (gapLength?_cons here), ih later]
    rfl

theorem gapLength?_blanks (blank : ∀ b ∈ blanks, Text.isBlank b = true)
    (solid : ∀ d ∈ s.head?, Text.isBlank d = false) :
    gapLength? (c :: (blanks ++ s)) =
      if isClosing c ∧ blanks ≠ [] ∧ s.head?.any isOpening then some (blanks.length + 2)
      else none := by
  have blanksEnd : s.takeWhile Text.isBlank = [] ∧ s.dropWhile Text.isBlank = s := by
    cases s with
    | nil => exact ⟨rfl, rfl⟩
    | cons d s => simp [solid d rfl]
  rw [gapLength?, List.takeWhile_append_of_pos blank, List.dropWhile_append_of_pos blank,
    blanksEnd.1, blanksEnd.2, List.append_nil]

theorem isClosing_of_isBlank (blank : Text.isBlank c = true) : isClosing c = false :=
  Text.forall_isBlank (p := (isClosing · = false)) (by decide) blank

/-- Blanks stay unless they stand between a tag that ends and one that starts. -/
theorem closeGaps_blanks (blank : ∀ b ∈ blanks, Text.isBlank b = true)
    (solid : ∀ d ∈ s.head?, Text.isBlank d = false)
    (noGap : ¬ (isClosing c ∧ blanks ≠ [] ∧ s.head?.any isOpening)) :
    closeGaps (c :: (blanks ++ s)) = c :: (blanks ++ closeGaps s) := by
  rw [closeGaps_cons (by rw [gapLength?_blanks blank solid, if_neg noGap]),
    closeGaps_append fun b member => isClosing_of_isBlank (blank b member)]

theorem closeGaps_gap (blank : ∀ b ∈ blanks, Text.isBlank b = true)
    (solid : ∀ d ∈ s.head?, Text.isBlank d = false)
    (gap : isClosing c ∧ blanks ≠ [] ∧ s.head?.any isOpening) (noGap : gapLength? s = none) :
    closeGaps (c :: (blanks ++ s)) = c :: closeGaps s := by
  have found : gapLength? (c :: (blanks ++ s)) = some (blanks.length + 2) := by
    rw [gapLength?_blanks blank solid, if_pos gap]
  cases s with
  | nil => simp at gap
  | cons d s =>
    have split : c :: (blanks ++ d :: s) = (c :: (blanks ++ [d])) ++ s := by simp
    rw [split] at found ⊢
    rw [closeGaps, cut_found (List.cons_ne_nil _ _) (by rw [found]; simp), List.flatMap_cons,
      Piece.closed, closeGaps_cons noGap, ← List.cons_append, List.getLast?_concat]
    rfl

theorem head?_closeGaps (s : List Char) : (closeGaps s).head? = s.head? := by
  cases s with
  | nil => rfl
  | cons c s =>
    rw [closeGaps, cut, cutFrom]
    split
    next length found =>
      obtain ⟨more, rfl⟩ : ∃ more, length = more + 1 := by
        rw [gapLength?] at found
        split at found
        · cases found
          exact ⟨_, rfl⟩
        · cases found
      rfl
    · rfl

end

end StaticSite.Markup

namespace StaticSite.Text

/-! ## Runs of blanks -/

theorem collapse_append {s t : List Char} (solid : ∀ c ∈ s, isBlank c = false) :
    collapse (s ++ t) = s ++ collapse t := by
  induction s with
  | nil => rfl
  | cons c s ih =>
    obtain ⟨here, later⟩ := List.forall_mem_cons.mp solid
    rw [List.cons_append, collapse.eq_def]
    simp only [here, Bool.false_eq_true, if_false, ih later, List.cons_append]

theorem collapse_blanks {blanks s : List Char} (blank : ∀ b ∈ blanks, isBlank b = true)
    (solid : ∀ d ∈ s.head?, isBlank d = false) :
    collapse (blanks ++ s) = (if blanks = [] then [] else [' ']) ++ collapse s := by
  induction blanks with
  | nil => rfl
  | cons b blanks ih =>
    obtain ⟨here, later⟩ := List.forall_mem_cons.mp blank
    rw [List.cons_append, collapse.eq_def]
    cases blanks with
    | nil =>
      cases s with
      | nil => simp [here, collapse]
      | cons d s => simp [here, solid d rfl]
    | cons next blanks =>
      have next' : isBlank next = true := later next (List.mem_cons_self ..)
      rw [List.cons_append] at ih ⊢
      simp only [here, next', if_true, ih later]
      simp

end StaticSite.Text

namespace StaticSite.Markup

/-! ## Pieces without gaps -/

/-- The character with which a parked piece starts and ends. -/
def Piece.edge : Piece → Char
  | .char c => c
  | .raw _ => nul

section

variable {p q : Piece} {ps qs : List Piece}

theorem Piece.IsParked.edge_eq (parked : p.IsParked) :
    isClosing p.edge = p.endsTag ∧ isOpening p.edge = p.startsTag ∧
      Text.isBlank p.edge = p.isBlank := by
  cases p with
  | char c =>
    have noNul : c ≠ nul := parked
    simp only [edge, isClosing, isOpening, noNul, decide_false, Bool.or_false]
    exact ⟨rfl, rfl, rfl⟩
  | raw block => exact ⟨rfl, rfl, rfl⟩

theorem edge_digits (k : Nat) :
    ∀ c ∈ Nat.toDigits 10 k, isClosing c = false ∧ Text.isBlank c = false := by
  have all : ∀ digit < 10, isClosing digit.digitChar = false ∧
      Text.isBlank digit.digitChar = false := by decide
  exact Text.forall_mem_toDigits (p := fun c => isClosing c = false ∧ Text.isBlank c = false)
    (by decide) all k

/-- Behind the first character of a marker stands a digit. -/
theorem gapLength?_marker (k : Nat) (t : List Char) : gapLength? (marker k ++ t) = none := by
  have solid : ∀ d ∈ (Nat.toDigits 10 k ++ nul :: t).head?, Text.isBlank d = false := by
    intro d isHead
    rw [List.head?_append_of_ne_nil _ Nat.toDigits_ne_nil] at isHead
    exact (edge_digits k d (List.mem_of_head? isHead)).2
  have whole : marker k ++ t = nul :: ([] ++ (Nat.toDigits 10 k ++ nul :: t)) := by
    rw [marker, List.cons_append, List.append_assoc]
    rfl
  rw [whole, gapLength?_blanks (List.forall_mem_nil _) solid, if_neg fun gap => gap.2.1 rfl]

/-- The text of a piece goes from edge to edge, and no gap starts in it but at the second edge. -/
theorem Piece.IsParked.exists_front (parked : p.IsParked) :
    ∃ front, p.text = front ++ [p.edge] ∧ (∀ c ∈ front, Text.isBlank c = false) ∧
      ∀ t, closeGaps (p.text ++ t) = front ++ closeGaps (p.edge :: t) := by
  cases p with
  | char c => exact ⟨[], rfl, nofun, fun t => rfl⟩
  | raw block =>
    obtain ⟨k, rfl⟩ := parked
    have noBlank : ∀ c ∈ nul :: Nat.toDigits 10 k, Text.isBlank c = false :=
      List.forall_mem_cons.mpr ⟨by decide, fun c member => (edge_digits k c member).2⟩
    refine ⟨nul :: Nat.toDigits 10 k, rfl, noBlank, fun t => ?_⟩
    have noGap := gapLength?_marker k t
    rw [Piece.text]
    rw [marker, List.cons_append, List.append_assoc] at noGap ⊢
    rw [closeGaps_cons noGap, closeGaps_append fun c member => (edge_digits k c member).1]
    rfl

/-- No gap starts where one can end. -/
theorem Piece.IsParked.noGap (parked : p.IsParked) (starts : p.startsTag = true) (t : List Char) :
    gapLength? (p.text ++ t) = none := by
  cases p with
  | char c =>
    have opening : c = '<' := by simpa [startsTag] using starts
    exact gapLength?_cons (by rw [opening]; rfl)
  | raw block =>
    obtain ⟨k, rfl⟩ := parked
    exact gapLength?_marker k t

theorem Piece.IsParked.head?_text (parked : p.IsParked) (t : List Char) :
    (p.text ++ t).head? = some p.edge := by
  cases p with
  | char c => rfl
  | raw block =>
    obtain ⟨k, rfl⟩ := parked
    rfl

theorem tighten_blanks {before : Option Piece} {pending : Bool}
    (blank : ∀ p ∈ ps, p.isBlank = true) :
    tighten before pending (ps ++ qs) = tighten before (pending || !ps.isEmpty) qs := by
  induction ps generalizing pending with
  | nil => simp
  | cons p ps ih =>
    obtain ⟨here, later⟩ := List.forall_mem_cons.mp blank
    rw [List.cons_append, tighten, if_pos here, ih later]
    simp

/-- Blank pieces are blank characters. -/
theorem isBlank_of_mem_piecesText (blank : ∀ p ∈ ps, p.isBlank = true) :
    ∀ c ∈ piecesText ps, Text.isBlank c = true := by
  intro c member
  obtain ⟨p, inPieces, inText⟩ := List.mem_flatMap.mp member
  have isBlank := blank p inPieces
  cases p with
  | char d => rwa [List.mem_singleton.mp inText]
  | raw block => cases isBlank

theorem Piece.IsParked.collapse_text (parked : p.IsParked) {t u : List Char}
    (edge : Text.collapse (closeGaps (p.edge :: t)) = p.edge :: u) :
    Text.collapse (closeGaps (p.text ++ t)) = p.text ++ u := by
  obtain ⟨front, isText, solid, stays⟩ := parked.exists_front
  rw [stays, Text.collapse_append solid, edge, isText, List.append_assoc]
  rfl

theorem Piece.IsParked.solid_head (parked : p.IsParked) (solid : p.isBlank = false) (t : List Char) :
    ∀ d ∈ (p.text ++ t).head?, Text.isBlank d = false := by
  intro d isHead
  rw [parked.head?_text] at isHead
  rw [← Option.some.inj isHead, parked.edge_eq.2.2, solid]

/-- Blanks in front of a piece that is not blank become one space. -/
theorem Piece.IsParked.collapse_behind (parked : p.IsParked) (solid : p.isBlank = false)
    {blanks t u : List Char} (blank : ∀ b ∈ blanks, Text.isBlank b = true)
    (edge : Text.collapse (closeGaps (p.edge :: t)) = p.edge :: u) :
    Text.collapse (blanks ++ closeGaps (p.text ++ t)) =
      (if blanks = [] then [] else [' ']) ++ (p.text ++ u) := by
  have isHead : ∀ d ∈ (closeGaps (p.text ++ t)).head?, Text.isBlank d = false := by
    rw [head?_closeGaps]
    exact parked.solid_head solid t
  rw [Text.collapse_blanks blank isHead, parked.collapse_text edge]

theorem piecesText_eq_nil (blank : ∀ p ∈ ps, p.isBlank = true) : piecesText ps = [] ↔ ps = [] := by
  cases ps with
  | nil => exact iff_of_true rfl rfl
  | cons p ps =>
    cases p with
    | char c => exact iff_of_false (List.cons_ne_nil _ _) (List.cons_ne_nil _ _)
    | raw block => exact absurd (blank _ (List.mem_cons_self ..)) Bool.false_ne_true

theorem collapse_edge (here : p.IsParked) (solid : p.isBlank = false) (s : List Char) :
    Text.collapse (p.edge :: s) = p.edge :: Text.collapse s :=
  Text.collapse_append (s := [p.edge]) (List.forall_mem_singleton.mpr (here.edge_eq.2.2.trans solid))

/-- Blanks at the end of a text become a space. -/
theorem collapse_closeGaps_end (here : p.IsParked) (solid : p.isBlank = false)
    (blank : ∀ b ∈ ps, b.isBlank = true) :
    Text.collapse (closeGaps (p.edge :: piecesText ps)) =
      p.edge :: piecesText (tighten (some p) false ps) := by
  have blanks := isBlank_of_mem_piecesText blank
  have stays := closeGaps_blanks (c := p.edge) (s := []) blanks nofun (by simp)
  have spaces := Text.collapse_blanks (s := []) blanks nofun
  have tight : tighten (some p) false ps = _ := List.append_nil ps ▸ tighten_blanks blank
  rw [List.append_nil, closeGaps_nil] at stays
  rw [stays, collapse_edge here solid, spaces, tight, tighten]
  simp only [piecesText_eq_nil blank]
  by_cases empty : ps = [] <;> simp [empty, Text.collapse, Piece.text]

/-- What a gap becomes depends on the pieces on its sides. -/
theorem collapse_closeGaps_next (here : p.IsParked) (solid : p.isBlank = false)
    {bs : List Piece} (blank : ∀ b ∈ bs, b.isBlank = true) (hereNext : q.IsParked)
    (solidNext : q.isBlank = false)
    (next : Text.collapse (closeGaps (q.edge :: piecesText qs)) =
      q.edge :: piecesText (tighten (some q) false qs)) :
    Text.collapse (closeGaps (p.edge :: piecesText (bs ++ q :: qs))) =
      p.edge :: piecesText (tighten (some p) false (bs ++ q :: qs)) := by
  have blanks := isBlank_of_mem_piecesText blank
  have isHead := hereNext.solid_head solidNext (piecesText qs)
  have gap_iff : (isClosing p.edge ∧ piecesText bs ≠ [] ∧
      (q.text ++ piecesText qs).head?.any isOpening) ↔
      bs ≠ [] ∧ p.endsTag = true ∧ q.startsTag = true := by
    rw [hereNext.head?_text, Option.any_some, here.edge_eq.1, hereNext.edge_eq.2.1, Ne,
      piecesText_eq_nil blank]
    tauto
  rw [piecesText_append, piecesText_cons, tighten_blanks blank, Bool.false_or,
    tighten_cons solidNext]
  by_cases gap : bs ≠ [] ∧ p.endsTag = true ∧ q.startsTag = true
  · have noGap := hereNext.noGap gap.2.2 (piecesText qs)
    rw [closeGaps_gap blanks isHead (gap_iff.mpr gap) noGap, collapse_edge here solid,
      hereNext.collapse_text next]
    simp [gap.2.1, gap.2.2]
  · rw [closeGaps_blanks blanks isHead (mt gap_iff.mp gap), collapse_edge here solid,
      hereNext.collapse_behind solidNext blanks next]
    simp only [piecesText_eq_nil blank]
    by_cases empty : bs = []
    · simp [empty]
    · have apart : (p.endsTag && q.startsTag) = false := by
        rw [Bool.and_eq_false_iff, ← Bool.not_eq_true, ← Bool.not_eq_true]
        tauto
      simp [empty, apart, Piece.text]

theorem exists_blanks (ps : List Piece) :
    ∃ bs rest, ps = bs ++ rest ∧ (∀ b ∈ bs, b.isBlank = true) ∧
      ∀ q ∈ rest.head?, q.isBlank = false :=
  ⟨ps.takeWhile Piece.isBlank, ps.dropWhile Piece.isBlank,
    List.takeWhile_append_dropWhile.symm, of_mem_takeWhile ps, head?_dropWhile ps⟩

theorem collapse_closeGaps_edge (here : p.IsParked) (solid : p.isBlank = false)
    (parked : ∀ p ∈ ps, p.IsParked) :
    Text.collapse (closeGaps (p.edge :: piecesText ps)) =
      p.edge :: piecesText (tighten (some p) false ps) := by
  generalize size : ps.length = n
  induction n using Nat.strongRecOn generalizing p ps with
  | ind n ih =>
    obtain ⟨bs, rest, rfl, blank, isRest⟩ := exists_blanks ps
    cases rest with
    | nil =>
      rw [List.append_nil]
      exact collapse_closeGaps_end here solid blank
    | cons q qs =>
      obtain ⟨hereNext, later⟩ := List.forall_mem_cons.mp (List.forall_mem_append.mp parked).2
      have solidNext := isRest q rfl
      have shorter : qs.length < n := by
        rw [← size, List.length_append, List.length_cons]
        omega
      exact collapse_closeGaps_next here solid blank hereNext solidNext
        (ih qs.length shorter hereNext solidNext later rfl)

/-- Closing gaps and collapsing blanks in a text with markers is tightening its pieces. -/
theorem collapse_closeGaps (parked : ∀ p ∈ ps, p.IsParked) :
    Text.collapse (closeGaps (piecesText ps)) = piecesText (tighten none false ps) := by
  obtain ⟨bs, rest, rfl, blank, isRest⟩ := exists_blanks ps
  have blanks := isBlank_of_mem_piecesText blank
  rw [piecesText_append, tighten_blanks blank, Bool.false_or,
    closeGaps_append fun c member => isClosing_of_isBlank (blanks c member)]
  cases rest with
  | nil =>
    have spaces := Text.collapse_blanks (s := []) blanks nofun
    rw [piecesText_nil, closeGaps_nil, spaces, tighten]
    simp only [piecesText_eq_nil blank]
    by_cases empty : bs = [] <;> simp [empty, Text.collapse, Piece.text]
  | cons q qs =>
    obtain ⟨hereNext, later⟩ := List.forall_mem_cons.mp (List.forall_mem_append.mp parked).2
    have solidNext := isRest q rfl
    rw [piecesText_cons, hereNext.collapse_behind solidNext blanks
      (collapse_closeGaps_edge hereNext solidNext later), tighten_cons solidNext]
    simp only [piecesText_eq_nil blank]
    by_cases empty : bs = [] <;> simp [empty, Piece.text]

/-- Blanks at the ends of a text with markers are blank pieces. -/
theorem trim_piecesText (parked : ∀ p ∈ ps, p.IsParked) :
    Text.trim (piecesText ps) = piecesText (trimPieces ps) := by
  obtain ⟨front, back, whole, isFront, isBack, ends⟩ := exists_trimmed Piece.isBlank ps
  have trimmedPieces : trimPieces ps = trimmed Piece.isBlank ps := rfl
  rw [trimmedPieces]
  generalize trimmed Piece.isBlank ps = mid at whole ends ⊢
  subst whole
  have parkedMid : ∀ p ∈ mid, p.IsParked := fun p member =>
    parked p (List.mem_append_left _ (List.mem_append_right _ member))
  have endsText : HasEnds Text.isBlank (piecesText mid) := by
    constructor
    · cases mid with
      | nil => nofun
      | cons p mid =>
        exact (parkedMid p (List.mem_cons_self ..)).solid_head (ends.head p rfl) _
    · rcases List.eq_nil_or_concat mid with rfl | ⟨mid, p, rfl⟩
      · nofun
      · rw [List.concat_eq_append] at parkedMid ends ⊢
        have here := parkedMid p (List.mem_append_right _ (List.mem_cons_self ..))
        obtain ⟨text, isText, -⟩ := here.exists_front
        have solid := ends.last p (List.getLast?_concat ..)
        intro c isLast
        have asEdge : piecesText (mid ++ [p]) = (piecesText mid ++ text) ++ [p.edge] := by
          simp [isText]
        rw [asEdge, List.getLast?_concat] at isLast
        rw [← Option.some.inj isLast, here.edge_eq.2.2, solid]
  rw [piecesText_append, piecesText_append]
  exact trimmed_eq (isBlank_of_mem_piecesText isFront) (isBlank_of_mem_piecesText isBack) endsText

end

end StaticSite.Markup
