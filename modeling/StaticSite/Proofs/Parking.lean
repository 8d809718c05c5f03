import StaticSite.Proofs.MarkedReduction

/-!
# Parked elements

Elements to be kept are parked behind markers, the text is reduced around them, and each marker gives
way to its element again. That is what reducing the pieces comes to, so no marker goes astray: an
element is used once and in its turn, or is left out with the comment that its marker stands in.
-/

namespace StaticSite.Markup

/-! ## Elements in the place of markers -/

/-- The piece with other text for its element, if it is one. -/
def Piece.mapRaw (g : List Char → List Char) : Piece → Piece
  | .char c => .char c
  | .raw block => .raw (g block)

section

variable (g : List Char → List Char)

theorem Piece.mapRaw_kind (p : Piece) :
    (p.mapRaw g).isBlank = p.isBlank ∧ (p.mapRaw g).endsTag = p.endsTag ∧
      (p.mapRaw g).startsTag = p.startsTag := by
  cases p <;> exact ⟨rfl, rfl, rfl⟩

theorem dropMark?_map (mark : List Char) (ps : List Piece) :
    dropMark? mark (ps.map (Piece.mapRaw g)) = (dropMark? mark ps).map (·.map (Piece.mapRaw g)) := by
  induction mark generalizing ps with
  | nil => rfl
  | cons m mark ih =>
    cases ps with
    | nil => rfl
    | cons p ps =>
      cases p with
      | raw block => rfl
      | char c =>
        rw [List.map_cons, Piece.mapRaw, dropMark?, dropMark?]
        split
        · exact ih ps
        · rfl

theorem lengthToMark?_map (mark : List Char) (ps : List Piece) :
    lengthToMark? mark (ps.map (Piece.mapRaw g)) = lengthToMark? mark ps := by
  induction ps with
  | nil => rfl
  | cons p ps ih =>
    have here := dropMark?_map g mark (p :: ps)
    rw [List.map_cons] at here ⊢
    rw [lengthToMark?, lengthToMark?, here, ih]
    cases dropMark? mark (p :: ps) <;> rfl

theorem commentLength?_map (ps : List Piece) :
    commentLength? (ps.map (Piece.mapRaw g)) = commentLength? ps := by
  rw [commentLength?_eq, commentLength?_eq, dropMark?_map]
  cases dropMark? ['<', '!', '-', '-'] ps with
  | none => rfl
  | some body => simp only [Option.map_some, dropMark?_map, Option.isSome_map, lengthToMark?_map]

theorem dropCommentsFrom_map (skip : Nat) (ps : List Piece) :
    dropCommentsFrom skip (ps.map (Piece.mapRaw g)) =
      (dropCommentsFrom skip ps).map (Piece.mapRaw g) := by
  induction ps generalizing skip with
  | nil => rw [List.map_nil, dropCommentsFrom, List.map_nil]
  | cons p ps ih =>
    cases skip with
    | succ skip => exact ih skip
    | zero =>
      have found := commentLength?_map g (p :: ps)
      rw [List.map_cons] at found ⊢
      rw [dropCommentsFrom, dropCommentsFrom, found]
      cases commentLength? (p :: ps) with
      | none => exact congrArg (p.mapRaw g :: ·) (ih 0)
      | some length => exact ih (length - 1)

theorem tighten_map (before : Option Piece) (blank : Bool) (ps : List Piece) :
    tighten (before.map (Piece.mapRaw g)) blank (ps.map (Piece.mapRaw g)) =
      (tighten before blank ps).map (Piece.mapRaw g) := by
  induction ps generalizing before blank with
  | nil => cases blank <;> rfl
  | cons p ps ih =>
    have kind := p.mapRaw_kind g
    have ends : (before.map (Piece.mapRaw g)).map Piece.endsTag = before.map Piece.endsTag := by
      rw [Option.map_map]
      exact congrArg (before.map ·) (funext fun q => (q.mapRaw_kind g).2.1)
    rw [List.map_cons]
    cases isBlank : p.isBlank with
    | true =>
      rw [tighten, tighten, if_pos isBlank, if_pos (kind.1.trans isBlank)]
      exact ih before true
    | false =>
      have later := ih (some p) false
      rw [Option.map_some] at later
      rw [tighten_cons isBlank, tighten_cons (kind.1.trans isBlank), ends, kind.2.2, later,
        List.map_append]
      split <;> rfl

theorem trimPieces_map (ps : List Piece) :
    trimPieces (ps.map (Piece.mapRaw g)) = (trimPieces ps).map (Piece.mapRaw g) := by
  have kind : Piece.isBlank ∘ Piece.mapRaw g = Piece.isBlank :=
    funext fun p => (p.mapRaw_kind g).1
  rw [trimPieces, trimPieces, List.dropWhile_map, kind, ← List.map_reverse, List.dropWhile_map, kind,
    ← List.map_reverse]

end

/-! ## Layouts -/

/-- A part of a text with markers. -/
inductive Part where
  | char (c : Char)
  | marker (k : Nat)
deriving DecidableEq, Repr

/-- The piece for a part, with `f` for the texts behind the numbers. -/
def Part.piece (f : Nat → List Char) : Part → Piece
  | .char c => .char c
  | .marker k => .raw (f k)

def Part.number? : Part → Option Nat
  | .char _ => none
  | .marker k => some k

/-- The text of a layout, with `f` for the texts behind the numbers. -/
def write (f : Nat → List Char) (layout : List Part) : List Char :=
  piecesText (layout.map (Part.piece f))

/-- The numbers of the markers of a layout, from left to right. -/
def numbers (layout : List Part) : List Nat := layout.filterMap Part.number?

/-- Whether no character of a layout is taken for the edge of a marker. -/
def IsFree (layout : List Part) : Prop := ∀ c, .char c ∈ layout → c ≠ nul

theorem exists_layout {ps : List Piece} (parked : ∀ p ∈ ps, p.IsParked) :
    ∃ layout, ps = layout.map (Part.piece marker) ∧ IsFree layout ∧
      numbers layout = (blocks ps).map markerNumber := by
  induction ps with
  | nil => exact ⟨[], rfl, nofun, rfl⟩
  | cons p ps ih =>
    obtain ⟨here, later⟩ := List.forall_mem_cons.mp parked
    obtain ⟨layout, rfl, free, same⟩ := ih later
    cases p with
    | char c =>
      refine ⟨.char c :: layout, rfl, fun d member => ?_, same⟩
      rcases List.mem_cons.mp member with isHere | member
      · cases isHere
        exact here
      · exact free d member
    | raw block =>
      obtain ⟨k, rfl⟩ := here
      refine ⟨.marker k :: layout, rfl, fun d member => ?_, ?_⟩
      · rcases List.mem_cons.mp member with isHere | member
        · cases isHere
        · exact free d member
      · rw [blocks_raw, List.map_cons, markerNumber_marker, ← same]
        rfl

/-- Putting other texts behind the numbers is putting them in the place of the markers. -/
theorem map_piece_marker (f : Nat → List Char) (layout : List Part) :
    (layout.map (Part.piece marker)).map (Piece.mapRaw fun text => f (markerNumber text)) =
      layout.map (Part.piece f) := by
  rw [List.map_map]
  refine List.map_congr_left fun part _ => ?_
  cases part with
  | char c => rfl
  | marker k => exact congrArg (fun n => Piece.raw (f n)) (markerNumber_marker k)

/-! ## Parking -/

/-- Pieces with markers for their elements, which are numbered from `k` on. -/
def numberFrom : Nat → List Piece → List Piece
  | _, [] => []
  | k, .char c :: ps => .char c :: numberFrom k ps
  | k, .raw _ :: ps => .raw (marker k) :: numberFrom (k + 1) ps

/-- The pieces of markup without characters of code zero. -/
def freePieces (markup : String) : List Piece := pieces (dropNuls markup.toList)

/-- The elements of markup that are parked, in their order. -/
def parkedBlocks (markup : String) : List (List Char) := blocks (freePieces markup)

/-- The text that is left when the elements of markup are parked. -/
def parkedText (markup : String) : List Char := piecesText (numberFrom 0 (freePieces markup))

/-- Puts elements in the place of markers; there may be none of a marker's number. -/
def restoreAll? (elements : List (List Char)) : List Piece → Option (List Char)
  | [] => some []
  | .char c :: ps => (restoreAll? elements ps).map (c :: ·)
  | .raw text :: ps => do
    let element ← elements[markerNumber text]?
    let rest ← restoreAll? elements ps
    return element ++ rest

def restore? (elements : List (List Char)) (s : List Char) : Option (List Char) :=
  restoreAll? elements (cut markerLength? s)

section

variable {ps : List Piece}

theorem isParked_of_mem_numberFrom {k : Nat} (free : nul ∉ piecesText ps) :
    ∀ p ∈ numberFrom k ps, p.IsParked := by
  induction ps generalizing k with
  | nil => nofun
  | cons p ps ih =>
    rw [piecesText_cons, List.mem_append, not_or] at free
    cases p with
    | char c =>
      have here : c ≠ nul := fun same => free.1 (same ▸ List.mem_cons_self ..)
      exact List.forall_mem_cons.mpr ⟨here, ih free.2⟩
    | raw block => exact List.forall_mem_cons.mpr ⟨⟨k, rfl⟩, ih free.2⟩

theorem blocks_numberFrom (k : Nat) :
    (blocks (numberFrom k ps)).map markerNumber = List.range' k (blocks ps).length := by
  induction ps generalizing k with
  | nil => rfl
  | cons p ps ih =>
    cases p with
    | char c => exact ih k
    | raw block =>
      rw [numberFrom, blocks_raw, blocks_raw, List.map_cons, markerNumber_marker, ih,
        List.length_cons, List.range'_succ]

/-- Each marker has the number of the element that gave way to it. -/
theorem mapRaw_numberFrom (front : List (List Char)) :
    (numberFrom front.length ps).map
      (Piece.mapRaw fun text => (front ++ blocks ps).getD (markerNumber text) []) = ps := by
  induction ps generalizing front with
  | nil => rfl
  | cons p ps ih =>
    cases p with
    | char c => exact congrArg (Piece.char c :: ·) (ih front)
    | raw block =>
      have later := ih (front ++ [block])
      rw [List.length_append, List.append_assoc, List.length_singleton] at later
      have here : (front ++ block :: blocks ps).getD front.length [] = block := by
        rw [List.getD_eq_getElem?_getD, List.getElem?_append_right (Nat.le_refl _), Nat.sub_self]
        rfl
      rw [numberFrom, List.map_cons, Piece.mapRaw, markerNumber_marker, blocks_raw, here]
      exact congrArg (Piece.raw block :: ·) later

theorem restoreAll?_layout {elements : List (List Char)} {layout : List Part}
    (known : ∀ k ∈ numbers layout, k < elements.length) :
    restoreAll? elements (layout.map (Part.piece marker)) =
      some (write (fun k => elements.getD k []) layout) := by
  induction layout with
  | nil => rfl
  | cons part layout ih =>
    cases part with
    | char c =>
      rw [List.map_cons, Part.piece, restoreAll?, ih known]
      rfl
    | marker k =>
      obtain ⟨here, later⟩ := List.forall_mem_cons.mp known
      have isElement : elements[k]? = some (elements.getD k []) := by
        rw [List.getD_eq_getElem?_getD, List.getElem?_eq_getElem here]
        rfl
      rw [List.map_cons, Part.piece, restoreAll?, ih later, markerNumber_marker, isElement]
      rfl

/-! ## Reducing around markers -/

/-- All steps of reducing on pieces. -/
def reducePieces (ps : List Piece) : List Piece :=
  trimPieces (tighten none false (dropCommentsFrom 0 ps))

theorem mem_of_mem_tighten {before : Option Piece} {blank : Bool} {p : Piece}
    (member : p ∈ tighten before blank ps) : p = .char ' ' ∨ p ∈ ps := by
  induction ps generalizing before blank with
  | nil =>
    cases blank with
    | true => exact .inl (List.mem_singleton.mp member)
    | false => cases member
  | cons q ps ih =>
    cases isBlank : q.isBlank with
    | true =>
      rw [tighten, if_pos isBlank] at member
      exact (ih member).imp_right (List.mem_cons_of_mem _)
    | false =>
      rw [tighten_cons isBlank, List.mem_append, List.mem_cons] at member
      rcases member with space | rfl | member
      · split at space
        · exact .inl (List.mem_singleton.mp space)
        · cases space
      · exact .inr (List.mem_cons_self ..)
      · exact (ih member).imp_right (List.mem_cons_of_mem _)

theorem mem_of_mem_reducePieces {p : Piece} (member : p ∈ reducePieces ps) :
    p = .char ' ' ∨ p ∈ ps :=
  (mem_of_mem_tighten ((trimPieces_sublist _).subset member)).imp_right fun kept =>
    (dropCommentsFrom_sublist 0 ps).subset kept

theorem nul_not_mem_reducePieces (free : nul ∉ piecesText ps) :
    nul ∉ piecesText (reducePieces ps) := by
  intro member
  obtain ⟨p, inPieces, inText⟩ := List.mem_flatMap.mp member
  rcases mem_of_mem_reducePieces inPieces with rfl | given
  · revert inText
    decide
  · exact free (List.mem_flatMap.mpr ⟨p, given, inText⟩)

theorem isParked_of_mem_dropComments (parked : ∀ p ∈ ps, p.IsParked) :
    ∀ p ∈ dropCommentsFrom 0 ps, p.IsParked :=
  fun p member => parked p ((dropCommentsFrom_sublist 0 ps).subset member)

theorem isParked_of_mem_tighten {before : Option Piece} {blank : Bool}
    (parked : ∀ p ∈ ps, p.IsParked) : ∀ p ∈ tighten before blank ps, p.IsParked := by
  intro p member
  rcases mem_of_mem_tighten member with rfl | inPieces
  · have space : ' ' ≠ nul := by decide
    exact space
  · exact parked p inPieces

theorem isParked_of_mem_reducePieces (parked : ∀ p ∈ ps, p.IsParked) :
    ∀ p ∈ reducePieces ps, p.IsParked := fun p member =>
  isParked_of_mem_tighten (isParked_of_mem_dropComments parked) p
    ((trimPieces_sublist _).subset member)

theorem reducePieces_map (g : List Char → List Char) (ps : List Piece) :
    reducePieces (ps.map (Piece.mapRaw g)) = (reducePieces ps).map (Piece.mapRaw g) := by
  have tight := tighten_map g none false (dropCommentsFrom 0 ps)
  rw [Option.map_none] at tight
  rw [reducePieces, reducePieces, dropCommentsFrom_map, tight, trimPieces_map]

/-- The text is reduced to the text of the reduced pieces. -/
theorem reduce_piecesText (parked : ∀ p ∈ ps, p.IsParked) :
    reduce (piecesText ps) = piecesText (reducePieces ps) := by
  have kept := isParked_of_mem_dropComments parked
  rw [reduce, withoutComments_piecesText parked, collapse_closeGaps kept,
    trim_piecesText (isParked_of_mem_tighten kept), reducePieces]

theorem blocks_tighten (before : Option Piece) (blank : Bool) :
    blocks (tighten before blank ps) = blocks ps := by
  induction ps generalizing before blank with
  | nil => cases blank <;> rfl
  | cons p ps ih =>
    cases isBlank : p.isBlank with
    | true =>
      rw [tighten, if_pos isBlank, ih]
      cases p with
      | char c => rfl
      | raw block => cases isBlank
    | false =>
      have first (qs : List Piece) : blocks (p :: qs) = blocks [p] ++ blocks qs :=
        blocks_append [p] qs
      rw [tighten_cons isBlank, blocks_append, first, first ps, ih]
      split <;> rfl

theorem blocks_trimPieces (ps : List Piece) : blocks (trimPieces ps) = blocks ps := by
  obtain ⟨front, back, whole, isFront, isBack, -⟩ := exists_trimmed Piece.isBlank ps
  have none (qs : List Piece) (blank : ∀ q ∈ qs, q.isBlank = true) : blocks qs = [] := by
    rw [blocks, List.filterMap_eq_nil_iff]
    intro q member
    cases q with
    | char c => rfl
    | raw block => cases blank _ member
  have trimmedPieces : trimPieces ps = trimmed Piece.isBlank ps := rfl
  rw [trimmedPieces]
  conv_rhs => rw [whole]
  rw [blocks_append, blocks_append, none front isFront, none back isBack, List.append_nil]
  rfl

/-- What is left of distinct items is what has not been removed. -/
theorem eq_filter_of_perm {α : Type} [DecidableEq α] {all left removed : List α}
    (distinct : all.Nodup) (sublist : left.Sublist all) (shared : all.Perm (left ++ removed)) :
    left = all.filter (· ∉ removed) := by
  have apart := (List.nodup_append.mp (shared.nodup_iff.mp distinct)).2.2
  have stays : left.filter (· ∉ removed) = left := by
    rw [List.filter_eq_self]
    intro a member
    simpa using fun inRemoved => apart a member a inRemoved rfl
  have gone : removed.filter (· ∉ removed) = [] := by simp
  have perm := shared.filter (· ∉ removed)
  have filtered := sublist.filter (· ∉ removed)
  rw [List.filter_append, stays, gone, List.append_nil] at perm
  rw [stays] at filtered
  exact filtered.eq_of_length perm.length_eq.symm

/-- The markers that are left are those that stand in none of the comments that are dropped. -/
theorem numbers_reducePieces (parked : ∀ p ∈ ps, p.IsParked)
    (distinct : ((blocks ps).map markerNumber).Nodup) :
    (blocks (reducePieces ps)).map markerNumber = ((blocks ps).map markerNumber).filter
      fun k => k ∉ (removedComments (piecesText ps)).flatMap markersIn := by
  have shared := (blocks_perm parked).map markerNumber
  rw [List.map_append, List.map_flatMap] at shared
  have sublist := ((dropCommentsFrom_sublist 0 ps).filterMap Piece.block?).map markerNumber
  rw [reducePieces, blocks_trimPieces, blocks_tighten]
  exact eq_filter_of_perm distinct sublist shared

end

/-! ## The outcome -/

/-- The element that is parked behind a number. -/
def parkedElement (markup : String) (k : Nat) : List Char := (parkedBlocks markup).getD k []

theorem nul_not_mem_dropNuls (s : List Char) : nul ∉ dropNuls s := by
  intro member
  have code := (List.mem_filter.mp member).2
  revert code
  decide

/--
Reducing markup is reducing the text in which its kept elements are parked, and then putting each
element in the place of its marker: every marker that is left has an element. The elements are those
of the markup without characters of code zero, numbered from left to right, and the outcome has no
such character. It has the elements as they are and in their turn, each of them once, but those whose
markers stand in a comment that is dropped.
-/
theorem minify_eq_restored (markup : String) :
    restore? (parkedBlocks markup) (reduce (parkedText markup)) = some (minify markup).toList ∧
    nul ∉ (minify markup).toList ∧
    (∃ layout, IsFree layout ∧ parkedText markup = write marker layout ∧
      dropNuls markup.toList = write (parkedElement markup) layout ∧
      numbers layout = List.range (parkedBlocks markup).length) ∧
    ∃ layout, IsFree layout ∧ reduce (parkedText markup) = write marker layout ∧
      (minify markup).toList = write (parkedElement markup) layout ∧
      numbers layout = (List.range (parkedBlocks markup).length).filter
        fun k => k ∉ (removedComments (parkedText markup)).flatMap markersIn := by
  have text : piecesText (freePieces markup) = dropNuls markup.toList :=
    piecesText_piecesFrom 0 _
  have free : nul ∉ piecesText (freePieces markup) := text ▸ nul_not_mem_dropNuls _
  have parked := isParked_of_mem_numberFrom (k := 0) free
  have order : (blocks (numberFrom 0 (freePieces markup))).map markerNumber =
      List.range (parkedBlocks markup).length := by
    rw [blocks_numberFrom, List.range_eq_range', parkedBlocks]
  have elements : (numberFrom 0 (freePieces markup)).map
      (Piece.mapRaw fun text => parkedElement markup (markerNumber text)) = freePieces markup :=
    mapRaw_numberFrom []
  have distinct := List.nodup_range (n := (parkedBlocks markup).length)
  rw [← order] at distinct
  obtain ⟨layout, isLayout, isFree, isOrder⟩ := exists_layout parked
  obtain ⟨reduced, isReduced, isFree', isOrder'⟩ :=
    exists_layout (isParked_of_mem_reducePieces parked)
  have outcome : (minify markup).toList = write (parkedElement markup) reduced := by
    rw [minify, String.toList_ofList, write, ← map_piece_marker, ← isReduced, ← reducePieces_map,
      elements]
    rfl
  have around : reduce (parkedText markup) = write marker reduced := by
    rw [parkedText, reduce_piecesText parked, isReduced, write]
  have left : numbers reduced = (List.range (parkedBlocks markup).length).filter
      fun k => k ∉ (removedComments (parkedText markup)).flatMap markersIn := by
    rw [isOrder', numbers_reducePieces parked distinct, order, parkedText]
  refine ⟨?_, ?_, ⟨layout, isFree, ?_, ?_, isOrder.trans order⟩, reduced, isFree', around, outcome,
    left⟩
  · have known : ∀ k ∈ numbers reduced, k < (parkedBlocks markup).length := by
      intro k member
      rw [left] at member
      exact List.mem_range.mp (List.mem_of_mem_filter member)
    rw [restore?, parkedText, reduce_piecesText parked,
      cut_piecesText (isParked_of_mem_reducePieces parked), isReduced, restoreAll?_layout known,
      outcome]
    rfl
  · have pieces := nul_not_mem_reducePieces free
    rw [minify, String.toList_ofList]
    exact pieces
  · rw [parkedText, isLayout, write]
  · rw [write, ← map_piece_marker, ← isLayout, elements, text]

example : parkedText "\x000\x00 <pre> 1 </pre>2" = ['0', ' '] ++ marker 0 ++ ['2'] := by
  decide +kernel

end StaticSite.Markup
