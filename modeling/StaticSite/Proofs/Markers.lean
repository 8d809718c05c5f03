import StaticSite.Proofs.Cutting
import StaticSite.Proofs.Shrinking
import StaticSite.Proofs.Spelling

/-!
# Markers

Kept elements can also be parked while a text is reduced: each gives way to a marker, which is its
number between two characters of code zero, and comes back for it in the end. Where no other
character has code zero, a text shows its markers, and what is looked for in it starts and ends
outside of them.
-/

namespace StaticSite.Markup

/-! ## Cutting a text at what is found in it -/

/-- Cuts a text at what `length?` finds in it, skipping the characters of a find. -/
def cutFrom (length? : List Char → Option Nat) : Nat → List Char → List Piece
  | _, [] => []
  | skip + 1, _ :: s => cutFrom length? skip s
  | 0, c :: s =>
    match length? (c :: s) with
    | some length => .raw ((c :: s).take length) :: cutFrom length? (length - 1) s
    | none => .char c :: cutFrom length? 0 s

def cut (length? : List Char → Option Nat) (s : List Char) : List Piece := cutFrom length? 0 s

def Piece.block? : Piece → Option (List Char)
  | .raw block => some block
  | .char _ => none

def Piece.char? : Piece → Option Char
  | .raw _ => none
  | .char c => some c

/-- The texts that have been found, in their order. -/
def blocks (ps : List Piece) : List (List Char) := ps.filterMap Piece.block?

@[simp] theorem blocks_raw (block : List Char) (ps : List Piece) :
    blocks (.raw block :: ps) = block :: blocks ps := rfl

@[simp] theorem blocks_char (c : Char) (ps : List Piece) : blocks (.char c :: ps) = blocks ps := rfl

@[simp] theorem blocks_append (ps qs : List Piece) : blocks (ps ++ qs) = blocks ps ++ blocks qs :=
  List.filterMap_append

@[simp] theorem piecesText_append (ps qs : List Piece) :
    piecesText (ps ++ qs) = piecesText ps ++ piecesText qs := List.flatMap_append

section

variable {length? : List Char → Option Nat} {c : Char} {s t : List Char}

theorem cutFrom_eq (skip : Nat) (s : List Char) :
    cutFrom length? skip s = cut length? (s.drop skip) := by
  induction skip generalizing s with
  | zero => rfl
  | succ skip ih =>
    cases s with
    | nil => rfl
    | cons c s => exact ih s

theorem cut_cons (absent : length? (c :: s) = none) :
    cut length? (c :: s) = .char c :: cut length? s := by
  rw [cut, cutFrom, absent]
  rfl

theorem cut_found (nonempty : t ≠ []) (found : length? (t ++ s) = some t.length) :
    cut length? (t ++ s) = .raw t :: cut length? s := by
  obtain ⟨d, t, rfl⟩ := List.exists_cons_of_ne_nil nonempty
  rw [List.cons_append] at found ⊢
  rw [cut, cutFrom, found]
  dsimp only
  rw [cutFrom_eq, ← List.cons_append, List.take_left, List.length_cons, Nat.add_sub_cancel,
    List.drop_left]

theorem cut_append (absent : ∀ u, u <:+ t → u ≠ [] → length? (u ++ s) = none) :
    cut length? (t ++ s) = t.map .char ++ cut length? s := by
  induction t with
  | nil => rfl
  | cons d t ih =>
    have here := absent (d :: t) (List.suffix_refl _) (List.cons_ne_nil _ _)
    rw [List.cons_append] at here ⊢
    rw [cut_cons here, ih fun u within => absent u (within.trans (List.suffix_cons ..))]
    rfl

end

/-! ## Markers -/

/-- The character of code zero. -/
def nul : Char := '\x00'

/-- What stands for the element of this number. -/
def marker (k : Nat) : List Char := nul :: (Nat.toDigits 10 k ++ [nul])

def isDigit (c : Char) : Bool := (Text.digitValue? c).isSome

/-- The length of the marker that a text starts with. -/
def markerLength? : List Char → Option Nat
  | [] => none
  | c :: s =>
    let digits := s.takeWhile isDigit
    if c = nul ∧ digits ≠ [] ∧ (s.dropWhile isDigit).head? = some nul then some (digits.length + 2)
    else none

/-- The number that stands in a marker. -/
def markerNumber (text : List Char) : Nat := Text.digitsValue 10 (text.filterMap Text.digitValue?)

/-- The numbers of the markers in a text, from left to right. -/
def markersIn (s : List Char) : List Nat := (blocks (cut markerLength? s)).map markerNumber

theorem isDigit_of_mem_toDigits (k : Nat) : ∀ c ∈ Nat.toDigits 10 k, isDigit c = true := by
  have all : ∀ digit < 10, isDigit digit.digitChar = true := by decide
  exact Text.forall_mem_toDigits (by decide) all k

/-- What stands in a marker. -/
theorem eq_nul_or_isDigit {k : Nat} {c : Char} (member : c ∈ marker k) :
    c = nul ∨ isDigit c = true := by
  rw [marker, List.mem_cons, List.mem_append, List.mem_singleton] at member
  rcases member with rfl | digit | rfl
  · exact .inl rfl
  · exact .inr (isDigit_of_mem_toDigits k c digit)
  · exact .inl rfl

theorem markerNumber_marker (k : Nat) : markerNumber (marker k) = k := by
  have noDigit : Text.digitValue? nul = none := by decide
  rw [markerNumber, marker, List.filterMap_cons_none noDigit, List.filterMap_append,
    List.filterMap_cons_none noDigit, List.filterMap_nil, List.append_nil]
  exact Text.digitsValue_toDigits (by decide) (fun _ => Text.digitValue?_digitChar) k

theorem markerLength?_marker (k : Nat) (s : List Char) :
    markerLength? (marker k ++ s) = some (marker k).length := by
  have digits := isDigit_of_mem_toDigits k
  have noDigit : isDigit nul = false := by decide
  have split : (Nat.toDigits 10 k ++ [nul] ++ s).takeWhile isDigit = Nat.toDigits 10 k ∧
      (Nat.toDigits 10 k ++ [nul] ++ s).dropWhile isDigit = nul :: s := by
    rw [List.append_assoc, List.takeWhile_append_of_pos digits, List.dropWhile_append_of_pos digits]
    simp [noDigit]
  rw [marker, List.cons_append, markerLength?, split.1, split.2]
  simp [Nat.toDigits_ne_nil]

/-! ## Parked pieces -/

/-- Whether a piece is shown as what it is: a character of another code, or a marker. -/
def Piece.IsParked : Piece → Prop
  | .char c => c ≠ nul
  | .raw block => ∃ k, block = marker k

theorem Piece.IsParked.cut_append {p : Piece} (parked : p.IsParked) (s : List Char) :
    cut markerLength? (p.text ++ s) = p :: cut markerLength? s := by
  cases p with
  | char c =>
    have absent : markerLength? (c :: s) = none := if_neg fun starts => parked starts.1
    exact cut_cons absent
  | raw block =>
    obtain ⟨k, rfl⟩ := parked
    exact cut_found (List.cons_ne_nil _ _) (markerLength?_marker k s)

/-- Parked pieces are found again in their text. -/
theorem cut_piecesText {ps : List Piece} (parked : ∀ p ∈ ps, p.IsParked) :
    cut markerLength? (piecesText ps) = ps := by
  induction ps with
  | nil => rfl
  | cons p ps ih =>
    obtain ⟨here, later⟩ := List.forall_mem_cons.mp parked
    rw [piecesText_cons, here.cut_append, ih later]

/-! ## Marks in a text with markers -/

section

variable {m : Char} {mark : List Char} {ps : List Piece}

theorem dropMark?_piecesText (outside : nul ∉ mark) (parked : ∀ p ∈ ps, p.IsParked) :
    Text.dropMark? mark (piecesText ps) = (dropMark? mark ps).map piecesText := by
  induction mark generalizing ps with
  | nil => rfl
  | cons m mark ih =>
    obtain ⟨notHere, outside⟩ := not_or.mp (List.mem_cons.not.mp outside)
    cases ps with
    | nil => rfl
    | cons p ps =>
      obtain ⟨here, later⟩ := List.forall_mem_cons.mp parked
      cases p with
      | char c =>
        rw [piecesText_cons, Piece.text, List.singleton_append, Text.dropMark?, dropMark?]
        split
        · exact ih outside later
        · rfl
      | raw block =>
        obtain ⟨k, rfl⟩ := here
        rw [piecesText_cons, Piece.text, marker, List.cons_append, Text.dropMark?,
          if_neg (Ne.symm notHere)]
        rfl

/-- The first mark in a text with markers is the first one in front of, behind or between them. -/
theorem splitAtMark?_piecesText (outside : nul ∉ m :: mark) (noDigit : isDigit m = false)
    (parked : ∀ p ∈ ps, p.IsParked) :
    (Text.splitAtMark? (m :: mark) (piecesText ps)).map (fun (before, _) =>
        before ++ m :: mark) =
      (lengthToMark? (m :: mark) ps).map fun length => piecesText (ps.take length) := by
  induction ps with
  | nil => rfl
  | cons p ps ih =>
    obtain ⟨here, later⟩ := List.forall_mem_cons.mp parked
    have drop := dropMark?_piecesText outside parked
    cases p with
    | char c =>
      rw [piecesText_cons, Piece.text, List.singleton_append] at drop ⊢
      rw [Text.splitAtMark?, lengthToMark?, drop]
      cases started : dropMark? (m :: mark) (.char c :: ps) with
      | some rest =>
        rw [dropMark?_eq_some.mp started]
        simp only [Option.map_some, Option.some.injEq]
        have sameLength : (m :: mark).length = ((m :: mark).map Piece.char).length := by simp
        rw [sameLength, List.take_left]
        exact (flatMap_text_map_char (m :: mark)).symm
      | none =>
        have split := ih later
        simp only [Option.map_none, Option.map_map] at split ⊢
        have front := congrArg (Option.map (c :: ·)) split
        rw [Option.map_map, Option.map_map] at front
        exact front
    | raw block =>
      obtain ⟨k, rfl⟩ := here
      have absent : m ∉ marker k := fun member => by
        rcases eq_nul_or_isDigit member with rfl | digit
        · exact outside (List.mem_cons_self ..)
        · rw [noDigit] at digit
          cases digit
      have noMark : dropMark? (m :: mark) (.raw (marker k) :: ps) = none := rfl
      have front := congrArg (Option.map (marker k ++ ·)) (ih later)
      rw [piecesText_cons, Piece.text, Text.splitAtMark?_append absent, lengthToMark?, noMark,
        Option.map_map, Option.map_map]
      rw [Option.map_map, Option.map_map] at front
      simpa only [Function.comp_def, List.append_assoc, List.take_succ_cons, piecesText_cons,
        Piece.text] using front

end

end StaticSite.Markup
