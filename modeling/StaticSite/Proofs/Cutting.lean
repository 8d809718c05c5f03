import StaticSite.Proofs.Uncommenting

/-!
# Cutting markup and dropping comments

Markup is cut into kept elements and characters without regard to tags and comments. Where no kept
element starts inside a tag or a comment, and no comment inside a tag, the pieces are those of the
reader's tokens, and the comments that are dropped are the reader's.
-/

namespace StaticSite.Markup

/-! ## Sealed tokens -/

/-- What starts inside a text, in front of `rest`. -/
def inner (text rest : List Char) : List (List Char) :=
  (text.tail.tails.filter (!·.isEmpty)).map (· ++ rest)

/-- Whether no kept element starts inside a tag or a comment, and no comment inside a tag. -/
def isSealed (conditional : Bool) : List Token → Bool
  | [] => true
  | .tag text :: ts =>
    (inner text (textOf ts)).all
        (fun s => (rawLength? s).isNone && (comment? conditional s).isNone) &&
      isSealed conditional ts
  | .comment text :: ts =>
    (inner text (textOf ts)).all (fun s => (rawLength? s).isNone) && isSealed conditional ts
  | _ :: ts => isSealed conditional ts

/-! ## Pieces -/

/-- The pieces of a token. -/
def Token.pieces : Token → List Piece
  | .raw block => [.raw block]
  | token => token.text.map .char

def piecesOf (ts : List Token) : List Piece := ts.flatMap Token.pieces

@[simp] theorem piecesOf_cons (token : Token) (ts : List Token) :
    piecesOf (token :: ts) = token.pieces ++ piecesOf ts := List.flatMap_cons

theorem flatMap_text_piecesOf (ts : List Token) : (piecesOf ts).flatMap Piece.text = textOf ts := by
  induction ts with
  | nil => rfl
  | cons token ts ih =>
    rw [piecesOf_cons, List.flatMap_append, ih, textOf_cons]
    cases token <;> simp [Token.pieces, Piece.text, Token.text, List.flatMap_map]

section

variable {conditional : Bool} {ts : List Token} {text rest : List Char}

theorem eq_or_mem_inner {s : List Char} (within : s <:+ text) (nonempty : s ≠ []) :
    s = text ∨ s ++ rest ∈ inner text rest := by
  cases text with
  | nil => exact absurd (List.suffix_nil.mp within) nonempty
  | cons c text =>
    rcases List.suffix_cons_iff.mp within with rfl | within
    · exact .inl rfl
    · refine .inr (List.mem_map_of_mem (List.mem_filter.mpr ⟨(List.mem_tails ..).mpr within, ?_⟩))
      simpa using nonempty

theorem piecesFrom_eq (skip : Nat) (s : List Char) : piecesFrom skip s = pieces (s.drop skip) := by
  induction skip generalizing s with
  | zero => rfl
  | succ skip ih =>
    cases s with
    | nil => rfl
    | cons c s => exact ih s

theorem pieces_append
    (absent : ∀ s, s <:+ text → s ≠ [] → rawLength? (s ++ rest) = none) :
    pieces (text ++ rest) = text.map .char ++ pieces rest := by
  induction text with
  | nil => rfl
  | cons c text ih =>
    have here := absent (c :: text) (List.suffix_refl _) (by simp)
    rw [List.cons_append] at here ⊢
    rw [pieces, piecesFrom, here]
    have later := ih fun s within => absent s (within.trans (List.suffix_cons ..))
    rw [List.map_cons, List.cons_append, ← later]
    rfl

theorem pieces_raw {block : List Char} (starts : (Token.raw block).Starts conditional rest) :
    pieces (block ++ rest) = .raw block :: pieces rest := by
  have found := starts_raw_iff.mp starts
  obtain ⟨⟨inside, isBlock⟩, -⟩ := starts.raw
  have split : block ++ rest = '<' :: (inside ++ ['>'] ++ rest) := by simp [isBlock]
  have drop : (inside ++ ['>'] ++ rest).drop (block.length - 1) = rest := by simp [isBlock]
  rw [split] at found ⊢
  rw [pieces, piecesFrom, found]
  simp only [piecesFrom_eq, drop, ← split, List.take_left]

/-- A tag or comment in which nothing starts is cut into its characters. -/
theorem pieces_sealed (absent : rawLength? (text ++ rest) = none)
    (inside : ∀ s ∈ inner text rest, rawLength? s = none) :
    pieces (text ++ rest) = text.map .char ++ pieces rest := by
  refine pieces_append fun s within nonempty => ?_
  -- the rest of the text is all of it, where the reader has looked, or one that is sealed
  rcases eq_or_mem_inner within nonempty with rfl | isInner
  · exact absent
  · exact inside _ isInner

/-- The pieces of markup are those of its tokens. -/
theorem pieces_textOf (scans : Scans conditional ts) (sealed : isSealed conditional ts = true) :
    pieces (textOf ts) = piecesOf ts := by
  induction ts with
  | nil => rfl
  | cons token ts ih =>
    obtain ⟨starts, scans⟩ := scans
    rw [textOf_cons, piecesOf_cons]
    cases token with
    | raw block =>
      rw [← ih scans sealed]
      exact pieces_raw starts
    | char c =>
      rw [← ih scans sealed]
      exact pieces_sealed starts.char_absent.1 (by simp [inner, Token.text])
    | comment text =>
      simp only [isSealed, Bool.and_eq_true, List.all_eq_true, Option.isNone_iff_eq_none]
        at sealed
      rw [← ih scans sealed.2]
      exact pieces_sealed (starts_comment_iff.mp starts).1 sealed.1
    | tag text =>
      simp only [isSealed, Bool.and_eq_true, List.all_eq_true, Option.isNone_iff_eq_none]
        at sealed
      rw [← ih scans sealed.2]
      exact pieces_sealed (starts_tag_iff.mp starts).2.1 fun s within => (sealed.1 s within).1

end

/-! ## Marks -/

section

variable {mark : List Char} {ps rest : List Piece}

theorem dropMark?_eq_some : dropMark? mark ps = some rest ↔ ps = mark.map .char ++ rest := by
  induction mark generalizing ps with
  | nil => simp [dropMark?]
  | cons m mark ih =>
    cases ps with
    | nil => simp [dropMark?]
    | cons p ps =>
      cases p with
      | raw block => simp [dropMark?]
      | char c =>
        by_cases same : m = c
        · subst same
          simp [dropMark?, ih]
        · simp [dropMark?, same, Ne.symm same]

theorem isSome_dropMark?_iff : (dropMark? mark ps).isSome ↔ mark.map .char <+: ps := by
  rw [Option.isSome_iff_exists]
  simp only [dropMark?_eq_some, List.IsPrefix]
  exact exists_congr fun _ => eq_comm

theorem flatMap_text_map_char (s : List Char) : (s.map Piece.char).flatMap Piece.text = s := by
  simp [List.flatMap_map, Piece.text]

/-- A mark that the pieces hold is one that their text holds. -/
theorem infix_of_isSome_lengthToMark? (found : (lengthToMark? mark ps).isSome) :
    mark <:+: ps.flatMap Piece.text := by
  induction ps with
  | nil => cases found
  | cons p ps ih =>
    unfold lengthToMark? at found
    split at found
    next rest starts =>
      rw [dropMark?_eq_some.mp starts, List.flatMap_append, flatMap_text_map_char]
      exact (List.prefix_append ..).isInfix
    · rw [Option.isSome_map] at found
      rw [List.flatMap_cons]
      exact (ih found).trans (List.suffix_append ..).isInfix

/-- A mark without brackets does not start in a kept element. -/
theorem map_char_prefix (absent : '<' ∉ mark)
    (kept : ∀ block, .raw block ∈ ps → ∃ inside, block = '<' :: inside)
    (starts : mark <+: ps.flatMap Piece.text) : mark.map .char <+: ps := by
  induction mark generalizing ps with
  | nil => simp
  | cons m mark ih =>
    cases ps with
    | nil => simp at starts
    | cons p ps =>
      simp only [List.mem_cons, not_or] at absent
      cases p with
      | raw block =>
        obtain ⟨inside, rfl⟩ := kept block (List.mem_cons_self ..)
        obtain ⟨rfl, -⟩ := List.cons_prefix_cons.mp starts
        exact absurd rfl absent.1
      | char c =>
        obtain ⟨rfl, later⟩ := List.cons_prefix_cons.mp starts
        have kept' (block : List Char) (member : .raw block ∈ ps) :=
          kept block (List.mem_cons_of_mem _ member)
        exact List.cons_prefix_cons.mpr ⟨rfl, ih absent.2 kept' later⟩

/-- A mark that is no longer than the characters in front stands in these. -/
theorem prefix_of_map_char_prefix {s : List Char} (short : mark.length ≤ s.length)
    (starts : mark.map .char <+: s.map .char ++ ps) : mark <+: s := by
  induction mark generalizing s with
  | nil => simp
  | cons m mark ih =>
    cases s with
    | nil => cases short
    | cons c s =>
      obtain ⟨same, later⟩ := List.cons_prefix_cons.mp starts
      cases same
      exact List.cons_prefix_cons.mpr ⟨rfl, ih (Nat.le_of_succ_le_succ short) later⟩

end

/-! ## Comments -/

section

variable {conditional : Bool} {ts : List Token} {ps rest : List Piece}

theorem commentLength?_eq (ps : List Piece) :
    commentLength? ps =
      match dropMark? ['<', '!', '-', '-'] ps with
      | none => none
      | some body =>
        if (dropMark? ['[', 'i', 'f'] body).isSome then none
        else (lengthToMark? ['-', '-', '>'] body).map (· + 4) := rfl

/-- Where the pieces show a comment, the reader finds one in their text. -/
theorem commentLength?_eq_none (kept : ∀ block, .raw block ∈ ps → ∃ inside, block = '<' :: inside)
    (absent : comment? conditional (ps.flatMap Piece.text) = none) : commentLength? ps = none := by
  rw [commentLength?_eq]
  split
  · rfl
  next body opened =>
    obtain rfl := dropMark?_eq_some.mp opened
    split
    · rfl
    next plain =>
      rw [Option.map_eq_none_iff, ← Option.not_isSome_iff_eq_none]
      intro closed
      rw [← Option.not_isSome_iff_eq_none, isSome_comment?_iff] at absent
      refine absent ⟨body.flatMap Piece.text, ?_, fun _ starts => plain ?_,
        infix_of_isSome_lengthToMark? closed⟩
      · rw [List.flatMap_append, flatMap_text_map_char]
      · rw [isSome_dropMark?_iff]
        exact map_char_prefix (by decide)
          (fun block member => kept block (List.mem_append_right _ member)) starts

theorem lengthToMark?_append {mark inside after : List Char} (nonempty : mark ≠ [])
    (split : Text.splitAtMark? mark (inside ++ mark ++ after) = some (inside, after)) :
    lengthToMark? mark ((inside ++ mark).map .char ++ ps) =
      some (inside.length + mark.length) := by
  induction inside with
  | nil =>
    obtain ⟨m, mark, rfl⟩ := List.exists_cons_of_ne_nil nonempty
    have starts := dropMark?_eq_some.mpr (show (m :: mark).map .char ++ ps = _ from rfl)
    simp only [List.nil_append, List.map_cons, List.cons_append] at starts ⊢
    rw [lengthToMark?, starts]
    simp
  | cons c inside ih =>
    rw [List.cons_append, List.cons_append, Text.splitAtMark?] at split
    cases started : Text.dropMark? mark (c :: (inside ++ mark ++ after)) with
    | some rest =>
      rw [started] at split
      cases split
    | none =>
      rw [started] at split
      obtain ⟨⟨before, behind⟩, later, same⟩ := Option.map_eq_some_iff.mp split
      cases same
      -- a mark that starts before the first one would stand in the text without what follows it
      have absent : dropMark? mark ((c :: (inside ++ mark)).map .char ++ ps) = none := by
        rw [← Option.not_isSome_iff_eq_none, isSome_dropMark?_iff]
        intro starts
        obtain ⟨rest, isMark⟩ := prefix_of_map_char_prefix (by simp; omega) starts
        have whole : c :: (inside ++ mark ++ after) = mark ++ (rest ++ after) := by
          rw [← List.append_assoc, isMark]
          rfl
        rw [Text.dropMark?_eq_some.mpr whole] at started
        cases started
      simp only [List.cons_append, List.map_cons] at absent ⊢
      rw [lengthToMark?, absent, ih later]
      simp
      omega

theorem commentLength?_comment {text after : List Char}
    (isComment : comment? conditional (text ++ after) = some text)
    (plain : ¬ ['<', '!', '-', '-', '[', 'i', 'f'] <+: text) :
    commentLength? (text.map .char ++ ps) = some text.length := by
  obtain ⟨inside, after, rfl, whole, split⟩ := comment?_eq_some isComment
  obtain rfl := List.append_cancel_left whole
  have opened : dropMark? ['<', '!', '-', '-']
      ((['<', '!', '-', '-'] ++ inside ++ ['-', '-', '>']).map .char ++ ps) =
        some ((inside ++ ['-', '-', '>']).map .char ++ ps) := by
    rw [dropMark?_eq_some]
    simp
  have unconditional : ¬ (dropMark? ['[', 'i', 'f']
      ((inside ++ ['-', '-', '>']).map .char ++ ps)).isSome := by
    rw [isSome_dropMark?_iff]
    intro starts
    obtain ⟨rest, isInside⟩ := prefix_of_map_char_prefix (by simp) starts
    exact plain ⟨rest, by simp [← isInside]⟩
  rw [commentLength?_eq, opened]
  dsimp only
  rw [if_neg unconditional, lengthToMark?_append (by simp) split]
  simp

theorem dropCommentsFrom_eq (skip : Nat) (ps : List Piece) :
    dropCommentsFrom skip ps = dropCommentsFrom 0 (ps.drop skip) := by
  induction skip generalizing ps with
  | zero => rfl
  | succ skip ih =>
    cases ps with
    | nil => rfl
    | cons p ps => exact ih ps

theorem dropComments_comment (nonempty : ps ≠ [])
    (found : commentLength? (ps ++ rest) = some ps.length) :
    dropCommentsFrom 0 (ps ++ rest) = dropCommentsFrom 0 rest := by
  obtain ⟨p, ps, rfl⟩ := List.exists_cons_of_ne_nil nonempty
  rw [List.cons_append] at found ⊢
  rw [dropCommentsFrom, found]
  dsimp only
  rw [dropCommentsFrom_eq]
  simp

theorem dropComments_append {text : List Char}
    (absent : ∀ s, s <:+ text → s ≠ [] → commentLength? (s.map .char ++ rest) = none) :
    dropCommentsFrom 0 (text.map .char ++ rest) = text.map .char ++ dropCommentsFrom 0 rest := by
  induction text with
  | nil => rfl
  | cons c text ih =>
    have here := absent (c :: text) (List.suffix_refl _) (by simp)
    rw [List.map_cons, List.cons_append] at here ⊢
    rw [dropCommentsFrom, here]
    have later := ih fun s within => absent s (within.trans (List.suffix_cons ..))
    rw [List.cons_append, ← later]

theorem exists_of_raw_mem_piecesOf (scans : Scans conditional ts) (block : List Char)
    (member : .raw block ∈ piecesOf ts) : ∃ inside, block = '<' :: inside := by
  obtain ⟨token, inTokens, inPieces⟩ := List.mem_flatMap.mp member
  obtain ⟨rest, starts⟩ := scans.exists_starts inTokens
  cases token with
  | raw block' =>
    obtain ⟨⟨inside, isBlock⟩, -⟩ := starts.raw
    cases List.mem_singleton.mp inPieces
    exact ⟨_, isBlock⟩
  | _ => simp [Token.pieces] at inPieces

/-- A tag or a character in which no comment starts stays. -/
theorem dropComments_sealed (scans : Scans conditional ts) {text : List Char}
    (absent : comment? conditional (text ++ textOf ts) = none)
    (inside : ∀ s ∈ inner text (textOf ts), comment? conditional s = none) :
    dropCommentsFrom 0 (text.map .char ++ piecesOf ts) =
      text.map .char ++ dropCommentsFrom 0 (piecesOf ts) := by
  refine dropComments_append fun s within nonempty => ?_
  have kept (block : List Char) (member : .raw block ∈ s.map .char ++ piecesOf ts) :
      ∃ inside, block = '<' :: inside :=
    exists_of_raw_mem_piecesOf scans block (by simpa using member)
  refine commentLength?_eq_none kept (?_ : comment? conditional _ = none)
  rw [List.flatMap_append, flatMap_text_map_char, flatMap_text_piecesOf]
  rcases eq_or_mem_inner within nonempty with rfl | isInner
  · exact absent
  · exact inside _ isInner

/-- The comments that are dropped are the reader's. -/
theorem dropComments_piecesOf (scans : Scans conditional ts)
    (sealed : isSealed conditional ts = true)
    (plain : ∀ text, .comment text ∈ ts → ¬ ['<', '!', '-', '-', '[', 'i', 'f'] <+: text) :
    dropCommentsFrom 0 (piecesOf ts) = piecesOf (uncommented ts) := by
  induction ts with
  | nil => rfl
  | cons token ts ih =>
    obtain ⟨starts, scans⟩ := scans
    have plainLater (text : List Char) (member : .comment text ∈ ts) :=
      plain text (List.mem_cons_of_mem _ member)
    rw [piecesOf_cons]
    cases token with
    | raw block =>
      have later := ih scans sealed plainLater
      exact congrArg (.raw block :: ·) later
    | char c =>
      have stays : dropCommentsFrom 0 ([c].map .char ++ piecesOf ts) = _ :=
        dropComments_sealed scans starts.char_absent.2 (by simp [inner])
      exact stays.trans (congrArg ([Piece.char c] ++ ·) (ih scans sealed plainLater))
    | comment text =>
      simp only [isSealed, Bool.and_eq_true] at sealed
      have isComment := (starts_comment_iff.mp starts).2
      have nonempty : text.map Piece.char ≠ [] := by
        obtain ⟨inside, -, rfl, -⟩ := comment?_eq_some isComment
        simp
      have found : commentLength? (text.map .char ++ piecesOf ts) =
          some (text.map Piece.char).length := by
        rw [List.length_map]
        exact commentLength?_comment isComment (plain text (List.mem_cons_self ..))
      exact (dropComments_comment nonempty found).trans (ih scans sealed.2 plainLater)
    | tag text =>
      simp only [isSealed, Bool.and_eq_true, List.all_eq_true, Option.isNone_iff_eq_none] at sealed
      have stays := dropComments_sealed scans (starts_tag_iff.mp starts).2.2
        fun s within => (sealed.1 s within).2
      exact stays.trans (congrArg (text.map .char ++ ·) (ih scans sealed.2 plainLater))

end

end StaticSite.Markup
