import StaticSite.Proofs.Squeezing

/-!
# Minified markup as squeezed tokens

The minifier knows no tags: it takes kept elements and comments out, drops the blanks between a `>`
and a `<` and makes the other ones spaces. Where the reader's tokens are sealed, what it writes is the
text of these tokens, without the comments and squeezed.
-/

namespace StaticSite.Markup

/-! ## Ends -/

section

variable {conditional closed : Bool} {ts : List Token}

theorem squeeze_blanks {blanks : List Token} (blank : ∀ b ∈ blanks, b.isBlank = true)
    (pending : Bool) :
    squeeze closed pending (blanks ++ ts) = squeeze closed (pending || !blanks.isEmpty) ts := by
  induction blanks generalizing pending with
  | nil => simp
  | cons b blanks ih =>
    obtain ⟨here, later⟩ := List.forall_mem_cons.mp blank
    rw [List.cons_append, squeeze, if_pos here, ih later]
    simp

/-- What is squeezed in front of a token that is not blank does not depend on what follows. -/
theorem exists_squeeze_append (ts : List Token) {token : Token} (solid : token.isBlank = false)
    (closed pending : Bool) :
    ∃ front, ∀ rest, squeeze closed pending (ts ++ token :: rest) =
      front ++ token.squashed :: squeeze token.closes false rest := by
  induction ts generalizing closed pending with
  | nil => exact ⟨_, fun rest => squeeze_cons solid⟩
  | cons first ts ih =>
    cases blank : first.isBlank with
    | true =>
      obtain ⟨front, same⟩ := ih closed true
      exact ⟨front, fun rest => by rw [List.cons_append, squeeze, if_pos blank, same]⟩
    | false =>
      obtain ⟨front, same⟩ := ih first.closes false
      refine ⟨(if pending && !(closed && first.opens) then [.char ' '] else []) ++
        first.squashed :: front, fun rest => ?_⟩
      rw [List.cons_append, squeeze_cons blank, same, List.append_assoc, List.cons_append]

@[simp] theorem isBlank_squashed (token : Token) : token.squashed.isBlank = token.isBlank := by
  cases token <;> rfl

theorem hasEnds_squeeze (ends : HasEnds Token.isBlank ts) :
    HasEnds Token.isBlank (squeeze closed false ts) := by
  constructor
  · cases ts with
    | nil => simp [squeeze]
    | cons token ts =>
      have solid := ends.head token rfl
      rw [squeeze_cons solid]
      simpa using solid
  · rcases List.eq_nil_or_concat ts with rfl | ⟨front, token, rfl⟩
    · simp [squeeze]
    · have solid := ends.last token (by simp)
      obtain ⟨front', same⟩ := exists_squeeze_append front solid closed false
      rw [List.concat_eq_append, same]
      simpa [squeeze] using solid

theorem squeeze_pending {first : Token} (solid : first.isBlank = false) (pending : Bool) :
    squeeze false pending (first :: ts) =
      squeeze false pending [] ++ squeeze false false (first :: ts) := by
  rw [squeeze_cons solid, squeeze_cons solid]
  simp [squeeze]

/-- Blanks at the ends become at most a space at either end. -/
theorem exists_squeeze_ends {front back : List Token} (ends : HasEnds Token.isBlank ts)
    (isFront : ∀ b ∈ front, b.isBlank = true) (isBack : ∀ b ∈ back, b.isBlank = true) :
    ∃ lead tail : List Token, (∀ token ∈ lead, token = .char ' ') ∧
      (∀ token ∈ tail, token = .char ' ') ∧
      squeeze false false (front ++ ts ++ back) = lead ++ squeeze false false ts ++ tail := by
  have space (closed pending : Bool) : ∀ token ∈ squeeze closed pending [], token = .char ' ' := by
    cases pending <;> simp [squeeze]
  rw [List.append_assoc, squeeze_blanks isFront, Bool.false_or]
  rcases List.eq_nil_or_concat ts with rfl | ⟨init, last, isConcat⟩
  · refine ⟨squeeze false (!front.isEmpty || !back.isEmpty) [], [], space _ _, by simp, ?_⟩
    have all := @squeeze_blanks false [] back isBack (!front.isEmpty)
    simpa [squeeze] using all
  · rw [List.concat_eq_append] at isConcat
    have solid : last.isBlank = false := ends.last last (by simp [isConcat])
    obtain ⟨front', same⟩ := exists_squeeze_append init solid false false
    have tail := @squeeze_blanks last.closes [] back isBack false
    rw [List.append_nil, Bool.false_or] at tail
    have whole : squeeze false false (ts ++ back) =
        squeeze false false ts ++ squeeze last.closes (!back.isEmpty) [] := by
      rw [isConcat, List.append_assoc, List.singleton_append, same, same, ← tail]
      simp [squeeze]
    refine ⟨squeeze false (!front.isEmpty) [], _, space _ _, space last.closes (!back.isEmpty), ?_⟩
    rw [List.append_assoc, ← whole]
    cases ts with
    | nil => simp at isConcat
    | cons first ts => exact squeeze_pending (ends.head first rfl) _

theorem isComment_squeeze (free : ∀ token ∈ ts, token.isComment = false) (closed pending : Bool) :
    ∀ token ∈ squeeze closed pending ts, token.isComment = false := by
  induction ts generalizing closed pending with
  | nil => cases pending <;> simp [squeeze, Token.isComment]
  | cons first ts ih =>
    obtain ⟨noComment, free⟩ := List.forall_mem_cons.mp free
    have here : first.squashed.isComment = false := by cases first <;> first | rfl | cases noComment
    cases blank : first.isBlank with
    | true =>
      rw [squeeze, if_pos blank]
      exact ih free closed true
    | false =>
      rw [squeeze_cons blank]
      intro token member
      rcases List.mem_append.mp member with isGap | later
      · split at isGap
        · rw [List.mem_singleton.mp isGap]
          rfl
        · cases isGap
      · rcases List.mem_cons.mp later with rfl | later
        · exact here
        · exact ih free first.closes false token later

theorem Token.Starts.hasEnds_pieces {token : Token} {rest : List Char}
    (starts : token.Starts conditional rest) (noComment : token.isComment = false)
    (solid : token.isBlank = false) : HasEnds Piece.isBlank token.pieces ∧ token.pieces ≠ [] := by
  cases token with
  | comment text => cases noComment
  | raw block =>
    refine ⟨⟨?_, ?_⟩, by simp [Token.pieces]⟩ <;> simp [Token.pieces, Piece.isBlank]
  | char c =>
    have solid : Text.isBlank c = false := solid
    refine ⟨⟨?_, ?_⟩, by simp [Token.pieces, Token.text]⟩ <;>
      simp [Token.pieces, Token.text, Piece.isBlank, solid]
  | tag text =>
    obtain ⟨inside, -, rfl⟩ := (starts_tag_iff.mp starts).1
    have opening : Text.isBlank '<' = false := by decide
    have closing : Text.isBlank '>' = false := by decide
    refine ⟨⟨?_, ?_⟩, by simp [Token.pieces, Token.text]⟩
    · simp [Token.pieces, Token.text, Piece.isBlank, opening]
    · have last : (('<' :: inside ++ ['>']).map Piece.char).getLast? = some (.char '>') := by
        rw [List.map_append, List.map_singleton, List.getLast?_concat]
      intro p isLast
      obtain rfl : Piece.char '>' = p := Option.some.inj (last.symm.trans isLast)
      exact closing

theorem hasEnds_piecesOf (scans : Scans conditional ts)
    (free : ∀ token ∈ ts, token.isComment = false) (ends : HasEnds Token.isBlank ts) :
    HasEnds Piece.isBlank (piecesOf ts) := by
  have each (token : Token) (member : token ∈ ts) (solid : token.isBlank = false) :
      HasEnds Piece.isBlank token.pieces ∧ token.pieces ≠ [] := by
    obtain ⟨rest, starts⟩ := scans.exists_starts member
    exact starts.hasEnds_pieces (free token member) solid
  constructor
  · cases ts with
    | nil => simp [piecesOf]
    | cons token ts =>
      obtain ⟨here, nonempty⟩ := each token (List.mem_cons_self ..) (ends.head token rfl)
      rw [piecesOf_cons, List.head?_append_of_ne_nil _ nonempty]
      exact here.head
  · rcases List.eq_nil_or_concat ts with rfl | ⟨init, last, rfl⟩
    · simp [piecesOf]
    · rw [List.concat_eq_append] at *
      obtain ⟨here, nonempty⟩ := each last (by simp) (ends.last last (by simp))
      have split : piecesOf (init ++ [last]) = piecesOf init ++ last.pieces := by simp [piecesOf]
      rw [split, List.getLast?_append_of_ne_nil _ nonempty]
      exact here.last

theorem Scans.trimmed (scans : Scans conditional ts)
    (free : ∀ token ∈ ts, token.isComment = false) (blank : Token → Bool) :
    Scans conditional (trimmed blank ts) := by
  obtain ⟨front, back, whole, -⟩ := exists_trimmed blank ts
  rw [whole, List.append_assoc] at scans
  exact scans.of_append_right.of_append_left fun token member =>
    free token (mem_of_mem_trimmed member)

/-- Tightened and trimmed pieces are those of the squeezed tokens between the ends. -/
theorem trimPieces_tighten (scans : Scans conditional ts)
    (free : ∀ token ∈ ts, token.isComment = false) :
    trimPieces (tighten none false (piecesOf ts)) =
      piecesOf (squeeze false false (trimmed Token.isBlank ts)) := by
  rw [tighten_piecesOf scans free]
  have freeInside : ∀ token ∈ trimmed Token.isBlank ts, token.isComment = false :=
    fun token member => free token (mem_of_mem_trimmed member)
  have scansInside := scans.trimmed free Token.isBlank
  obtain ⟨front, back, whole, isFront, isBack, ends⟩ := exists_trimmed Token.isBlank ts
  generalize trimmed Token.isBlank ts = inside at whole ends freeInside scansInside ⊢
  subst whole
  have pieceEnds : HasEnds Piece.isBlank (piecesOf (squeeze false false inside)) :=
    hasEnds_piecesOf (scans_squeeze scansInside freeInside false false)
      (isComment_squeeze freeInside false false) (hasEnds_squeeze ends)
  obtain ⟨lead, tail, isLead, isTail, same⟩ := exists_squeeze_ends ends isFront isBack
  have blank {spaces : List Token} (all : ∀ token ∈ spaces, token = .char ' ') :
      ∀ p ∈ piecesOf spaces, p.isBlank = true := by
    intro p member
    obtain ⟨token, inSpaces, inPieces⟩ := List.mem_flatMap.mp member
    rw [all token inSpaces] at inPieces
    rw [List.mem_singleton.mp inPieces]
    decide
  have pieces := trimmed_eq (blank isLead) (blank isTail) pieceEnds
  rw [← pieces]
  simp only [Option.map_none, Option.getD_none, same]
  simp [piecesOf, trimPieces, trimmed]

/-- The minifier writes the tokens that the reader reads, without comments and squeezed. -/
theorem minifyChars_textOf (scans : Scans conditional ts) (noNul : dropNuls (textOf ts) = textOf ts)
    (sealed : isSealed conditional ts = true)
    (plain : ∀ text, .comment text ∈ ts → ¬ ['<', '!', '-', '-', '[', 'i', 'f'] <+: text) :
    minifyChars (textOf ts) =
      textOf (squeeze false false (trimmed Token.isBlank (uncommented ts))) := by
  have free : ∀ token ∈ uncommented ts, token.isComment = false := by
    intro token member
    simpa using (List.mem_filter.mp member).2
  have noNul : (textOf ts).filter (fun c => decide (c.toNat ≠ 0)) = textOf ts := noNul
  simp only [minifyChars, noNul, pieces_textOf scans sealed,
    dropComments_piecesOf scans sealed plain, trimPieces_tighten (scans_uncommented scans) free,
    flatMap_text_piecesOf]

end

end StaticSite.Markup
