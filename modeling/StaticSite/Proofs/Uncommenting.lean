import StaticSite.Proofs.Reader

/-!
# Markup without its comments

What the reader finds in markup it also finds where the comments have been taken out: a tag, a kept
element and the end of either stand within one token, and no token ends in a comment.
-/

namespace StaticSite.Markup

section

variable {conditional : Bool} {ts : List Token} {s text x y : List Char}

theorem isSome_comment?_iff : (comment? conditional s).isSome ↔
    ∃ body, s = ['<', '!', '-', '-'] ++ body ∧
      (conditional = false → ¬ ['[', 'i', 'f'] <+: body) ∧ ['-', '-', '>'] <:+: body := by
  unfold comment?
  split
  next absent =>
    refine iff_of_false (by simp) ?_
    rintro ⟨body, whole, -⟩
    rw [Text.dropMark?_eq_some.mpr whole] at absent
    cases absent
  next body opened =>
    have whole := Text.dropMark?_eq_some.mp opened
    have unique (other : List Char) : s = ['<', '!', '-', '-'] ++ other ↔ other = body := by
      rw [whole, List.append_cancel_left_eq, eq_comm]
    simp only [unique, exists_eq_left]
    have guard : (!conditional && Text.startsWith ['[', 'i', 'f'] body) = true ↔
        ¬ (conditional = false → ¬ ['[', 'i', 'f'] <+: body) := by
      rw [Bool.and_eq_true, Text.startsWith_iff, Bool.not_eq_true', Classical.not_imp, not_not]
    split
    next isConditional =>
      exact iff_of_false (by simp) fun both => guard.mp isConditional both.1
    next isPlain =>
      rw [Option.isSome_map, Text.isSome_splitAtMark?_iff]
      rw [guard, not_not] at isPlain
      exact (and_iff_right isPlain).symm

theorem endsOnce_commentEnd : EndsOnce ['-', '-', '>'] := ⟨['-', '-'], by decide, rfl⟩

theorem mem_of_mem_uncommented {c : Char} (member : c ∈ textOf (uncommented ts)) :
    c ∈ textOf ts := by
  obtain ⟨token, inTokens, inText⟩ := List.mem_flatMap.mp member
  exact List.mem_flatMap.mpr ⟨token, (List.mem_filter.mp inTokens).1, inText⟩

theorem text_infix_textOf {token : Token} (member : token ∈ ts) : token.text <:+: textOf ts := by
  obtain ⟨before, after, rfl⟩ := List.append_of_mem member
  exact ⟨textOf before, textOf after, by simp [textOf]⟩

theorem Scans.exists_starts {token : Token} (scans : Scans conditional ts) (member : token ∈ ts) :
    ∃ rest, token.Starts conditional rest := by
  induction ts with
  | nil => cases member
  | cons first ts ih =>
    rcases List.mem_cons.mp member with rfl | later
    · exact ⟨_, scans.1⟩
    · exact ih scans.2 later

/-- Where no comment ends, none has been taken out. -/
theorem commentEnd_of_uncommented (scans : Scans conditional ts)
    (within : ['-', '-', '>'] <:+: textOf (uncommented ts)) : ['-', '-', '>'] <:+: textOf ts := by
  by_cases free : ∀ token ∈ ts, token.isComment = false
  · have all : uncommented ts = ts := List.filter_eq_self.mpr (by simpa using free)
    rwa [all] at within
  · simp only [not_forall, Bool.not_eq_false] at free
    obtain ⟨token, member, isComment⟩ := free
    cases token with
    | comment text =>
      obtain ⟨rest, starts⟩ := scans.exists_starts member
      obtain ⟨inside, -, rfl, -⟩ := comment?_eq_some (starts_comment_iff.mp starts).2
      exact List.IsInfix.trans ⟨['<', '!', '-', '-'] ++ inside, [], by simp [Token.text]⟩
        (text_infix_textOf member)
    | _ => cases isComment

theorem IsTag.endsOnce (isTag : IsTag text) : EndsOnce text := by
  obtain ⟨inside, unclosed, rfl⟩ := isTag
  exact ⟨'<' :: inside, by simp [unclosed], rfl⟩

/-- A kept element ends with a bracket and is found whatever follows it. -/
theorem Token.Starts.raw {block : List Char} (starts : (Token.raw block).Starts conditional x) :
    (∃ inside, block = '<' :: inside ++ ['>']) ∧
      ∀ y, (Token.raw block).Starts conditional y := by
  obtain ⟨inside, after, whole, isLength, again⟩ := rawLength?_split (starts_raw_iff.mp starts)
  have whole : block ++ x = '<' :: inside ++ ['>'] ++ after := by simpa using whole
  have isBlock := List.append_inj_left whole (by simp [← isLength])
  refine ⟨⟨inside, isBlock⟩, fun y => starts_raw_iff.mpr ?_⟩
  rw [← again y, isBlock]
  simp

/-- A tag and a kept element end with a bracket. -/
theorem Token.Starts.exists_front {token : Token} (starts : token.Starts conditional x)
    (isMark : token.isMark = true) : ∃ front, token.text = front ++ ['>'] := by
  cases token with
  | tag text =>
    obtain ⟨inside, -, rfl⟩ := (starts_tag_iff.mp starts).1
    exact ⟨_, rfl⟩
  | raw block =>
    obtain ⟨⟨inside, rfl⟩, -⟩ := starts.raw
    exact ⟨_, rfl⟩
  | _ => cases isMark

/-- A closing tag stands within one token. -/
theorem closing_of_uncommented (scans : Scans conditional ts) {u v : List Char}
    (ends : EndsOnce u) (opens : u = '<' :: v) (within : u <:+: textOf (uncommented ts)) :
    u <:+: textOf ts := by
  induction ts with
  | nil => exact within
  | cons token ts ih =>
    obtain ⟨starts, scans⟩ := scans
    have later : u <:+: textOf (uncommented ts) → u <:+: textOf (token :: ts) := fun within =>
      (ih scans within).trans (List.suffix_append ..).isInfix
    have inMark (isMark : token.isMark = true) (kept : uncommented (token :: ts) =
        token :: uncommented ts) : u <:+: textOf (token :: ts) := by
      obtain ⟨front, isText⟩ := starts.exists_front isMark
      have split : front ++ '>' :: textOf (uncommented ts) = textOf (uncommented (token :: ts)) := by
        simp [kept, isText]
      rw [← split] at within
      rcases ends.infix_cases within with here | there
      · rw [← isText] at here
        exact here.trans (List.prefix_append ..).isInfix
      · exact later there
    cases token with
    | comment text => exact later within
    | tag text => exact inMark rfl rfl
    | raw block => exact inMark rfl rfl
    | char c =>
      rcases List.infix_cons_iff.mp within with here | there
      · -- the tag would have been read where its bracket stands
        obtain ⟨w, unclosed, isU⟩ := ends
        obtain ⟨rfl, -⟩ := List.cons_prefix_cons.mp (opens ▸ here)
        have closed : '>' ∈ textOf (uncommented ts) :=
          (List.mem_cons.mp (here.subset (by simp [isU]))).resolve_left (by decide)
        exact absurd (mem_of_mem_uncommented closed) (starts_char_iff.mp starts rfl)
      · exact later there

theorem IsClosing.opens {name u : List Char} (closing : IsClosing name u) : ∃ v, u = '<' :: v := by
  obtain ⟨spelled, blanks, rfl, -⟩ := closing
  exact ⟨_, rfl⟩

/-- What ends a tag, a comment or a kept element. -/
inductive IsEnd : List Char → Prop
  | tag : IsEnd ['>']
  | comment : IsEnd ['-', '-', '>']
  | element {name u : List Char} (isName : IsTagName name) (closing : IsClosing name u) : IsEnd u

theorem isEnd_of_uncommented (scans : Scans conditional ts) {u : List Char} (isEnd : IsEnd u)
    (within : u <:+: textOf (uncommented ts)) : u <:+: textOf ts := by
  cases isEnd with
  | tag =>
    exact (List.singleton_infix_iff ..).mpr
      (mem_of_mem_uncommented ((List.singleton_infix_iff ..).mp within))
  | comment => exact commentEnd_of_uncommented scans within
  | element isName closing =>
    obtain ⟨v, opens⟩ := closing.opens
    exact closing_of_uncommented scans (closing.endsOnce isName) opens within

/-! ## The same tokens in front of other text -/

/-- A tag that opens no kept element opens none where nothing more ends. -/
theorem rawLength?_tag (isTag : IsTag text) (ends : ∀ u, IsEnd u → u <:+: y → u <:+: x)
    (absent : rawLength? (text ++ x) = none) : rawLength? (text ++ y) = none := by
  rw [← Option.not_isSome_iff_eq_none, isSome_rawLength?_iff] at absent ⊢
  obtain ⟨inside, unclosed, rfl⟩ := isTag
  rintro ⟨name, rest, u, whole, named, closing, within⟩
  have isName : IsTagName name := .of_rawName? named
  have nameUnclosed : '>' ∉ name := fun member => (isName.solid member).2.2 rfl
  have whole : inside ++ '>' :: y = name ++ rest := by simpa using whole
  obtain ⟨between, rfl⟩ :=
    Text.prefix_of_prefix_append_cons nameUnclosed inside ⟨rest, whole.symm⟩
  obtain rfl : between ++ '>' :: y = rest := by simpa using whole
  refine absent ⟨name, between ++ '>' :: x, u, by simp, ?_, closing, ?_⟩
  · have same := rawName?_append (name ++ between) x y
    rw [List.append_assoc, List.append_assoc] at same
    rw [same, named]
  · rcases (closing.endsOnce isName).infix_cases within with here | there
    · exact here.trans ⟨[], x, by simp⟩
    · exact (ends u (.element isName closing) there).trans ⟨between ++ ['>'], [], by simp⟩

theorem comment?_tag (isTag : IsTag text) (ends : ∀ u, IsEnd u → u <:+: y → u <:+: x)
    (absent : comment? conditional (text ++ x) = none) :
    comment? conditional (text ++ y) = none := by
  rw [← Option.not_isSome_iff_eq_none, isSome_comment?_iff] at absent ⊢
  obtain ⟨inside, unclosed, rfl⟩ := isTag
  rintro ⟨body, whole, plain, closed⟩
  have whole : '<' :: inside ++ '>' :: y = ['<', '!', '-', '-'] ++ body := by simpa using whole
  obtain ⟨between, isInside⟩ :=
    Text.prefix_of_prefix_append_cons (by decide) ('<' :: inside) ⟨body, whole.symm⟩
  obtain rfl : between ++ '>' :: y = body := by
    rw [← isInside] at whole
    simpa using whole
  refine absent ⟨between ++ '>' :: x, by simp [← isInside], fun unconditional starts => ?_, ?_⟩
  · have starts := Text.prefix_of_prefix_append_cons (by decide) between starts
    exact plain unconditional (starts.trans (List.prefix_append ..))
  · rcases endsOnce_commentEnd.infix_cases closed with here | there
    · exact here.trans ⟨[], x, by simp⟩
    · exact (ends _ .comment there).trans ⟨between ++ ['>'], [], by simp⟩

/-- A token is found again in front of a text in which nothing more ends. -/
theorem Token.Starts.of_ends {token : Token} (starts : token.Starts conditional x)
    (noComment : token.isComment = false) (ends : ∀ u, IsEnd u → u <:+: y → u <:+: x) :
    token.Starts conditional y := by
  cases token with
  | comment text => cases noComment
  | raw block => exact starts.raw.2 y
  | char c =>
    refine starts_char_iff.mpr fun opens closed => starts_char_iff.mp starts opens ?_
    exact (List.singleton_infix_iff ..).mp (ends _ .tag ((List.singleton_infix_iff ..).mpr closed))
  | tag text =>
    obtain ⟨isTag, noRaw, noComment⟩ := starts_tag_iff.mp starts
    exact starts_tag_iff.mpr ⟨isTag, rawLength?_tag isTag ends noRaw, comment?_tag isTag ends noComment⟩

theorem scans_uncommented (scans : Scans conditional ts) : Scans conditional (uncommented ts) := by
  induction ts with
  | nil => trivial
  | cons token ts ih =>
    obtain ⟨starts, scans⟩ := scans
    cases noComment : token.isComment with
    | true =>
      rw [uncommented, List.filter_cons_of_neg (by simp [noComment])]
      exact ih scans
    | false =>
      rw [uncommented, List.filter_cons_of_pos (by simp [noComment])]
      exact ⟨starts.of_ends noComment fun u isEnd => isEnd_of_uncommented scans isEnd, ih scans⟩

theorem Scans.of_append_right {front back : List Token} (scans : Scans conditional (front ++ back)) :
    Scans conditional back := by
  induction front with
  | nil => exact scans
  | cons token front ih => exact ih scans.2

theorem Scans.of_append_left {front back : List Token} (scans : Scans conditional (front ++ back))
    (free : ∀ token ∈ front, token.isComment = false) : Scans conditional front := by
  induction front with
  | nil => trivial
  | cons token front ih =>
    obtain ⟨noComment, free⟩ := List.forall_mem_cons.mp free
    refine ⟨scans.1.of_ends noComment fun u _ within => within.trans ?_, ih scans.2 free⟩
    exact ⟨[], textOf back, by simp [textOf]⟩

end

end StaticSite.Markup
