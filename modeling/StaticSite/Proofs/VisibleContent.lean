import StaticSite.Proofs.Minification

/-!
# What a reader sees of minified markup

Squeezing tokens changes blanks only, and of these only what the reader does not see: where it drops
them they stand between two tags, where it keeps a space the reader reads one.
-/

namespace StaticSite.Markup

/-! ## Texts that are shown alike -/

/-- Texts that are squashed to the same are so behind any text. -/
theorem squash_append_congr {blank : Char → Bool} {t u : List Char}
    (same : ∀ pending, squash blank pending t = squash blank pending u) (s : List Char)
    (pending : Bool) : squash blank pending (s ++ t) = squash blank pending (s ++ u) := by
  induction s generalizing pending with
  | nil => exact same pending
  | cons c s ih => simp [squash, ih]

theorem squash_blank {blank : Char → Bool} {b : Char} (isBlank : blank b = true)
    (space : blank ' ' = true) (s rest : List Char) (pending : Bool) :
    squash blank pending (s ++ b :: rest) = squash blank pending (s ++ ' ' :: rest) :=
  squash_append_congr (fun pending => by simp [squash, isBlank, space]) s pending

theorem squash_blanks {blank : Char → Bool} {b : Char} (isBlank : blank b = true)
    (space : blank ' ' = true) (s rest : List Char) (pending : Bool) :
    squash blank pending (s ++ ' ' :: b :: rest) = squash blank pending (s ++ ' ' :: rest) :=
  squash_append_congr (fun pending => by simp [squash, isBlank, space]) s pending

/-- Whatever follows them, the texts are shown alike. -/
def Alike (s t : List Char) : Prop := ∀ rest, shownText (s ++ rest) = shownText (t ++ rest)

namespace Alike

variable {s t : List Char}

theorem refl (s : List Char) : Alike s s := fun _ => rfl

theorem append (alike : Alike s t) (u : List Char) : Alike (s ++ u) (t ++ u) := by
  intro rest
  rw [List.append_assoc, List.append_assoc, alike]

theorem shownText_eq (alike : Alike s t) : shownText s = shownText t := by
  simpa using alike []

theorem blank {b : Char} (isSpace : isSpace b = true) (s : List Char) :
    Alike (s ++ [' ']) (s ++ [b]) := by
  intro rest
  have space : Markup.isSpace ' ' = true := by decide
  simp [shownText, squash_blank isSpace space, isSpace, space]

theorem blanks {b : Char} (isSpace : isSpace b = true) (s : List Char) :
    Alike (s ++ [' ']) (s ++ [' ', b]) := by
  intro rest
  have space : Markup.isSpace ' ' = true := by decide
  simp [shownText, squash_blanks isSpace space, isSpace, space]

/-- White space more in the text leaves a space pending. -/
theorem pending {c : Char} (isSpace : isSpace c = true) {pending : Bool}
    (alike : Alike (if pending then s ++ [' '] else s) t) : Alike (s ++ [' ']) (t ++ [c]) := by
  intro rest
  cases pending with
  | true =>
    rw [← alike.append [c] rest]
    simpa using Alike.blanks isSpace s rest
  | false => exact (alike.append [' '] rest).trans (Alike.blank isSpace t rest)

end Alike

/-! ## Contents of squeezed tokens -/

/-- The pairs of tokens that only blanks stand between. -/
def gaps (before : Option Token) (pending : Bool) : List Token → List (Token × Token)
  | [] => []
  | token :: ts =>
    if token.isBlank then gaps before true ts
    else
      match before, pending with
      | some first, true => (first, token) :: gaps (some token) false ts
      | _, _ => gaps (some token) false ts

/-- Where blanks stand between what closes and what opens, they stand between tags. -/
def AreApart (gap : Token × Token) : Prop :=
  gap.1.closes = true → gap.2.opens = true → gap.1.isMark = true ∧ gap.2.isMark = true

instance : DecidablePred AreApart := fun _ => inferInstanceAs (Decidable (_ → _ → _))

section

variable {ts : List Token}

theorem gaps_of_blank {token : Token} (blank : token.isBlank = true) (before : Option Token)
    (pending : Bool) : gaps before pending (token :: ts) = gaps before true ts :=
  if_pos blank

theorem mem_gaps_of_solid {token : Token} (solid : token.isBlank = false) (before : Option Token)
    (pending : Bool) {gap : Token × Token} (later : gap ∈ gaps (some token) false ts) :
    gap ∈ gaps before pending (token :: ts) := by
  unfold gaps
  rw [if_neg (by simp [solid])]
  split
  · exact List.mem_cons_of_mem _ later
  · exact later

theorem mem_gaps_self {token : Token} (solid : token.isBlank = false) (first : Token) :
    (first, token) ∈ gaps (some first) true (token :: ts) := by
  unfold gaps
  rw [if_neg (by simp [solid])]
  exact List.mem_cons_self ..

theorem contentsFrom_mark {token : Token} (isMark : token.isMark = true) {u v : List Char}
    (same : shownText u = shownText v) {us : List Token}
    (later : contentsFrom [] us = contentsFrom [] ts) :
    contentsFrom u (token.squashed :: us) = contentsFrom v (token :: ts) := by
  cases token with
  | tag text => exact congrArg₂ (· ++ ·) same later
  | raw block => exact congrArg₂ (· ++ .raw block :: ·) same later
  | _ => cases isMark

/--
Squeezed tokens show what the tokens show. `shown` and `text` are what either side has read since the
last tag, except for the blanks that are pending.
-/
theorem contentsFrom_squeeze (free : ∀ token ∈ ts, token.isComment = false)
    (spaces : ∀ token ∈ ts, token.isBlank = true → token.isSpace = true)
    {before : Option Token} {pending : Bool}
    (apart : ∀ gap ∈ gaps before pending ts, AreApart gap) {shown text : List Char}
    (alike : Alike (if pending then shown ++ [' '] else shown) text)
    (fresh : ∀ token ∈ before, token.isMark = true → shown = [] ∧ text.all isSpace = true) :
    contentsFrom shown (squeeze ((before.map Token.closes).getD false) pending ts) =
      contentsFrom text ts := by
  induction ts generalizing before pending shown text with
  | nil => cases pending <;> exact alike.shownText_eq
  | cons token ts ih =>
    obtain ⟨noComment, freeLater⟩ := List.forall_mem_cons.mp free
    obtain ⟨isSpace, spacesLater⟩ := List.forall_mem_cons.mp spaces
    cases blank : token.isBlank with
    | true =>
      cases token with
      | char c =>
        have isSpace : Markup.isSpace c = true := isSpace blank
        rw [gaps_of_blank blank] at apart
        rw [squeeze, if_pos blank]
        refine ih freeLater spacesLater apart (alike.pending isSpace) fun first isBefore isMark => ?_
        obtain ⟨isShown, isText⟩ := fresh first isBefore isMark
        exact ⟨isShown, by simpa [isSpace] using isText⟩
      | _ => cases blank
    | false =>
      have later := @ih freeLater spacesLater (some token) false fun gap later =>
        apart gap (mem_gaps_of_solid blank before pending later)
      have mark (isMark : token.isMark = true) {u v : List Char}
          (same : shownText u = shownText v) :
          contentsFrom u (token.squashed :: squeeze token.closes false ts) =
            contentsFrom v (token :: ts) :=
        contentsFrom_mark isMark same
          (@later [] [] (Alike.refl []) fun _ _ _ => ⟨rfl, rfl⟩)
      have after {u v : List Char} (alike : Alike u v) :
          contentsFrom u (token.squashed :: squeeze token.closes false ts) =
            contentsFrom v (token :: ts) := by
        cases token with
        | comment text => cases noComment
        | tag text => exact mark rfl alike.shownText_eq
        | raw block => exact mark rfl alike.shownText_eq
        | char c =>
          refine @later _ _ (alike.append [c]) ?_
          rintro _ ⟨⟩ ⟨⟩
      rw [squeeze_cons blank]
      cases pending with
      | false => exact after alike
      | true =>
        split
        · exact after alike
        next between =>
          simp only [Bool.true_and, Bool.not_eq_true', Bool.not_eq_false, Bool.and_eq_true]
            at between
          obtain ⟨closed, opens⟩ := between
          cases before with
          | none => cases closed
          | some first =>
            -- the blanks go: they stand between two tags, so neither side has read any text
            have isApart := apart _ (mem_gaps_self blank first)
            obtain ⟨firstMark, isMark⟩ := isApart closed opens
            obtain ⟨rfl, isText⟩ := fresh first rfl firstMark
            refine mark isMark ?_
            simp only [shownText, isText]
            rfl

end

/-! ## Minified markup -/

/-- Whether the token is a conditional comment. -/
def Token.isConditional : Token → Bool
  | .comment text => Text.startsWith ['<', '!', '-', '-', '[', 'i', 'f'] text
  | _ => false

/--
Markup in which the reader's tokens are what a search for kept elements, for comments and for tag
ends comes upon.
-/
structure IsReadable (conditional : Bool) (markup : String) : Prop where
  /-- A blank in the text is white space of markup. -/
  spaces : ∀ token ∈ tokens conditional (dropNuls markup.toList),
    token.isBlank = true → token.isSpace = true
  /-- No kept element starts inside a tag or a comment, and no comment inside a tag. -/
  sealed : isSealed conditional (tokens conditional (dropNuls markup.toList)) = true
  /-- Conditional comments, which are not dropped, are not read as comments. -/
  plain : ∀ token ∈ tokens conditional (dropNuls markup.toList), token.isConditional = false
  /-- Blanks between a `>` and a `<` stand between two tags. -/
  apart : ∀ gap ∈ gaps none false (body conditional markup), AreApart gap

theorem isBlank_of_isSpace {token : Token} (space : token.isSpace = true) : token.isBlank = true := by
  cases token with
  | char c =>
    have codes : ((((c = ' ' ∨ c = '\t') ∨ c = '\n') ∨ c = '\x0c') ∨ c = '\r') := by
      simpa [Token.isSpace, isSpace] using space
    rcases codes with (((rfl | rfl) | rfl) | rfl) | rfl <;> decide
  | _ => cases space

theorem dropNuls_eq_self {s : List Char} (noNul : ∀ c ∈ s, c.toNat ≠ 0) : dropNuls s = s :=
  List.filter_eq_self.mpr (by simpa using noNul)

theorem minifyChars_dropNuls (s : List Char) : minifyChars (dropNuls s) = minifyChars s := by
  simp [minifyChars, dropNuls, List.filter_filter]

section

variable {conditional : Bool} {markup : String}

theorem IsReadable.body_eq (readable : IsReadable conditional markup) :
    trimmed Token.isBlank (uncommented (tokens conditional (dropNuls markup.toList))) =
      body conditional markup := by
  refine trimmed_congr fun token member => ?_
  have inTokens := (List.mem_filter.mp member).1
  exact Bool.eq_iff_iff.mpr ⟨readable.spaces token inTokens, isBlank_of_isSpace⟩

/-- The tokens of readable markup are written squeezed. -/
theorem IsReadable.toList_minify (readable : IsReadable conditional markup) :
    (minify markup).toList = textOf (squeeze false false (body conditional markup)) := by
  obtain ⟨scans, isText⟩ := scans_tokens conditional (dropNuls markup.toList)
  have noNul : dropNuls (dropNuls markup.toList) = dropNuls markup.toList := by
    simp [dropNuls, List.filter_filter]
  rw [← readable.body_eq, minify, String.toList_ofList, ← minifyChars_dropNuls]
  have written := minifyChars_textOf scans (by rw [isText, noNul]) readable.sealed
    fun text member starts => ?_
  · rwa [isText] at written
  · have notConditional := readable.plain _ member
    rw [Token.isConditional, Text.startsWith_iff.mpr starts] at notConditional
    cases notConditional

theorem mem_tokens_of_mem_body {token : Token} (member : token ∈ body conditional markup) :
    token ∈ tokens conditional (dropNuls markup.toList) ∧ token.isComment = false := by
  simpa [uncommented] using mem_of_mem_trimmed member

theorem scans_body (conditional : Bool) (markup : String) :
    Scans conditional (body conditional markup) :=
  (scans_uncommented (scans_tokens conditional (dropNuls markup.toList)).1).trimmed
    (by simp [uncommented]) Token.isSpace

theorem toNat_ne_zero_of_mem_body {c : Char} (member : c ∈ textOf (body conditional markup)) :
    c.toNat ≠ 0 := by
  obtain ⟨token, inBody, inText⟩ := List.mem_flatMap.mp member
  have inAll : c ∈ textOf (tokens conditional (dropNuls markup.toList)) :=
    List.mem_flatMap.mpr ⟨token, (mem_tokens_of_mem_body inBody).1, inText⟩
  rw [(scans_tokens conditional _).2] at inAll
  simpa using (List.mem_filter.mp inAll).2

/-- Minified markup is read as the squeezed tokens. -/
theorem IsReadable.body_minify (readable : IsReadable conditional markup) :
    body conditional (minify markup) = squeeze false false (body conditional markup) := by
  have free : ∀ token ∈ body conditional markup, token.isComment = false :=
    fun token member => (mem_tokens_of_mem_body member).2
  have noNul : dropNuls (textOf (squeeze false false (body conditional markup))) =
      textOf (squeeze false false (body conditional markup)) := by
    refine dropNuls_eq_self fun c member => ?_
    have tightened := tightened_squeeze (scans_body conditional markup) free false
    rcases tightened.mem member with rfl | inBody
    · decide
    · exact toNat_ne_zero_of_mem_body inBody
  have kept : uncommented (squeeze false false (body conditional markup)) =
      squeeze false false (body conditional markup) :=
    List.filter_eq_self.mpr fun token member => by simp [isComment_squeeze free false false token member]
  have ends : HasEnds Token.isBlank (squeeze false false (body conditional markup)) := by
    refine hasEnds_squeeze ?_
    rw [← readable.body_eq]
    exact hasEnds_trimmed _
  rw [body, readable.toList_minify, noNul,
    tokens_textOf (scans_squeeze (scans_body conditional markup) free false false), kept]
  exact (ends.of_imp fun _ => isBlank_of_isSpace).trimmed_eq_self

end

/-- A paragraph with a comment, a conditional comment and a kept element. -/
def notes : String :=
  "\n<p>2 > 1,\n <!-- or --> <b>not</b> </p>\t<!--[if IE]> <i>x</i> <![endif]-->\n <pre>  a\n</pre>\n"

/--
Markup that a reader sees other content in once it is minified: other blanks than white space, what
looks like a kept element in a comment and in a tag, a comment in a tag, a conditional comment that
blanks follow, and a `>` that is text.
-/
def misread : List String :=
  ["a\u00a0b", "<!-- <pre> --> shown </pre> <!-- end -->", "<i <pre> <!-- </pre><!-- --> b -->",
    "<a <!-- > b --> c", "a<!--[if IE]>b<![endif]--> <b>c</b>", "a > <b>c</b>"]

end StaticSite.Markup
