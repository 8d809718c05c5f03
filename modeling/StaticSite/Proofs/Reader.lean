import StaticSite.Proofs.KeptElement
import StaticSite.Proofs.Trimming

/-!
# A tolerant reader of markup

The reader scans markup from left to right, cuts it into kept elements, comments, tags and single
characters, and shows the text between the tags. Of the minifier it knows only which elements are kept.
-/

namespace StaticSite

namespace Text

theorem splitAtMark?_eq_some {mark s before after : List Char}
    (found : splitAtMark? mark s = some (before, after)) : s = before ++ mark ++ after := by
  induction s generalizing before with
  | nil =>
    simp only [splitAtMark?, Option.map_eq_some_iff, dropMark?_eq_some] at found
    obtain ⟨rest, whole, same⟩ := found
    cases same
    simpa using whole
  | cons c s ih =>
    unfold splitAtMark? at found
    split at found
    next rest started =>
      cases found
      simpa using dropMark?_eq_some.mp started
    next =>
      obtain ⟨⟨inside, outside⟩, later, same⟩ := Option.map_eq_some_iff.mp found
      cases same
      rw [ih later]
      rfl

/-- A text can be split where it holds the mark. -/
theorem isSome_splitAtMark?_iff {mark s : List Char} :
    (splitAtMark? mark s).isSome ↔ mark <:+: s := by
  constructor
  · intro found
    obtain ⟨⟨before, after⟩, split⟩ := Option.isSome_iff_exists.mp found
    exact ⟨before, after, (splitAtMark?_eq_some split).symm⟩
  · intro holds
    induction s with
    | nil =>
      rw [List.infix_nil.mp holds]
      rfl
    | cons c s ih =>
      unfold splitAtMark?
      split
      · rfl
      next absent =>
        rw [Option.isSome_map]
        rcases List.infix_cons_iff.mp holds with starts | later
        · rw [← startsWith_iff, startsWith, absent] at starts
          cases starts
        · exact ih later

/-- A mark that starts with a character that a text lacks is found behind it. -/
theorem splitAtMark?_append {m : Char} {mark s : List Char} (absent : m ∉ s) (t : List Char) :
    splitAtMark? (m :: mark) (s ++ t) =
      (splitAtMark? (m :: mark) t).map fun (before, rest) => (s ++ before, rest) := by
  induction s with
  | nil => simp
  | cons c s ih =>
    obtain ⟨notHere, absent⟩ := not_or.mp (List.mem_cons.not.mp absent)
    rw [List.cons_append, splitAtMark?, dropMark?, if_neg notHere, ih absent, Option.map_map]
    rfl

end Text

namespace Markup

/-! ## Tokens -/

/-- A part of markup as the reader meets it. -/
inductive Token where
  | char (c : Char)
  | tag (text : List Char)
  | comment (text : List Char)
  | raw (block : List Char)
deriving DecidableEq, Repr

def Token.text : Token → List Char
  | .char c => [c]
  | .tag text => text
  | .comment text => text
  | .raw block => block

def textOf (tokens : List Token) : List Char := tokens.flatMap Token.text

@[simp] theorem textOf_nil : textOf [] = [] := rfl

@[simp] theorem textOf_cons (token : Token) (tokens : List Token) :
    textOf (token :: tokens) = token.text ++ textOf tokens := List.flatMap_cons

/--
The comment at the start of the text, up to the first `-->`. Whether a conditional comment is one,
too, is the reader's choice.
-/
def comment? (conditional : Bool) (s : List Char) : Option (List Char) :=
  match Text.dropMark? ['<', '!', '-', '-'] s with
  | none => none
  | some body =>
    if !conditional && Text.startsWith ['[', 'i', 'f'] body then none
    else
      (Text.splitAtMark? ['-', '-', '>'] body).map fun (inside, _) =>
        ['<', '!', '-', '-'] ++ inside ++ ['-', '-', '>']

/-- The tag at the start of the text, up to the first `>`. -/
def tag? : List Char → Option (List Char)
  | '<' :: s => if '>' ∈ s then some ('<' :: s.takeWhile (· ≠ '>') ++ ['>']) else none
  | _ => none

def firstToken (conditional : Bool) (c : Char) (s : List Char) : Token :=
  match rawLength? (c :: s), comment? conditional (c :: s), tag? (c :: s) with
  | some length, _, _ => .raw ((c :: s).take length)
  | none, some text, _ => .comment text
  | none, none, some text => .tag text
  | none, none, none => .char c

/-- Cuts the text into tokens, skipping the characters of one that has been found. -/
def tokensFrom (conditional : Bool) : Nat → List Char → List Token
  | _, [] => []
  | skip + 1, _ :: s => tokensFrom conditional skip s
  | 0, c :: s =>
    let token := firstToken conditional c s
    token :: tokensFrom conditional (token.text.length - 1) s

def tokens (conditional : Bool) (s : List Char) : List Token := tokensFrom conditional 0 s

/-! ## Contents -/

/-- What a reader shows: a text between tags, or an element that is kept as it is. -/
inductive Content where
  | text (s : List Char)
  | raw (block : List Char)
deriving DecidableEq, Repr

/-- The white space of markup: space, tabulator, line feed, form feed and carriage return. -/
def isSpace (c : Char) : Bool :=
  c = ' ' || c = '\t' || c = '\n' || c = '\x0c' || c = '\r'

/-- Each run of blanks becomes one space; `pending` tells whether blanks stand before the text. -/
def squash (blank : Char → Bool) (pending : Bool) : List Char → List Char
  | [] => if pending then [' '] else []
  | c :: s =>
    if blank c then squash blank true s
    else if pending then ' ' :: c :: squash blank false s
    else c :: squash blank false s

/-- The text between two tags; white space alone is none. -/
def shownText (s : List Char) : List Content :=
  if s.all isSpace then [] else [.text (squash isSpace false s)]

/-- Shows what stands between the tags; `s` is the text since the last one. -/
def contentsFrom (s : List Char) : List Token → List Content
  | [] => shownText s
  | .char c :: tokens => contentsFrom (s ++ [c]) tokens
  | .comment _ :: tokens => contentsFrom s tokens
  | .tag _ :: tokens => shownText s ++ contentsFrom [] tokens
  | .raw block :: tokens => shownText s ++ .raw block :: contentsFrom [] tokens

def contents (tokens : List Token) : List Content := contentsFrom [] tokens

def Token.isComment : Token → Bool
  | .comment _ => true
  | _ => false

/-- Whether the token bounds a text. -/
def Token.isMark : Token → Bool
  | .tag _ => true
  | .raw _ => true
  | _ => false

def uncommented (tokens : List Token) : List Token := tokens.filter (!·.isComment)

def dropNuls (s : List Char) : List Char := s.filter (·.toNat ≠ 0)

/-- What the reader shows of markup. -/
def visible (conditional : Bool) (markup : String) : List Content :=
  contents (uncommented (tokens conditional (dropNuls markup.toList)))

def Token.isSpace : Token → Bool
  | .char c => Markup.isSpace c
  | _ => false

/-- The tokens that show something, without white space at the ends of the markup. -/
def body (conditional : Bool) (markup : String) : List Token :=
  trimmed Token.isSpace (uncommented (tokens conditional (dropNuls markup.toList)))

/-- What the reader shows of markup if white space at its ends is none of it. -/
def visibleWithin (conditional : Bool) (markup : String) : List Content :=
  contents (body conditional markup)

/-! ## Scans -/

/-- Whether the reader finds the token where it is followed by `rest`. -/
def Token.Starts (conditional : Bool) (token : Token) (rest : List Char) : Prop :=
  ∃ c s, token.text ++ rest = c :: s ∧ firstToken conditional c s = token

/-- Whether the reader finds these tokens in their text. -/
def Scans (conditional : Bool) : List Token → Prop
  | [] => True
  | token :: tokens => token.Starts conditional (textOf tokens) ∧ Scans conditional tokens

section

variable {conditional : Bool}

theorem tokensFrom_eq (skip : Nat) (s : List Char) :
    tokensFrom conditional skip s = tokens conditional (s.drop skip) := by
  induction skip generalizing s with
  | zero => rfl
  | succ skip ih =>
    cases s with
    | nil => rfl
    | cons c s => exact ih s

/-- A comment goes up to the first mark that ends one. -/
theorem comment?_eq_some {s text : List Char} (found : comment? conditional s = some text) :
    ∃ inside rest, text = ['<', '!', '-', '-'] ++ inside ++ ['-', '-', '>'] ∧ s = text ++ rest ∧
      Text.splitAtMark? ['-', '-', '>'] (inside ++ ['-', '-', '>'] ++ rest) =
        some (inside, rest) := by
  unfold comment? at found
  split at found
  · cases found
  next body opened =>
    split at found
    · cases found
    · obtain ⟨⟨inside, rest⟩, closed, rfl⟩ := Option.map_eq_some_iff.mp found
      obtain rfl := Text.splitAtMark?_eq_some closed
      exact ⟨inside, rest, rfl, by simp [Text.dropMark?_eq_some.mp opened], closed⟩

/-- The text of a tag ends with its only `>`. -/
def IsTag (text : List Char) : Prop := ∃ inside, '>' ∉ inside ∧ text = '<' :: inside ++ ['>']

theorem takeWhile_append_closing {inside : List Char} (unclosed : '>' ∉ inside)
    (rest : List Char) : (inside ++ '>' :: rest).takeWhile (· ≠ '>') = inside := by
  have inner : ∀ c ∈ inside, decide (c ≠ '>') = true := by
    intro c member
    rw [decide_eq_true_eq]
    rintro rfl
    exact unclosed member
  rw [List.takeWhile_append_of_pos inner, List.takeWhile_cons_of_neg (by simp), List.append_nil]

theorem tag?_append {text : List Char} (isTag : IsTag text) (rest : List Char) :
    tag? (text ++ rest) = some text := by
  obtain ⟨inside, unclosed, rfl⟩ := isTag
  simp only [List.cons_append, List.append_assoc, List.nil_append, tag?,
    takeWhile_append_closing unclosed]
  simp

theorem tag?_eq_some {s text : List Char} (found : tag? s = some text) :
    IsTag text ∧ text <+: s := by
  unfold tag? at found
  split at found
  next rest =>
    split at found
    next closed =>
      obtain ⟨inside, after, rfl, unclosed⟩ := List.eq_append_cons_of_mem closed
      rw [takeWhile_append_closing unclosed] at found
      cases found
      exact ⟨⟨inside, unclosed, rfl⟩, after, by simp⟩
    · cases found
  · cases found

/-- The first token is what the text starts with. -/
theorem exists_rest (conditional : Bool) (c : Char) (s : List Char) :
    ∃ d t rest, (firstToken conditional c s).text = d :: t ∧
      c :: s = (firstToken conditional c s).text ++ rest := by
  unfold firstToken
  split
  next length found =>
    obtain ⟨inside, rest, -, rfl, -⟩ := rawLength?_split found
    exact ⟨c, s.take _, _, rfl, (List.take_append_drop _ (c :: s)).symm⟩
  next text _ found =>
    obtain ⟨inside, rest, rfl, whole, -⟩ := comment?_eq_some found
    exact ⟨_, _, rest, rfl, whole⟩
  next text _ _ found =>
    obtain ⟨⟨inside, -, rfl⟩, rest, whole⟩ := tag?_eq_some found
    exact ⟨_, _, rest, rfl, whole.symm⟩
  · exact ⟨c, [], s, rfl, rfl⟩

theorem starts_raw_iff {block rest : List Char} :
    (Token.raw block).Starts conditional rest ↔ rawLength? (block ++ rest) = some block.length := by
  constructor
  · rintro ⟨c, s, split, isFirst⟩
    change block ++ rest = c :: s at split
    unfold firstToken at isFirst
    split at isFirst
    next length found =>
      obtain ⟨inside, after, whole, isLength, -⟩ := rawLength?_split found
      cases isFirst
      rw [split, List.length_take, found]
      have lengths := congrArg List.length whole
      simp at lengths ⊢
      omega
    all_goals cases isFirst
  · intro found
    obtain ⟨inside, after, whole, -⟩ := rawLength?_split found
    refine ⟨'<', inside ++ '>' :: after, whole, ?_⟩
    have whole : '<' :: (inside ++ '>' :: after) = block ++ rest := whole.symm
    simp only [firstToken, whole, found, List.take_left]

theorem starts_comment_iff {text rest : List Char} :
    (Token.comment text).Starts conditional rest ↔ rawLength? (text ++ rest) = none ∧
      comment? conditional (text ++ rest) = some text := by
  constructor
  · rintro ⟨c, s, split, isFirst⟩
    change text ++ rest = c :: s at split
    rw [split]
    unfold firstToken at isFirst
    split at isFirst
    next => cases isFirst
    next noRaw isComment =>
      cases isFirst
      exact ⟨noRaw, isComment⟩
    all_goals cases isFirst
  · rintro ⟨noRaw, isComment⟩
    have opened : ∃ s, text ++ rest = '<' :: s := by
      obtain ⟨inside, -, rfl, -⟩ := comment?_eq_some isComment
      exact ⟨_, rfl⟩
    obtain ⟨s, split⟩ := opened
    exact ⟨'<', s, split, by simp only [firstToken, ← split, noRaw, isComment]⟩

theorem starts_tag_iff {text rest : List Char} :
    (Token.tag text).Starts conditional rest ↔ IsTag text ∧ rawLength? (text ++ rest) = none ∧
      comment? conditional (text ++ rest) = none := by
  constructor
  · rintro ⟨c, s, split, isFirst⟩
    change text ++ rest = c :: s at split
    rw [split]
    unfold firstToken at isFirst
    split at isFirst
    next => cases isFirst
    next => cases isFirst
    next noRaw noComment found =>
      cases isFirst
      exact ⟨(tag?_eq_some found).1, noRaw, noComment⟩
    next => cases isFirst
  · rintro ⟨isTag, noRaw, noComment⟩
    have found := tag?_append isTag rest
    have opened : ∃ s, text ++ rest = '<' :: s := by
      obtain ⟨inside, -, rfl⟩ := isTag
      exact ⟨_, rfl⟩
    obtain ⟨s, split⟩ := opened
    exact ⟨'<', s, split, by simp only [firstToken, ← split, noRaw, noComment, found]⟩

theorem comment?_eq_none {s : List Char} (unclosed : '>' ∉ s) : comment? conditional s = none := by
  rw [Option.eq_none_iff_forall_ne_some]
  intro text found
  obtain ⟨inside, rest, rfl, rfl, -⟩ := comment?_eq_some found
  simp at unclosed

theorem Token.Starts.char_absent {c : Char} {rest : List Char}
    (starts : (Token.char c).Starts conditional rest) :
    rawLength? (c :: rest) = none ∧ comment? conditional (c :: rest) = none := by
  obtain ⟨c', s, split, isFirst⟩ := starts
  cases split
  unfold firstToken at isFirst
  split at isFirst
  next => cases isFirst
  next => cases isFirst
  next => cases isFirst
  next noRaw noComment noTag => exact ⟨noRaw, noComment⟩

/-- A character is read as one unless it opens something that is closed. -/
theorem starts_char_iff {c : Char} {rest : List Char} :
    (Token.char c).Starts conditional rest ↔ (c = '<' → '>' ∉ rest) := by
  constructor
  · rintro ⟨c', s, split, isFirst⟩ rfl closed
    cases split
    unfold firstToken at isFirst
    split at isFirst
    next => cases isFirst
    next => cases isFirst
    next => cases isFirst
    next noTag => simp [tag?, closed] at noTag
  · intro unclosed
    refine ⟨c, rest, rfl, ?_⟩
    by_cases opens : c = '<'
    · subst opens
      have unclosed : '>' ∉ '<' :: rest := by simp [unclosed rfl]
      have noTag : tag? ('<' :: rest) = none := by simpa [tag?] using unclosed
      simp only [firstToken, rawLength?_eq_none unclosed, comment?_eq_none unclosed, noTag]
    · have noRaw : rawLength? (c :: rest) = none := by simp [rawLength?, opens]
      have noComment : comment? conditional (c :: rest) = none := by
        simp [comment?, Text.dropMark?, Ne.symm opens]
      have noTag : tag? (c :: rest) = none := by simp [tag?, opens]
      simp only [firstToken, noRaw, noComment, noTag]

theorem tokens_append {token : Token} {rest : List Char} (starts : token.Starts conditional rest) :
    tokens conditional (token.text ++ rest) = token :: tokens conditional rest := by
  obtain ⟨c, s, split, rfl⟩ := starts
  obtain ⟨d, t, -, isText, -⟩ := exists_rest conditional c s
  have tail : s = t ++ rest := by
    rw [isText] at split
    exact (List.cons.inj split).2.symm
  rw [split, tokens, tokensFrom, tokensFrom_eq, isText, tail]
  simp

/-- What a scan finds is found again. -/
theorem tokens_textOf {ts : List Token} (scans : Scans conditional ts) :
    tokens conditional (textOf ts) = ts := by
  induction ts with
  | nil => rfl
  | cons token ts ih => rw [textOf_cons, tokens_append scans.1, ih scans.2]

theorem scans_tokens (conditional : Bool) (s : List Char) :
    Scans conditional (tokens conditional s) ∧ textOf (tokens conditional s) = s := by
  -- on the length, as a token takes more than one character
  induction length : s.length using Nat.strong_induction_on generalizing s with
  | h n ih =>
    cases s with
    | nil => exact ⟨trivial, rfl⟩
    | cons c s =>
      obtain ⟨d, t, rest, isText, whole⟩ := exists_rest conditional c s
      have starts : (firstToken conditional c s).Starts conditional rest := ⟨c, s, whole.symm, rfl⟩
      have shorter : rest.length < n := by
        have lengths := congrArg List.length whole
        simp [isText] at lengths length
        omega
      obtain ⟨scans, same⟩ := ih rest.length shorter rest rfl
      rw [whole, tokens_append starts]
      refine ⟨⟨?_, scans⟩, by rw [textOf_cons, same]⟩
      rwa [same]

end

end Markup

end StaticSite
