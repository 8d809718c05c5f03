import StaticSite.Proofs.Cutting
import StaticSite.Proofs.Machine
import StaticSite.Proofs.Tightening

/-!
# Squeezed tokens

Minifying works on single pieces. Seen from the reader it squeezes tokens: blanks inside a tag become
one space, and so do blanks between tokens unless they stand between two tags.
-/

namespace StaticSite.Markup

/-! ## Squashed tags -/

def Token.isBlank : Token → Bool
  | .char c => Text.isBlank c
  | _ => false

/-- Whether the text of a token ends with `>`, or with a kept element. -/
def Token.closes : Token → Bool
  | .char c => c = '>'
  | _ => true

/-- Whether the text of a token starts with `<`. -/
def Token.opens : Token → Bool
  | .char c => c = '<'
  | _ => true

/-- A tag with its blanks as single spaces. -/
def Token.squashed : Token → Token
  | .tag text => .tag (squash Text.isBlank false text)
  | token => token

/--
Tokens with their blanks squeezed. `closed` tells whether the last token that was not blank closes;
`pending` tells whether blanks stand between it and these.
-/
def squeeze (closed pending : Bool) : List Token → List Token
  | [] => if pending then [.char ' '] else []
  | token :: ts =>
    if token.isBlank then squeeze closed true ts
    else if pending && !(closed && token.opens) then
      .char ' ' :: token.squashed :: squeeze token.closes false ts
    else token.squashed :: squeeze token.closes false ts

section

variable {conditional : Bool} {ts : List Token} {s t text : List Char}

theorem squash_closing {inside : List Char} (unclosed : '>' ∉ inside) (pending : Bool) :
    ∃ w, squash Text.isBlank pending (inside ++ ['>']) = w ++ ['>'] ∧ '>' ∉ w := by
  have closing : Text.isBlank '>' = false := by decide
  induction inside generalizing pending with
  | nil =>
    cases pending with
    | true => exact ⟨[' '], by simp [squash, closing], by decide⟩
    | false => exact ⟨[], by simp [squash, closing], by decide⟩
  | cons c inside ih =>
    obtain ⟨notClosing, unclosed⟩ := not_or.mp (List.mem_cons.not.mp unclosed)
    by_cases blank : Text.isBlank c = true
    · simpa [squash, blank] using ih unclosed true
    · obtain ⟨w, same, unclosed'⟩ := ih unclosed false
      cases pending with
      | true => exact ⟨' ' :: c :: w, by simp [squash, blank, same], by simp [unclosed', notClosing]⟩
      | false => exact ⟨c :: w, by simp [squash, blank, same], by simp [unclosed', notClosing]⟩

theorem squash_tag (isTag : IsTag text) :
    ∃ inside, text = '<' :: inside ∧
      squash Text.isBlank false text = '<' :: squash Text.isBlank false inside ∧
      IsTag (squash Text.isBlank false text) := by
  obtain ⟨inside, unclosed, rfl⟩ := isTag
  have opening : Text.isBlank '<' = false := by decide
  have opened : squash Text.isBlank false ('<' :: (inside ++ ['>'])) =
      '<' :: squash Text.isBlank false (inside ++ ['>']) := by
    simp [squash, opening]
  obtain ⟨w, same, unclosed'⟩ := squash_closing unclosed false
  refine ⟨inside ++ ['>'], rfl, opened, w, unclosed', ?_⟩
  rw [List.cons_append, opened, same, List.cons_append]

theorem tightened_blanks_squash (tightened : Tightened s t) {blanks : List Char}
    (blank : ∀ b ∈ blanks, Text.isBlank b = true) :
    Tightened (blanks ++ (text ++ s)) (squash Text.isBlank (!blanks.isEmpty) text ++ t) := by
  induction text generalizing blanks with
  | nil =>
    cases blanks with
    | nil => simpa [squash] using tightened
    | cons b blanks => exact tightened.of_blanks blank (by simp)
  | cons c text ih =>
    by_cases isBlank : Text.isBlank c = true
    · have more : ∀ b ∈ blanks ++ [c], Text.isBlank b = true := by
        simpa [or_imp, forall_and, isBlank] using blank
      have later := ih more
      simp only [List.append_assoc, List.singleton_append] at later
      have pending : (!(blanks ++ [c]).isEmpty) = true := by simp
      rw [pending] at later
      rw [squash, if_pos isBlank]
      exact later
    · have later : Tightened (text ++ s) (squash Text.isBlank false text ++ t) :=
        @ih [] (by simp)
      have here := Tightened.keep c later
      cases blanks with
      | nil => simpa [squash, isBlank] using here
      | cons b blanks => simpa [squash, isBlank] using here.of_blanks blank (by simp)

theorem tightened_squash (tightened : Tightened s t) (text : List Char) :
    Tightened (text ++ s) (squash Text.isBlank false text ++ t) :=
  @tightened_blanks_squash s t text tightened [] (by simp)

/-! ## Squeezed scans -/

/-- A token is found again where blanks in it and behind it have been tightened. -/
theorem Token.Starts.squashed {token : Token} (starts : token.Starts conditional s)
    (noComment : token.isComment = false) (tightened : Tightened s t) :
    token.squashed.Starts conditional t := by
  cases token with
  | comment text => cases noComment
  | raw block => exact starts.raw.2 t
  | char c =>
    refine starts_char_iff.mpr fun opens closed => starts_char_iff.mp starts opens ?_
    exact (tightened.mem closed).resolve_left (by decide)
  | tag text =>
    obtain ⟨isTag, noRaw, noComment⟩ := starts_tag_iff.mp starts
    obtain ⟨inside, rfl, squashed, isTag'⟩ := squash_tag isTag
    have tight : Tightened (inside ++ s) (squash Text.isBlank false inside ++ t) :=
      tightened_squash tightened inside
    refine starts_tag_iff.mpr ⟨isTag', ?_, ?_⟩
    · rw [squashed]
      exact tight.rawLength?_eq_none noRaw
    · rw [squashed]
      exact tight.comment?_eq_none noComment

theorem Token.Starts.tightened {token : Token} (starts : token.Starts conditional s)
    (noComment : token.isComment = false) (tightened : Tightened s t) :
    Tightened (token.text ++ s) (token.squashed.text ++ t) := by
  cases token with
  | tag text => exact tightened_squash tightened text
  | comment text => cases noComment
  | _ => exact tightened.append_left _

theorem Token.Starts.exists_opening {token : Token} (starts : token.Starts conditional s)
    (noComment : token.isComment = false) (opens : token.opens = true) :
    ∃ w, token.squashed.text = '<' :: w := by
  cases token with
  | comment text => cases noComment
  | char c =>
    obtain rfl : c = '<' := by simpa [Token.opens] using opens
    exact ⟨[], rfl⟩
  | raw block =>
    obtain ⟨⟨inside, rfl⟩, -⟩ := starts.raw
    exact ⟨_, rfl⟩
  | tag text =>
    obtain ⟨inside, -, squashed, -⟩ := squash_tag (starts_tag_iff.mp starts).1
    exact ⟨_, squashed⟩

/-- Squeezing tokens tightens their text and the blanks before it. -/
theorem tightened_blanks_squeeze (scans : Scans conditional ts)
    (free : ∀ token ∈ ts, token.isComment = false) (closed : Bool) {blanks : List Char}
    (blank : ∀ b ∈ blanks, Text.isBlank b = true) :
    Tightened (blanks ++ textOf ts) (textOf (squeeze closed (!blanks.isEmpty) ts)) := by
  induction ts generalizing closed blanks with
  | nil =>
    cases blanks with
    | nil => exact .nil
    | cons b blanks => exact Tightened.nil.of_blanks blank (by simp)
  | cons token ts ih =>
    obtain ⟨starts, scans⟩ := scans
    obtain ⟨noComment, freeLater⟩ := List.forall_mem_cons.mp free
    have later : Tightened (textOf ts) (textOf (squeeze token.closes false ts)) :=
      @ih scans freeLater token.closes [] (by simp)
    have here := starts.tightened noComment later
    unfold squeeze
    split
    next isBlank =>
      cases token with
      | char c =>
        -- nothing is written yet: the blank joins those that wait
        have more : ∀ b ∈ blanks ++ [c], Text.isBlank b = true := by
          simpa [or_imp, forall_and, Token.isBlank] using ⟨blank, isBlank⟩
        have pending : (!(blanks ++ [c]).isEmpty) = true := by simp
        have later := ih scans freeLater closed more
        rw [pending] at later
        simpa [Token.text] using later
      | _ => cases isBlank
    next =>
      cases blanks with
      | nil => simpa using here
      | cons b blanks =>
        split
        · exact here.of_blanks blank (by simp)
        next between =>
          have opens : token.opens = true := by simp at between; exact between.2
          obtain ⟨w, isText⟩ := starts.exists_opening noComment opens
          rw [isText] at here
          rw [textOf_cons, textOf_cons, isText]
          exact here.of_dropped blank

theorem tightened_squeeze (scans : Scans conditional ts)
    (free : ∀ token ∈ ts, token.isComment = false) (closed : Bool) :
    Tightened (textOf ts) (textOf (squeeze closed false ts)) :=
  @tightened_blanks_squeeze _ _ scans free closed [] (by simp)

/-- Squeezed tokens are found in their text. -/
theorem scans_squeeze (scans : Scans conditional ts)
    (free : ∀ token ∈ ts, token.isComment = false) (closed pending : Bool) :
    Scans conditional (squeeze closed pending ts) := by
  have space (rest : List Char) : (Token.char ' ').Starts conditional rest :=
    starts_char_iff.mpr fun opens => absurd opens (by decide)
  induction ts generalizing closed pending with
  | nil =>
    cases pending with
    | true => exact ⟨space [], trivial⟩
    | false => trivial
  | cons token ts ih =>
    obtain ⟨starts, scans⟩ := scans
    obtain ⟨noComment, free⟩ := List.forall_mem_cons.mp free
    have tight := tightened_squeeze scans free token.closes
    have here := starts.squashed noComment tight
    have later := ih scans free token.closes false
    unfold squeeze
    split
    · exact ih scans free closed true
    · split
      · exact ⟨space _, here, later⟩
      · exact ⟨here, later⟩

/-! ## Pieces of squeezed tokens -/

theorem tighten_cons {before : Option Piece} {pending : Bool} {p : Piece} {ps : List Piece}
    (solid : p.isBlank = false) :
    tighten before pending (p :: ps) =
      (if pending && !((before.map Piece.endsTag).getD false && p.startsTag) then [.char ' ']
        else []) ++ p :: tighten (some p) false ps := by
  rw [tighten, if_neg (by simp [solid])]
  dsimp only
  split <;> rfl

theorem squeeze_cons {closed pending : Bool} {token : Token} (solid : token.isBlank = false) :
    squeeze closed pending (token :: ts) =
      (if pending && !(closed && token.opens) then [.char ' '] else []) ++
        token.squashed :: squeeze token.closes false ts := by
  rw [squeeze, if_neg (by simp [solid])]
  split <;> rfl

/--
Tightening from left to right. The state is the last piece that was not blank, and whether blanks
stand behind it.
-/
def tightener : Machine (Option Piece × Bool) Piece Piece where
  step state p :=
    if p.isBlank then ((state.1, true), [])
    else ((some p, false), (if state.2 && !((state.1.map Piece.endsTag).getD false && p.startsTag)
      then [.char ' '] else []) ++ [p])

theorem tightener_blank {p : Piece} (blank : p.isBlank = true) (state : Option Piece × Bool) :
    tightener.step state p = ((state.1, true), []) := if_pos blank

theorem tightener_solid {p : Piece} (solid : p.isBlank = false) (state : Option Piece × Bool) :
    tightener.step state p = ((some p, false), (if state.2 &&
      !((state.1.map Piece.endsTag).getD false && p.startsTag) then [.char ' '] else []) ++ [p]) :=
  if_neg (by simp [solid])

theorem tighten_append (state : Option Piece × Bool) (ps rest : List Piece) :
    tighten state.1 state.2 (ps ++ rest) = (tightener.run state ps).2 ++
      tighten (tightener.run state ps).1.1 (tightener.run state ps).1.2 rest := by
  induction ps generalizing state with
  | nil => rfl
  | cons p ps ih =>
    rw [Machine.run, List.cons_append]
    cases solid : p.isBlank with
    | true =>
      rw [tightener_blank solid, tighten, if_pos solid]
      exact ih (state.1, true)
    | false =>
      rw [tightener_solid solid, tighten_cons solid, ih (some p, false)]
      simp only [List.append_assoc, List.cons_append, List.nil_append]

theorem run_inside {inside : List Char} (unclosed : '>' ∉ inside) {before : Piece}
    (opened : before.endsTag = false) (pending : Bool) :
    tightener.run (some before, pending) ((inside ++ ['>']).map .char) =
      ((some (.char '>'), false), (squash Text.isBlank pending (inside ++ ['>'])).map .char) := by
  have closing : Text.isBlank '>' = false := by decide
  have notOpening : (Piece.char '>').startsTag = false := by decide
  induction inside generalizing before pending with
  | nil =>
    have solid : (Piece.char '>').isBlank = false := closing
    refine Machine.run_singleton ((tightener_solid solid _).trans ?_)
    cases pending <;> simp [squash, closing, notOpening]
  | cons c inside ih =>
    obtain ⟨notClosing, unclosed⟩ := not_or.mp (List.mem_cons.not.mp unclosed)
    by_cases blank : Text.isBlank c = true
    · have rest := Machine.run_cons (tightener_blank (p := .char c) blank (some before, pending))
        (ih unclosed opened true)
      simpa [squash, blank] using rest
    · have open' : (Piece.char c).endsTag = false := by
        simpa [Piece.endsTag] using Ne.symm notClosing
      have solid : (Piece.char c).isBlank = false := by simpa [Piece.isBlank] using blank
      have rest := Machine.run_cons (tightener_solid solid (some before, pending))
        (ih unclosed open' false)
      cases pending <;> simpa [squash, blank, opened] using rest

theorem tighten_inside {inside : List Char} (unclosed : '>' ∉ inside) {before : Piece}
    (opened : before.endsTag = false) (pending : Bool) (rest : List Piece) :
    tighten (some before) pending ((inside ++ ['>']).map .char ++ rest) =
      (squash Text.isBlank pending (inside ++ ['>'])).map .char ++
        tighten (some (.char '>')) false rest := by
  have steps := tighten_append (some before, pending) ((inside ++ ['>']).map .char) rest
  rwa [run_inside unclosed opened] at steps

/-- Tightening goes over the pieces of a token as squeezing goes over the token. -/
theorem tighten_token {token : Token} (starts : token.Starts conditional s)
    (noComment : token.isComment = false) (solid : token.isBlank = false) :
    ∃ last : Piece, last.endsTag = token.closes ∧ ∀ before pending ps,
      tighten before pending (token.pieces ++ ps) =
        (if pending && !((before.map Piece.endsTag).getD false && token.opens) then [.char ' ']
          else []) ++ (token.squashed.pieces ++ tighten (some last) false ps) := by
  cases token with
  | comment text => cases noComment
  | raw block => exact ⟨.raw block, rfl, fun before pending ps => tighten_cons rfl⟩
  | char c => exact ⟨.char c, rfl, fun before pending ps => tighten_cons solid⟩
  | tag text =>
    obtain ⟨inside, unclosed, rfl⟩ := (starts_tag_iff.mp starts).1
    refine ⟨.char '>', rfl, fun before pending ps => ?_⟩
    have opened : (Piece.char '<').endsTag = false := by decide
    have opening : Text.isBlank '<' = false := by decide
    have squashed : squash Text.isBlank false ('<' :: (inside ++ ['>'])) =
        '<' :: squash Text.isBlank false (inside ++ ['>']) := by
      simp [squash, opening]
    have first := @tighten_cons before pending (.char '<') ((inside ++ ['>']).map .char ++ ps) opening
    rw [tighten_inside unclosed opened] at first
    simpa [Token.pieces, Token.text, Token.squashed, squashed, Piece.startsTag, Token.opens]
      using first

/-- Tightening the pieces of tokens squeezes the tokens. -/
theorem tighten_piecesOf (scans : Scans conditional ts)
    (free : ∀ token ∈ ts, token.isComment = false) (before : Option Piece) (pending : Bool) :
    tighten before pending (piecesOf ts) =
      piecesOf (squeeze ((before.map Piece.endsTag).getD false) pending ts) := by
  induction ts generalizing before pending with
  | nil => cases pending <;> rfl
  | cons token ts ih =>
    obtain ⟨starts, scans⟩ := scans
    obtain ⟨noComment, freeLater⟩ := List.forall_mem_cons.mp free
    rw [piecesOf_cons]
    cases solid : token.isBlank with
    | true =>
      cases token with
      | char c =>
        rw [squeeze, if_pos solid, ← ih scans freeLater]
        exact if_pos solid
      | _ => cases solid
    | false =>
      obtain ⟨last, ends, steps⟩ := tighten_token starts noComment solid
      rw [steps, squeeze_cons solid, ih scans freeLater, ← ends]
      split <;> rfl

end

end StaticSite.Markup
