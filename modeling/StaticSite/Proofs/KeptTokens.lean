import StaticSite.Proofs.SheetTokens
import StaticSite.Proofs.Tidying

/-!
# The tokens of a reduced style sheet

The tokenizer runs along with the pass that reduces a sheet and finds the same tokens in its outcome,
if no blank and no semicolon in a string or behind a backslash is touched, and every other blank is
white space to it.
-/

namespace StaticSite.Style

/-! ## Significant tokens -/

section

variable {x y : List Token}

theorem significant_append_iff (front : List Token) :
    significant (front ++ x) = significant (front ++ y) ↔ significant x = significant y := by
  induction front with
  | nil => rfl
  | cons token front ih =>
    rw [List.cons_append, List.cons_append, significant, significant, ← ih]
    generalize significant (front ++ x) = left
    generalize significant (front ++ y) = right
    refine ⟨fun same => ?_, fun same => by rw [same]⟩
    split at same
    next goes =>
      split at same
      · exact same
      · rw [same] at goes
        simp [goes.1] at goes
    next stays =>
      split at same
      next goes =>
        rw [← same] at goes
        simp [goes.1] at goes
      · exact (List.cons.inj same).2

theorem significant_semicolon (x : List Token) :
    significant (.mark ';' :: .mark '\x7d' :: x) = significant (.mark '\x7d' :: x) := by
  have brace : significant (.mark '\x7d' :: x) = .mark '\x7d' :: significant x := by
    rw [significant, if_neg (by simp)]
  rw [significant, brace, if_pos ⟨rfl, rfl⟩]

end

/-! ## Blanks -/

/-- Whether the tokenizer is in a string or behind a backslash. -/
def Scanner.isHeld (scanner : Scanner) : Bool :=
  match scanner.mode with
  | .quoted _ | .quotedEscape _ | .escape => true
  | _ => false

section

variable {scanner : Scanner} {c : Char} {s : List Char}

/-- Outside of strings and escapes the tokenizer is at a word, or in a comment. -/
theorem Scanner.cases_of_free (free : scanner.isHeld = false) :
    (∃ text, scanner.word? = some text) ∨
      (∀ c, c ≠ '/' → c ≠ '*' → scanner.step c = (⟨.comment, []⟩, [])) ∧ scanner.last = [] := by
  obtain ⟨mode, text⟩ := scanner
  cases mode with
  | code => exact .inl ⟨text, rfl⟩
  | slash => exact .inl ⟨text ++ ['/'], rfl⟩
  | comment => exact .inr ⟨fun c _ noStar => by simp [step, noStar], rfl⟩
  | star => exact .inr ⟨fun c noSlash noStar => by simp [step, noSlash, noStar], rfl⟩
  | _ => cases free

theorem Scanner.step_space_of_word? {text : List Char} (inWord : scanner.word? = some text) :
    scanner.step ' ' = ({}, wordEnd text) :=
  scanner.step_of_word? inWord fun _ => by decide

theorem Scanner.step_punctuation_of_word? {text : List Char} (inWord : scanner.word? = some text)
    (mark : isPunctuation c = true) : scanner.step c = ({}, wordEnd text ++ [.mark c]) := by
  have marks : c = '\x7b' ∨ c = '\x7d' ∨ c = ';' ∨ c = ':' ∨ c = ',' ∨ c = '>' ∨ c = '~' := by
    simpa [isPunctuation, or_assoc] using mark
  rcases marks with rfl | rfl | rfl | rfl | rfl | rfl | rfl <;>
    exact scanner.step_of_word? inWord fun _ => by decide

/-- A space in front of something else changes nothing. -/
theorem Scanner.step_step_space (free : scanner.isHeld = false) :
    (scanner.step ' ').1.isHeld = false ∧
      (scanner.step ' ').1.step ' ' = ((scanner.step ' ').1, []) := by
  rcases scanner.cases_of_free free with ⟨text, inWord⟩ | ⟨inComment, -⟩
  · rw [step_space_of_word? inWord]
    exact ⟨rfl, rfl⟩
  · rw [inComment ' ' (by decide) (by decide)]
    exact ⟨rfl, rfl⟩

theorem Scanner.read_space_nil (free : scanner.isHeld = false) :
    scanner.read [] = scanner.read [' '] := by
  rcases scanner.cases_of_free free with ⟨text, inWord⟩ | ⟨inComment, last⟩
  · rw [read_cons, step_space_of_word? inWord]
    exact (scanner.last_of_word? inWord).trans (List.append_nil _).symm
  · rw [read_cons, inComment ' ' (by decide) (by decide)]
    exact last

theorem Scanner.step_punctuation (free : scanner.isHeld = false) (mark : isPunctuation c = true) :
    (scanner.step c).1 = (scanner.step ' ').1 ∧
      scanner.step c = (((scanner.step ' ').1.step c).1,
        (scanner.step ' ').2 ++ ((scanner.step ' ').1.step c).2) := by
  rcases scanner.cases_of_free free with ⟨text, inWord⟩ | ⟨inComment, -⟩
  · have fromStart : ({} : Scanner).step c = ({}, wordEnd [] ++ [.mark c]) :=
      step_punctuation_of_word? rfl mark
    rw [step_space_of_word? inWord, step_punctuation_of_word? inWord mark, fromStart]
    simp [wordEnd]
  · have noSlash : c ≠ '/' := by
      rintro rfl
      cases mark
    have noStar : c ≠ '*' := by
      rintro rfl
      cases mark
    rw [inComment c noSlash noStar, inComment ' ' (by decide) (by decide)]
    simp [step, noStar]

theorem Scanner.read_space_punctuation (free : scanner.isHeld = false)
    (mark : isPunctuation c = true) (s : List Char) :
    scanner.read (c :: s) = scanner.read (' ' :: c :: s) := by
  rw [read_cons scanner ' ', read_cons _ c, read_cons _ c, (step_punctuation free mark).2,
    List.append_assoc]

/-! ## Reading a reduced text -/

/--
Whether reducing leaves what the tokenizer makes of a character in front of a text. A blank in a
string or behind a backslash is a space between characters that are no punctuation, and behind a
semicolon there stands neither a blank nor a closing brace. Any other blank is read as a space is,
and behind punctuation it changes nothing.
-/
def Scanner.isCalm (scanner : Scanner) (after : Bool) (c : Char) (s : List Char) : Bool :=
  if scanner.isHeld then
    (!Text.isBlank c ||
        c = ' ' && !after && s.head?.any fun d => !Text.isBlank d && !isPunctuation d) &&
      (c ≠ ';' || s.head?.any fun d => !Text.isBlank d && d ≠ '\x7d')
  else
    !Text.isBlank c ||
      scanner.step c = scanner.step ' ' && (!after || scanner.step ' ' = (scanner, []))

/-- `after` tells whether punctuation stands directly in front of the text. -/
def isCalmFrom (scanner : Scanner) (after : Bool) : List Char → Bool
  | [] => true
  | c :: s => scanner.isCalm after c s && isCalmFrom (scanner.step c).1 (isPunctuation c) s

theorem Scanner.step_of_isCalm {after : Bool} (free : scanner.isHeld = false)
    (calm : scanner.isCalm after c s = true) (blank : Text.isBlank c = true) :
    scanner.step c = scanner.step ' ' ∧ (after = true → scanner.step ' ' = (scanner, [])) := by
  rw [isCalm, free, blank] at calm
  simpa [imp_iff_not_or] using calm

theorem Scanner.held_of_isCalm {after : Bool} (held : scanner.isHeld = true)
    (calm : scanner.isCalm after c s = true) :
    (Text.isBlank c = true → c = ' ' ∧ after = false ∧
        ∃ d t, s = d :: t ∧ Text.isBlank d = false ∧ isPunctuation d = false) ∧
      (c = ';' → ∃ d t, s = d :: t ∧ Text.isBlank d = false ∧ d ≠ '\x7d') := by
  rw [isCalm, held, if_pos rfl] at calm
  obtain ⟨blanks, semicolon⟩ := Bool.and_eq_true_iff.mp calm
  cases s with
  | nil =>
    exact ⟨fun blank => by simp [blank] at blanks, fun isSemicolon => by simp [isSemicolon] at semicolon⟩
  | cons d t =>
    refine ⟨fun blank => ?_, fun isSemicolon => ?_⟩
    · rw [blank] at blanks
      obtain ⟨⟨isSpace, alone⟩, solid, noMark⟩ := by simpa using blanks
      exact ⟨isSpace, alone, d, t, rfl, solid, noMark⟩
    · obtain ⟨solid, noBrace⟩ := by simpa [isSemicolon] using semicolon
      exact ⟨d, t, rfl, solid, noBrace⟩

/-- Nothing, or what a closing brace starts. -/
def StartsClosed (rest : List Char) : Prop := rest = [] ∨ ∃ t, rest = '\x7d' :: t

theorem StartsClosed.tidy_eq {rest : List Char} (closed : StartsClosed rest) (after : Bool) :
    StartsClosed (tidy true false rest) ∧ tidy after false rest = tidy true false rest ∧
      ∀ s, comesNext '\x7d' (s ++ tidy true false rest) = comesNext '\x7d' (s ++ rest) := by
  rcases closed with rfl | ⟨t, rfl⟩
  · exact ⟨.inl rfl, rfl, fun _ => rfl⟩
  · have brace : tidy true false ('\x7d' :: t) = '\x7d' :: tidy true false t := rfl
    refine ⟨.inr ⟨_, brace⟩, tidy_congr (comesNext_self (by decide) t) .., fun s => ?_⟩
    rw [brace]
    induction s with
    | nil => rfl
    | cons c s ih =>
      cases isBlank : Text.isBlank c with
      | true => exact (comesNext_blank isBlank).trans (ih.trans (comesNext_blank isBlank).symm)
      | false => exact (comesNext_solid isBlank).trans (comesNext_solid isBlank).symm

theorem read_of_comesNext {after : Bool} {rest : List Char} (closed : StartsClosed rest)
    (next : comesNext '\x7d' (s ++ rest) = true) (calm : isCalmFrom {} after s = true) :
    ∃ x, ({} : Scanner).read (s ++ rest) = .mark '\x7d' :: x := by
  induction s generalizing after with
  | nil =>
    rcases closed with rfl | ⟨t, rfl⟩
    · cases next
    · exact ⟨_, rfl⟩
  | cons c s ih =>
    obtain ⟨here, later⟩ := Bool.and_eq_true_iff.mp calm
    rw [List.cons_append] at next ⊢
    cases isBlank : Text.isBlank c with
    | true =>
      have asSpace : ({} : Scanner).step c = ({}, []) :=
        (Scanner.step_of_isCalm rfl here isBlank).1
      rw [Scanner.read_cons, asSpace]
      rw [asSpace] at later
      exact ih (by rwa [comesNext_blank isBlank] at next) later
    | false =>
      have isBrace : c = '\x7d' := by simpa [comesNext_solid isBlank] using next
      subst isBrace
      exact ⟨_, rfl⟩

/-- A semicolon that a closing brace follows is no more than a space. -/
theorem significant_read_semicolon {after : Bool} {rest : List Char} (closed : StartsClosed rest)
    (free : scanner.isHeld = false) (next : comesNext '\x7d' (s ++ rest) = true)
    (calm : isCalmFrom (scanner.step ' ').1 after s = true) :
    significant (scanner.read (';' :: (s ++ rest))) =
      significant (scanner.read (' ' :: (s ++ rest))) := by
  rw [Scanner.read_cons, Scanner.read_cons]
  rcases scanner.cases_of_free free with ⟨text, inWord⟩ | ⟨inComment, -⟩
  · rw [Scanner.step_space_of_word? inWord] at calm ⊢
    obtain ⟨x, read⟩ := read_of_comesNext closed next calm
    rw [Scanner.step_punctuation_of_word? inWord (by decide), read, List.append_assoc]
    exact (significant_append_iff (wordEnd text)).mpr (significant_semicolon x)
  · rw [inComment ';' (by decide) (by decide), inComment ' ' (by decide) (by decide)]

theorem significant_read_cons {t : List Char}
    (same : significant ((scanner.step c).1.read s) = significant ((scanner.step c).1.read t)) :
    significant (scanner.read (c :: s)) = significant (scanner.read (c :: t)) := by
  rw [Scanner.read_cons, Scanner.read_cons]
  exact (significant_append_iff _).mpr same

/--
The tokenizer finds in a text that has been reduced what it finds where only the end has been reduced,
from a closing brace on. Where blanks are pending, it is what it finds behind a space.
-/
structure ReadsAlike (rest s : List Char) : Prop where
  solid : ∀ (scanner : Scanner) (after : Bool), isCalmFrom scanner after s = true →
    significant (scanner.read (tidy after false (s ++ rest))) =
      significant (scanner.read (s ++ tidy true false rest))
  pending : ∀ (scanner : Scanner) (after before : Bool), scanner.isHeld = false →
    (after = true → scanner.step ' ' = (scanner, [])) →
    isCalmFrom (scanner.step ' ').1 before s = true →
    significant (scanner.read (tidy after true (s ++ rest))) =
      significant (scanner.read (' ' :: (s ++ tidy true false rest)))

namespace ReadsAlike

variable {rest : List Char}

theorem nil (closed : StartsClosed rest) : ReadsAlike rest [] := by
  refine ⟨fun scanner after _ => ?_, fun scanner after _ free _ _ => ?_⟩
  · rw [List.nil_append, (closed.tidy_eq after).2.1]
    rfl
  · rcases closed with rfl | ⟨t, rfl⟩
    · exact congrArg significant (Scanner.read_space_nil free)
    · rw [List.nil_append, tidy_congr (comesNext_self (by decide) t) after true true false]
      exact congrArg significant (Scanner.read_space_punctuation free (by decide) _)

theorem solid_cons (closed : StartsClosed rest) (alike : ReadsAlike rest s) {after : Bool}
    (calm : isCalmFrom scanner after (c :: s) = true) :
    significant (scanner.read (tidy after false (c :: (s ++ rest)))) =
      significant (scanner.read (c :: (s ++ tidy true false rest))) := by
  obtain ⟨closedTidy, -, sameNext⟩ := closed.tidy_eq after
  obtain ⟨here, later⟩ := Bool.and_eq_true_iff.mp calm
  rcases tidy_cases c (s ++ rest) with blank | ⟨rfl, next⟩ | ⟨solid, kept⟩
  · cases held : scanner.isHeld with
    | false =>
      obtain ⟨asSpace, needless⟩ := Scanner.step_of_isCalm held here blank
      rw [asSpace] at later
      rw [tidy_blank blank, alike.pending scanner after _ held needless later, Scanner.read_cons,
        Scanner.read_cons _ c, asSpace]
    | true =>
      -- the blank is one space in front of a character that keeps it
      obtain ⟨rfl, rfl, d, t, rfl, solid, noMark⟩ := (Scanner.held_of_isCalm held here).1 blank
      have kept (isSemicolon : d = ';') : comesNext '\x7d' (t ++ rest) = false := by
        rw [isSemicolon] at noMark
        cases noMark
      have space : tidy false false (' ' :: (d :: t ++ rest)) =
          ' ' :: tidy false false (d :: t ++ rest) := by
        rw [List.cons_append, tidy_blank blank, tidy_solid solid kept, tidy_solid solid kept, noMark]
        rfl
      rw [space]
      exact significant_read_cons (alike.solid _ false later)
  · cases held : scanner.isHeld with
    | false =>
      rw [(Scanner.step_punctuation held (by decide)).1] at later
      rw [tidy_semicolon next, alike.pending scanner false _ held nofun later]
      exact (significant_read_semicolon closedTidy held (by rwa [sameNext]) later).symm
    | true =>
      obtain ⟨d, t, rfl, solid, noBrace⟩ := (Scanner.held_of_isCalm held here).2 rfl
      rw [List.cons_append, comesNext_solid solid] at next
      exact absurd (of_decide_eq_true next) noBrace
  · rw [tidy_solid solid kept]
    exact significant_read_cons (alike.solid _ _ later)

theorem pending_cons (closed : StartsClosed rest) (alike : ReadsAlike rest s) {after before : Bool}
    (free : scanner.isHeld = false) (needless : after = true → scanner.step ' ' = (scanner, []))
    (calm : isCalmFrom (scanner.step ' ').1 before (c :: s) = true) :
    significant (scanner.read (tidy after true (c :: (s ++ rest)))) =
      significant (scanner.read (' ' :: c :: (s ++ tidy true false rest))) := by
  obtain ⟨closedTidy, -, sameNext⟩ := closed.tidy_eq after
  obtain ⟨here, later⟩ := Bool.and_eq_true_iff.mp calm
  obtain ⟨freeSpace, twice⟩ := Scanner.step_step_space free
  rcases tidy_cases c (s ++ rest) with blank | ⟨rfl, next⟩ | ⟨solid, kept⟩
  · have asSpace := (Scanner.step_of_isCalm freeSpace here blank).1.trans twice
    rw [asSpace] at later
    rw [tidy_blank blank, alike.pending scanner after _ free needless later, Scanner.read_cons,
      Scanner.read_cons _ ' ', Scanner.read_cons _ c, asSpace, List.nil_append]
  · have sameState := (Scanner.step_punctuation freeSpace (c := ';') (by decide)).1
    rw [twice] at sameState
    rw [sameState] at later
    have semicolon := significant_read_semicolon closedTidy freeSpace (by rwa [sameNext])
      (by rwa [twice])
    rw [Scanner.read_cons _ ' ', twice] at semicolon
    rw [tidy_semicolon next, alike.pending scanner false _ free nofun later]
    exact (significant_read_cons semicolon).symm
  · -- where no space is written, there is punctuation on one side
    have written (t : List Char) : scanner.read
        ((if !after && !isPunctuation c then [' '] else []) ++ c :: t) =
          scanner.read (' ' :: c :: t) := by
      cases mark : isPunctuation c with
      | true => simpa using Scanner.read_space_punctuation free mark t
      | false =>
        cases isAfter : after with
        | false => rfl
        | true =>
          rw [Scanner.read_cons _ ' ', needless isAfter]
          rfl
    rw [tidy_solid solid kept, Bool.true_and, written]
    exact significant_read_cons (significant_read_cons (alike.solid _ _ later))

end ReadsAlike

/-- A calm text reads alike when it is reduced, whatever follows it from a closing brace on. -/
theorem readsAlike {rest : List Char} (closed : StartsClosed rest) (s : List Char) :
    ReadsAlike rest s := by
  induction s with
  | nil => exact .nil closed
  | cons c s ih =>
    exact ⟨fun _ _ calm => ih.solid_cons closed calm,
      fun _ _ _ free needless calm => ih.pending_cons closed free needless calm⟩

end

/-- Whether a text has the same significant tokens when it is reduced. -/
def KeepsTokens (s : List Char) : Prop :=
  significant (({} : Scanner).read (minifyChars s)) = significant (({} : Scanner).read s)

instance (s : List Char) : Decidable (KeepsTokens s) :=
  inferInstanceAs (Decidable (significant _ = significant _))

theorem keepsTokens_iff {sheet : String} :
    KeepsTokens sheet.toList ↔ significant (tokens (minify sheet)) = significant (tokens sheet) := by
  rw [tokens, minify, String.toList_ofList]
  rfl

/-- A text in which reducing gets into no string and no escape, and joins no two words. -/
structure IsSettled (s : List Char) : Prop where
  apart : isApartFrom {} 0 s = true
  calm : isCalmFrom {} true (dropComments s) = true

theorem IsSettled.keepsTokens {s : List Char} (settled : IsSettled s) : KeepsTokens s := by
  have reduced := (readsAlike (.inl rfl) _).solid {} true settled.calm
  rw [List.append_nil] at reduced
  rw [KeepsTokens, minifyChars_eq, reduced, tidy, List.append_nil,
    read_dropComments (Scanner.isOutside_start _) settled.apart]

end StaticSite.Style
