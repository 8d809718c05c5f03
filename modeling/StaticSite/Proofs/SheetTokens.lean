import StaticSite.Proofs.Reader
import StaticSite.Proofs.SheetReader
import StaticSite.Style.Minify

/-!
# The tokens of a style sheet

A tokenizer reads a quoted string as one token, and so it does a mark of punctuation; what stands
between these, comments and white space is a word. Dropping comments leaves the tokens as they are if
no comment is taken to start within a string, and none stands inside of a word.
-/

namespace StaticSite.Style

/-! ## Tokens -/

inductive Token where
  | word (text : List Char)
  | mark (c : Char)
  /-- a string with its quotes -/
  | quoted (text : List Char)
  /-- a string that its line, or the sheet, ends before a quote does -/
  | unclosed (text : List Char)
deriving DecidableEq, Repr

/-- The white space of style sheets. -/
def isSpace (c : Char) : Bool := c = ' ' || c = '\t' || isNewline c

/-- What the tokenizer is in the middle of, and what it has read of the token there. -/
structure Scanner where
  mode : Mode := .code
  text : List Char := []
deriving DecidableEq, Repr

/-- The word that ends where something else starts. -/
def wordEnd (text : List Char) : List Token := if text = [] then [] else [.word text]

namespace Scanner

def codeStep (text : List Char) (c : Char) : Scanner × List Token :=
  if c = '/' then (⟨.slash, text⟩, [])
  else if c = '"' || c = '\'' then (⟨.quoted c, [c]⟩, wordEnd text)
  else if c = '\\' then (⟨.escape, text ++ [c]⟩, [])
  else if isSpace c then ({}, wordEnd text)
  else if isPunctuation c then ({}, wordEnd text ++ [.mark c])
  else (⟨.code, text ++ [c]⟩, [])

def step : Scanner → Char → Scanner × List Token
  | ⟨.code, text⟩, c => codeStep text c
  | ⟨.slash, text⟩, c =>
    if c = '*' then (⟨.comment, []⟩, wordEnd text) else codeStep (text ++ ['/']) c
  | ⟨.comment, _⟩, c => (⟨if c = '*' then .star else .comment, []⟩, [])
  | ⟨.star, _⟩, c => (⟨if c = '/' then .code else if c = '*' then .star else .comment, []⟩, [])
  | ⟨.quoted quote, text⟩, c =>
    if isNewline c then ({}, [.unclosed text])
    else if c = quote then ({}, [.quoted (text ++ [c])])
    else if c = '\\' then (⟨.quotedEscape quote, text ++ [c]⟩, [])
    else (⟨.quoted quote, text ++ [c]⟩, [])
  | ⟨.quotedEscape quote, text⟩, c => (⟨.quoted quote, text ++ [c]⟩, [])
  | ⟨.escape, text⟩, c => (⟨.code, text ++ [c]⟩, [])

/-- The token that the end of the sheet ends. -/
def last : Scanner → List Token
  | ⟨.code, text⟩ => wordEnd text
  | ⟨.slash, text⟩ => [.word (text ++ ['/'])]
  | ⟨.comment, _⟩ => []
  | ⟨.star, _⟩ => []
  | ⟨.quoted _, text⟩ => [.unclosed text]
  | ⟨.quotedEscape _, text⟩ => [.unclosed text]
  | ⟨.escape, text⟩ => [.word text]

end Scanner

def tokenizer : Machine Scanner Char Token := ⟨Scanner.step⟩

/-- The tokens that are still to come when the rest of a sheet is read. -/
def Scanner.read (scanner : Scanner) (s : List Char) : List Token :=
  (tokenizer.run scanner s).2 ++ (tokenizer.run scanner s).1.last

def tokens (sheet : String) : List Token := ({} : Scanner).read sheet.toList

/-- The tokens without each semicolon that a closing brace follows. -/
def significant : List Token → List Token
  | [] => []
  | token :: tokens =>
    if token = .mark ';' ∧ (significant tokens).head? = some (.mark '\x7d') then significant tokens
    else token :: significant tokens

example : significant (tokens "a\x7bb: \"c; \x7d\" /* ; */; \x7d") =
    [.word ['a'], .mark '\x7b', .word ['b'], .mark ':', .quoted "\"c; \x7d\"".toList,
      .mark '\x7d'] := by
  decide +kernel

/-! ## Reading -/

section

variable {scanner next : Scanner} {c : Char} {s t : List Char} {out : List Token}

theorem Scanner.read_cons (scanner : Scanner) (c : Char) (s : List Char) :
    scanner.read (c :: s) = (scanner.step c).2 ++ (scanner.step c).1.read s :=
  List.append_assoc ..

theorem Scanner.read_append (front : tokenizer.run scanner s = (next, out)) (t : List Char) :
    scanner.read (s ++ t) = out ++ next.read t := by
  have whole : tokenizer.run scanner (s ++ t) = _ := Machine.run_append front rfl
  rw [read, whole, List.append_assoc]
  rfl

/-- Words that are read so far end in front of something else. -/
def separates (s : List Char) : Bool :=
  s.head?.all fun c => isSpace c || isPunctuation c || c = '"' || c = '\''

theorem Scanner.codeStep_of_separates (text : List Char) (separates : separates (c :: s) = true) :
    codeStep text c = ((codeStep [] c).1, wordEnd text ++ (codeStep [] c).2) := by
  have apart : isSpace c = true ∨ isPunctuation c = true ∨ c = '"' ∨ c = '\'' := by
    simpa [Style.separates, or_assoc] using separates
  have noSlash : c ≠ '/' := by
    rintro rfl
    revert apart
    decide
  have noEscape : c ≠ '\\' := by
    rintro rfl
    revert apart
    decide
  have noWord : wordEnd [] = [] := rfl
  simp only [codeStep, noSlash, noEscape, noWord, if_false]
  split
  · simp
  · split
    · simp
    next noSpace =>
      split
      · simp
      · simp_all

/-- The word that the tokenizer is in, outside strings, comments and escapes. -/
def Scanner.word? : Scanner → Option (List Char)
  | ⟨.code, text⟩ => some text
  | ⟨.slash, text⟩ => some (text ++ ['/'])
  | _ => none

theorem Scanner.step_of_word? {text : List Char} (inWord : scanner.word? = some text)
    (opens : scanner.mode = .slash → c ≠ '*') : scanner.step c = codeStep text c := by
  obtain ⟨mode, held⟩ := scanner
  cases mode with
  | code =>
    cases inWord
    rfl
  | slash =>
    cases inWord
    exact if_neg (opens rfl)
  | _ => cases inWord

theorem Scanner.eq_start_of_word? (inWord : scanner.word? = some []) : scanner = {} := by
  obtain ⟨mode, held⟩ := scanner
  cases mode with
  | code =>
    cases inWord
    rfl
  | slash => simp [word?] at inWord
  | _ => cases inWord

theorem Scanner.last_of_word? {text : List Char} (inWord : scanner.word? = some text) :
    scanner.last = wordEnd text := by
  obtain ⟨mode, held⟩ := scanner
  cases mode with
  | code =>
    cases inWord
    rfl
  | slash =>
    cases inWord
    simp [last, wordEnd]
  | _ => cases inWord

/-- What separates ends a word, be it of any length. -/
theorem Scanner.read_of_separates {text : List Char} (inWord : scanner.word? = some text)
    (separates : separates s = true) : scanner.read s = wordEnd text ++ ({} : Scanner).read s := by
  cases s with
  | nil =>
    exact (scanner.last_of_word? inWord).trans (List.append_nil _).symm
  | cons c s =>
    have opens : c ≠ '*' := by
      rintro rfl
      revert separates
      exact Bool.noConfusion
    have fromStart : ({} : Scanner).step c = codeStep [] c := rfl
    rw [read_cons, read_cons, scanner.step_of_word? inWord fun _ => opens, fromStart,
      codeStep_of_separates text separates, List.append_assoc]

end

/-! ## Comments -/

/-- What is inside and behind the comment that a text starts with. -/
def comment? (s : List Char) : Option (List Char × List Char) :=
  (Text.dropMark? ['/', '*'] s).bind (Text.splitAtMark? ['*', '/'])

section

variable {scanner : Scanner} {c : Char} {s inside rest : List Char}

theorem dropCommentsFrom_eq (skip : Nat) (s : List Char) :
    dropCommentsFrom skip s = dropComments (s.drop skip) := by
  induction skip generalizing s with
  | zero => rfl
  | succ skip ih =>
    cases s with
    | nil => rfl
    | cons c s => exact ih s

theorem eq_of_comment? (found : comment? s = some (inside, rest)) :
    s = '/' :: '*' :: (inside ++ '*' :: '/' :: rest) := by
  obtain ⟨body, opened, closed⟩ := Option.bind_eq_some_iff.mp found
  rw [Text.dropMark?_eq_some.mp opened, Text.splitAtMark?_eq_some closed]
  simp

theorem dropComments_cons (absent : comment? (c :: s) = none) :
    dropComments (c :: s) = c :: dropComments s := by
  rw [dropComments, dropCommentsFrom]
  split
  · rfl
  next body opened =>
    rw [comment?, opened, Option.bind_some] at absent
    rw [absent]
    rfl

theorem dropComments_comment (found : comment? s = some (inside, rest)) :
    dropComments s = dropComments rest := by
  have whole := eq_of_comment? found
  rw [whole] at found ⊢
  obtain ⟨body, opened, closed⟩ := Option.bind_eq_some_iff.mp found
  rw [dropComments, dropCommentsFrom, opened]
  dsimp only
  rw [closed]
  dsimp only
  rw [dropCommentsFrom_eq]
  simp

theorem dropComments_eq_self (unclosed : ¬ ['*', '/'] <:+: s) : dropComments s = s := by
  induction s with
  | nil => rfl
  | cons c s ih =>
    have absent : comment? (c :: s) = none := by
      rw [← Option.not_isSome_iff_eq_none, Option.isSome_iff_exists]
      rintro ⟨⟨inside, rest⟩, found⟩
      exact unclosed ⟨'/' :: '*' :: inside, rest, by rw [eq_of_comment? found]; simp⟩
    rw [dropComments_cons absent, ih fun within => unclosed (within.trans (List.suffix_cons ..).isInfix)]

/-- The tokenizer comes out of a comment where it ends. -/
theorem run_comment (closed : Text.splitAtMark? ['*', '/'] s = some (inside, rest)) (text : List Char) :
    tokenizer.run ⟨.comment, text⟩ (inside ++ ['*', '/']) = ({}, []) ∧
      (s.head? ≠ some '/' → tokenizer.run ⟨.star, text⟩ (inside ++ ['*', '/']) = ({}, [])) := by
  induction s generalizing inside text with
  | nil => cases closed
  | cons c s ih =>
    unfold Text.splitAtMark? at closed
    split at closed
    next rest starts =>
      cases closed
      exact ⟨rfl, fun _ => rfl⟩
    next absent =>
      obtain ⟨⟨inside, rest⟩, later, same⟩ := Option.map_eq_some_iff.mp closed
      cases same
      obtain ⟨fromComment, fromStar⟩ := ih later []
      have behindStar (isStar : c = '*') : s.head? ≠ some '/' := by
        rintro isSlash
        obtain ⟨s, rfl⟩ : ∃ t, s = '/' :: t := by
          cases s with
          | nil => cases isSlash
          | cons d t => exact ⟨t, by rw [Option.some.inj isSlash]⟩
        rw [isStar] at absent
        cases absent
      have onward (state : Scanner) (step : tokenizer.step state c =
          (⟨if c = '*' then .star else .comment, []⟩, [])) :
          tokenizer.run state (c :: inside ++ ['*', '/']) = ({}, []) := by
        refine Machine.run_cons step ?_
        split
        next isStar => exact fromStar (behindStar isStar)
        · exact fromComment
      refine ⟨onward ⟨.comment, text⟩ rfl, fun notHere => onward ⟨.star, text⟩ ?_⟩
      have noSlash : c ≠ '/' := fun same => notHere (by rw [same]; rfl)
      simp [tokenizer, Scanner.step, noSlash]

/-- A comment ends the word in front of it. -/
theorem run_comment_text {text : List Char} (inWord : scanner.word? = some text)
    (found : comment? s = some (inside, rest)) :
    tokenizer.run scanner ('/' :: '*' :: (inside ++ ['*', '/'])) = ({}, wordEnd text) := by
  obtain ⟨body, -, closed⟩ := Option.bind_eq_some_iff.mp found
  have slash : tokenizer.step scanner '/' = (⟨.slash, text⟩, []) :=
    scanner.step_of_word? inWord fun _ => by decide
  have star : tokenizer.step ⟨.slash, text⟩ '*' = (⟨.comment, []⟩, wordEnd text) := rfl
  have run := Machine.run_cons slash (Machine.run_cons star (run_comment closed []).1)
  rwa [List.append_nil, List.nil_append] at run

/--
Whether no comment is found in a string or behind a backslash, and none inside of a word. The
characters of a comment that has been found are skipped.
-/
def isApartFrom (scanner : Scanner) : Nat → List Char → Bool
  | _, [] => true
  | skip + 1, c :: s => isApartFrom (scanner.step c).1 skip s
  | 0, c :: s =>
    match comment? (c :: s) with
    | none => isApartFrom (scanner.step c).1 0 s
    | some (inside, rest) =>
      scanner.word?.any (fun text => text = [] || separates (dropComments rest)) &&
        isApartFrom (scanner.step c).1 (inside.length + 3) s

theorem isApartFrom_skip (skip : Nat) :
    isApartFrom scanner skip s = isApartFrom (tokenizer.run scanner (s.take skip)).1 0 (s.drop skip) := by
  induction skip generalizing scanner s with
  | zero => rfl
  | succ skip ih =>
    cases s with
    | nil => rfl
    | cons c s => exact ih

/-- A comment is left behind at its end. -/
theorem isApartFrom_comment (found : comment? s = some (inside, rest)) :
    isApartFrom scanner 0 s =
      (scanner.word?.any (fun text => text = [] || separates (dropComments rest)) &&
        isApartFrom {} 0 rest) := by
  have whole := eq_of_comment? found
  subst whole
  rw [isApartFrom, found]
  dsimp only
  cases inWord : scanner.word? with
  | none => rfl
  | some text =>
    have front : ('*' :: (inside ++ '*' :: '/' :: rest)).take (inside.length + 3) =
          '*' :: (inside ++ ['*', '/']) ∧
        ('*' :: (inside ++ '*' :: '/' :: rest)).drop (inside.length + 3) = rest := by
      have split : '*' :: (inside ++ '*' :: '/' :: rest) =
          ('*' :: (inside ++ ['*', '/'])) ++ rest := by simp
      rw [split]
      exact ⟨List.take_left' (by simp), List.drop_left' (by simp)⟩
    have after : (tokenizer.run (scanner.step '/').1 ('*' :: (inside ++ ['*', '/']))).1 = {} :=
      congrArg Prod.fst (run_comment_text inWord found)
    rw [isApartFrom_skip, front.1, front.2, after]

/-- Whether the tokenizer is outside of comments, and none starts with its last character. -/
structure Scanner.IsOutside (scanner : Scanner) (s : List Char) : Prop where
  comment : scanner.mode ≠ .comment
  star : scanner.mode ≠ .star
  slash : scanner.mode = .slash → s.head? ≠ some '*'

theorem Scanner.isOutside_start (s : List Char) : ({} : Scanner).IsOutside s :=
  ⟨Mode.noConfusion, Mode.noConfusion, fun isSlash => Mode.noConfusion isSlash⟩

theorem Scanner.IsOutside.step (outside : scanner.IsOutside (c :: s))
    (noMark : c = '/' → s.head? ≠ some '*') : (scanner.step c).1.IsOutside s := by
  have inCode (text : List Char) : (codeStep text c).1.IsOutside s := by
    unfold codeStep
    split
    next isSlash => exact ⟨nofun, nofun, fun _ => noMark isSlash⟩
    · split_ifs <;> exact ⟨nofun, nofun, nofun⟩
  obtain ⟨mode, text⟩ := scanner
  cases mode with
  | code => exact inCode text
  | slash =>
    have noStar : c ≠ '*' := fun same => outside.slash rfl (by rw [same]; rfl)
    rw [Scanner.step, if_neg noStar]
    exact inCode _
  | comment => exact absurd rfl outside.comment
  | star => exact absurd rfl outside.star
  | quoted quote =>
    rw [Scanner.step]
    split_ifs <;> exact ⟨nofun, nofun, nofun⟩
  | quotedEscape quote => exact ⟨nofun, nofun, nofun⟩
  | escape => exact ⟨nofun, nofun, nofun⟩

/-- A comment that is not closed stays as it is, with all that stands behind it. -/
theorem dropComments_unclosed (absent : comment? ('/' :: '*' :: s) = none) :
    dropComments ('/' :: '*' :: s) = '/' :: '*' :: s := by
  have noMark : comment? ('*' :: s) = none := rfl
  have unclosed : ¬ ['*', '/'] <:+: s := by
    rw [← Text.isSome_splitAtMark?_iff, Option.not_isSome_iff_eq_none]
    exact absent
  rw [dropComments_cons absent, dropComments_cons noMark, dropComments_eq_self unclosed]

/-- A comment that stands apart is passed over. -/
theorem Scanner.read_comment (found : comment? s = some (inside, rest))
    (alone : scanner.word?.any (fun text => text = [] || separates (dropComments rest)) = true)
    (later : ({} : Scanner).read (dropComments rest) = ({} : Scanner).read rest) :
    scanner.read (dropComments s) = scanner.read s := by
  obtain ⟨text, inWord, ends⟩ : ∃ text, scanner.word? = some text ∧
      (text = [] ∨ separates (dropComments rest) = true) := by
    cases inWord : scanner.word? with
    | none =>
      rw [inWord] at alone
      cases alone
    | some text =>
      rw [inWord] at alone
      exact ⟨text, rfl, by simpa using alone⟩
  have whole : s = ('/' :: '*' :: (inside ++ ['*', '/'])) ++ rest := by
    rw [eq_of_comment? found]
    simp
  have behind : scanner.read s = wordEnd text ++ ({} : Scanner).read rest := by
    rw [whole]
    exact read_append (run_comment_text inWord found) rest
  rw [dropComments_comment found, behind, ← later]
  rcases ends with rfl | separated
  · rw [eq_start_of_word? inWord]
    rfl
  · exact scanner.read_of_separates inWord separated

/-- Dropping comments that stand apart leaves the tokens. -/
theorem read_dropComments (outside : scanner.IsOutside s) (apart : isApartFrom scanner 0 s = true) :
    scanner.read (dropComments s) = scanner.read s := by
  -- by the length of the text, since a comment is left out as a whole
  generalize size : s.length = n
  induction n using Nat.strongRecOn generalizing scanner s with
  | ind n ih =>
    cases s with
    | nil => rfl
    | cons c s =>
      cases found : comment? (c :: s) with
      | some parts =>
        obtain ⟨inside, rest⟩ := parts
        rw [isApartFrom_comment found] at apart
        obtain ⟨alone, behind⟩ := Bool.and_eq_true_iff.mp apart
        have shorter : rest.length < n := by
          rw [← size, eq_of_comment? found]
          simp only [List.length_cons, List.length_append]
          omega
        exact Scanner.read_comment found alone
          (ih rest.length shorter (Scanner.isOutside_start rest) behind rfl)
      | none =>
        rw [isApartFrom, found] at apart
        dsimp only at apart
        by_cases opens : c = '/' ∧ s.head? = some '*'
        · obtain ⟨rfl, isStar⟩ := opens
          obtain ⟨s, rfl⟩ : ∃ t, s = '*' :: t := by
            cases s with
            | nil => cases isStar
            | cons d t => exact ⟨t, by rw [Option.some.inj isStar]⟩
          rw [dropComments_unclosed found]
        · have later := ih s.length (by rw [← size]; exact Nat.lt_succ_self _)
            (outside.step fun isSlash isStar => opens ⟨isSlash, isStar⟩) apart rfl
          rw [dropComments_cons found, Scanner.read_cons, Scanner.read_cons, later]

end

end StaticSite.Style
