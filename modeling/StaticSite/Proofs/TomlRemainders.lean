import StaticSite.Proofs.JsonRemainders
import StaticSite.Proofs.Reader
import StaticSite.Toml

/-!
# What the readers of TOML leave

Each reader of a value takes the start of its text. A text is refused for its form, or for an integer
with too many digits, between which underscores may stand.
-/

namespace StaticSite.Toml

variable {α : Type}

/-! ## Blanks and comments -/

theorem skipSpace_suffix (s : List Char) : skipSpace s <:+ s := List.dropWhile_suffix _

theorem span_suffix (p : Char → Bool) (s : List Char) : (s.span p).2 <:+ s := by
  rw [List.span_eq_takeWhile_dropWhile]
  exact List.dropWhile_suffix p

theorem skipComment?_suffix {s rest : List Char} (found : skipComment? s = some rest) :
    rest <:+ s := by
  unfold skipComment? at found
  split at found
  next inside =>
    dsimp only at found
    split at found <;> cases found
    exact (span_suffix _ inside).trans (List.suffix_cons '#' inside)
  · cases found
    exact List.suffix_refl s

theorem skipBetween?_suffix {fuel : Nat} {s rest : List Char}
    (found : skipBetween? fuel s = some rest) : rest <:+ s := by
  induction fuel generalizing s with
  | zero =>
    cases found
    exact List.suffix_refl _
  | succ fuel ih =>
    unfold skipBetween? at found
    have blanks := List.dropWhile_suffix (l := s) fun c => isSpace c || c = '\n'
    split at found
    next inside same =>
      rw [same] at blanks
      obtain ⟨after, comment, onward⟩ := Option.bind_eq_some_iff.mp found
      exact ((ih onward).trans (skipComment?_suffix comment)).trans blanks
    · cases found
      exact blanks

/-! ## Strings and keys -/

theorem codePoint?_leaves (length : Nat) (s : List Char) : LeavesEnd s (codePoint? length s) := by
  apply LeavesBy.bindOf
  intro digits _
  dsimp only
  split
  · exact LeavesBy.bindOf nofun
  · split
    · exact LeavesBy.bindOf nofun
    · exact LeavesBy.some (List.drop_suffix length s)

theorem escape?_leaves (multiline : Bool) (s : List Char) : LeavesEnd s (escape? multiline s) := by
  unfold escape?
  split
  · exact LeavesBy.none
  next c rest =>
    apply LeavesBy.mono (List.suffix_cons c rest)
    split
    · exact LeavesBy.some (List.dropWhile_suffix _)
    · split
      · have blanks := skipSpace_suffix rest
        split
        · exact LeavesBy.some List.nil_suffix
        next after same =>
          rw [same] at blanks
          exact LeavesBy.some
            (((List.dropWhile_suffix _).trans (List.suffix_cons '\n' after)).trans blanks)
        · exact LeavesBy.none
      · split
        · exact codePoint?_leaves 4 rest
        · split
          · exact codePoint?_leaves 8 rest
          · rw [Option.map_eq_bind]
            exact LeavesBy.bindOf fun char _ => LeavesBy.some (List.suffix_refl rest)

theorem dropThree?_suffix {c : Char} {s rest : List Char} (found : dropThree? c s = some rest) :
    rest <:+ s := ⟨[c, c, c], (Text.dropMark?_eq_some.mp found).symm⟩

theorem basic?_leaves (multiline : Bool) (fuel : Nat) (s : List Char) :
    LeavesEnd s (basic? multiline fuel s) := by
  induction fuel generalizing s with
  | zero => exact LeavesBy.none
  | succ fuel ih =>
    unfold basic?
    split
    · exact LeavesBy.none
    next c rest =>
      have inner := List.suffix_cons c rest
      split
      · exact LeavesBy.some inner
      · split
        next after closing =>
          split at closing
          · exact LeavesBy.some (dropThree?_suffix closing)
          · cases closing
        · split
          · apply LeavesBy.mono inner
            apply (escape?_leaves multiline rest).bind
            intro found after
            apply (ih after).bind
            exact fun more last => LeavesBy.some (List.suffix_refl last)
          · split
            · exact LeavesBy.none
            · apply LeavesBy.mono inner
              apply (ih rest).bind
              exact fun more last => LeavesBy.some (List.suffix_refl last)

theorem literal?_leaves (s : List Char) : LeavesEnd s (literal? s) := by
  unfold literal?
  have inner := span_suffix (· ≠ singleQuote) s
  split
  next inside c rest same =>
    rw [same] at inner
    split
    · exact LeavesBy.none
    · exact LeavesBy.some ((List.suffix_cons c rest).trans inner)
  · exact LeavesBy.none

theorem extraQuotes_suffix (quote : Char) (found rest : List Char) :
    (extraQuotes quote found rest).2 <:+ rest := List.drop_suffix _ rest

theorem literalLines?_leaves (s : List Char) : LeavesEnd s (literalLines? s) := by
  apply LeavesBy.bindOf
  rintro ⟨inside, rest⟩ found
  dsimp only
  split
  · exact LeavesBy.bindOf nofun
  · have ends : rest <:+ s := ⟨inside ++ _, (Text.splitAtMark?_eq_some found).symm⟩
    exact LeavesBy.some ((extraQuotes_suffix singleQuote inside rest).trans ends)

theorem dropFirstBreak_suffix (s : List Char) : dropFirstBreak s <:+ s := by
  unfold dropFirstBreak
  split
  · exact List.drop_suffix 1 s
  · exact List.suffix_refl s

theorem string?_leaves (s : List Char) : LeavesEnd s (string? s) := by
  unfold string?
  split
  next rest opened =>
    apply LeavesBy.mono ((dropFirstBreak_suffix rest).trans (dropThree?_suffix opened))
    apply (basic?_leaves true _ _).bind
    exact fun found after => LeavesBy.some (extraQuotes_suffix '"' found after)
  next rest _ opened =>
    apply LeavesBy.mono ((dropFirstBreak_suffix rest).trans (dropThree?_suffix opened))
    exact literalLines?_leaves _
  next c rest _ _ =>
    apply LeavesBy.mono (List.suffix_cons c rest)
    split
    · exact basic?_leaves false _ rest
    · split
      · exact literal?_leaves rest
      · exact LeavesBy.none
  · exact LeavesBy.none

theorem keyPart?_leaves (s : List Char) : LeavesEnd s (keyPart? s) := by
  unfold keyPart?
  split
  · exact LeavesBy.none
  next c rest =>
    split
    · exact LeavesBy.some (span_suffix isBareKeyChar (c :: rest))
    · apply LeavesBy.mono (List.suffix_cons c rest)
      have named (after : List Char) (name : List Char) :
          LeavesEnd after (some (String.ofList name, after)) := LeavesBy.some (List.suffix_refl after)
      split
      · exact (basic?_leaves false _ rest).bind fun name after => named after name
      · split
        · exact (literal?_leaves rest).bind fun name after => named after name
        · exact LeavesBy.none.bind fun name after => named after name

theorem key?_leaves (fuel : Nat) (s : List Char) : LeavesEnd s (key? fuel s) := by
  induction fuel generalizing s with
  | zero => exact LeavesBy.none
  | succ fuel ih =>
    unfold key?
    apply (keyPart?_leaves s).bind
    intro part rest
    apply LeavesBy.mono (skipSpace_suffix rest)
    dsimp only
    split
    next after same =>
      rw [same]
      apply LeavesBy.mono ((skipSpace_suffix after).trans (List.suffix_cons '.' after))
      apply (ih _).bind
      exact fun parts last => LeavesBy.some (List.suffix_refl last)
    · exact LeavesBy.some (List.suffix_refl _)

/-! ## Numbers -/

/-- Digits are taken with the underscores between them. -/
theorem takeGrouped_spec {p : Char → Bool} (mark : p '_' = false) (s : List Char) :
    ∃ run, s = run ++ (takeGrouped p s).2 ∧ (∀ c ∈ run, p c = true ∨ c = '_') ∧
      run.countP p = (takeGrouped p s).1.length := by
  induction s using takeGrouped.induct p with
  | case1 => exact ⟨[], rfl, by simp, rfl⟩
  | case2 c isDigit d rest next digits after taken ih =>
    obtain ⟨run, whole, marked, count⟩ := ih
    refine ⟨c :: '_' :: run, ?_, ?_, ?_⟩
    · simpa [takeGrouped, isDigit, next] using whole
    · simpa [isDigit] using marked
    · simpa [takeGrouped, isDigit, next, mark] using count
  | case3 c isDigit d rest next => exact ⟨[c], by simp [takeGrouped, isDigit, next]⟩
  | case4 c isDigit s unmarked digits after taken ih =>
    obtain ⟨run, whole, marked, count⟩ := ih
    have step : takeGrouped p (c :: s) = (c :: (takeGrouped p s).1, (takeGrouped p s).2) := by
      rw [takeGrouped.eq_def]
      simp only [isDigit, if_true]
    refine ⟨c :: run, ?_, ?_, ?_⟩
    · rw [step, List.cons_append, ← whole]
    · simpa [isDigit] using marked
    · simp [step, isDigit, count]
  | case5 c rest other =>
    have step : takeGrouped p (c :: rest) = ([], c :: rest) := by
      rw [takeGrouped.eq_def]
      simp [other]
    exact ⟨[], by simp [step]⟩

theorem takeGrouped_suffix {p : Char → Bool} (mark : p '_' = false) (s : List Char) :
    (takeGrouped p s).2 <:+ s := by
  obtain ⟨run, whole, -⟩ := takeGrouped_spec mark s
  exact ⟨run, whole.symm⟩

theorem digitsOf_underscore (base : Nat) : digitsOf base '_' = false := rfl

theorem withBase?_leaves (base : Nat) (s : List Char) : LeavesEnd s (withBase? base s) := by
  have ends := takeGrouped_suffix (digitsOf_underscore base) s
  unfold withBase?
  split
  · exact LeavesBy.none
  next taken =>
    rw [taken] at ends
    exact LeavesBy.some ends

theorem based?_leaves (s : List Char) : LeavesEnd s (based? s) := by
  unfold based?
  split
  next rest => exact (withBase?_leaves 16 rest).mono ⟨['0', 'x'], rfl⟩
  next rest => exact (withBase?_leaves 8 rest).mono ⟨['0', 'o'], rfl⟩
  next rest => exact (withBase?_leaves 2 rest).mono ⟨['0', 'b'], rfl⟩
  · exact LeavesBy.none

theorem fraction_suffix (s : List Char) : (fraction s).2 <:+ s := by
  unfold fraction
  split
  next rest =>
    split
    · exact List.suffix_refl _
    · exact (takeGrouped_suffix rfl rest).trans (List.suffix_cons '.' rest)
  · exact List.suffix_refl s

theorem power?_leaves (s : List Char) : LeavesEnd s (power? s) := by
  unfold power?
  split
  next c rest =>
    split
    · have ends := takeGrouped_suffix (p := Text.isAsciiDigit) rfl (StaticSite.Number.takeSign rest).2
      dsimp only
      split
      · exact LeavesBy.none
      next taken =>
        rw [taken] at ends
        exact LeavesBy.some
          ((ends.trans (Json.takeSign_suffix rest)).trans (List.suffix_cons c rest))
    · exact LeavesBy.none
  · exact LeavesBy.none

theorem withBase?_ne_decimal {base : Nat} {s rest : List Char} {negative : Bool}
    {digits : List Char} : withBase? base s ≠ some (.decimal negative digits, rest) := by
  intro found
  unfold withBase? at found
  split at found <;> cases found

theorem based?_ne_decimal {s rest : List Char} {negative : Bool} {digits : List Char} :
    based? s ≠ some (.decimal negative digits, rest) := by
  unfold based?
  split
  · exact withBase?_ne_decimal
  · exact withBase?_ne_decimal
  · exact withBase?_ne_decimal
  · exact nofun

theorem wholePart_spec (s : List Char) :
    ∃ run, s = run ++ (wholePart s).2 ∧ (∀ c ∈ run, Text.isAsciiDigit c = true ∨ c = '_') ∧
      run.countP Text.isAsciiDigit = (wholePart s).1.length := by
  unfold wholePart
  split
  next rest => exact ⟨['0'], rfl, by decide, rfl⟩
  · exact takeGrouped_spec rfl s

/-- A number leaves the end of its text, and the digits of an integer to base ten stand in it. -/
theorem number?_spec {s rest : List Char} {number : Number} (found : number? s = some (number, rest)) :
    rest <:+ s ∧ ∀ negative digits, number = .decimal negative digits →
      HoldsDigits ['_'] digits.length s := by
  unfold number? at found
  split at found
  next other based =>
    cases found
    refine ⟨based?_leaves s number rest based, fun negative digits isDecimal => ?_⟩
    rw [isDecimal] at based
    exact absurd based based?_ne_decimal
  · obtain ⟨run, parts, marked, count⟩ := wholePart_spec (StaticSite.Number.takeSign s).2
    have signed := Json.takeSign_suffix s
    have inside : run <:+: s := .trans ⟨[], _, parts.symm⟩ signed.isInfix
    have after := ((fraction_suffix _).trans ⟨run, parts.symm⟩).trans signed
    dsimp only at found
    split at found
    · cases found
    · split at found
      · cases found
        refine ⟨after, fun negative digits isDecimal => ⟨run, inside, by simpa using marked, ?_⟩⟩
        cases isDecimal
        exact count
      · cases found
        refine ⟨?_, nofun⟩
        cases power : power? (fraction (wholePart (StaticSite.Number.takeSign s).2).2).2 with
        | none => exact after
        | some taken => exact (power?_leaves _ taken.1 taken.2 power).trans after

theorem namedFloat?_leaves (s : List Char) : LeavesEnd s (namedFloat? s) :=
  leavesEnd_findSome? namedFloats s

/-! ## Dates -/

theorem digits?_leaves (count : Nat) (s : List Char) : LeavesEnd s (digits? count s) := by
  unfold digits?
  dsimp only
  split
  · exact LeavesBy.some (List.drop_suffix count s)
  · exact LeavesBy.none

theorem dropChar?_suffix {c : Char} {s rest : List Char} (found : dropChar? c s = some rest) :
    rest <:+ s := ⟨[c], (Text.dropMark?_eq_some.mp found).symm⟩

theorem time?_leaves (s : List Char) : LeavesEnd s (time? s) := by
  apply (digits?_leaves 2 s).bind
  intro hour s
  apply LeavesBy.bindRest fun rest => dropChar?_suffix
  intro s
  apply (digits?_leaves 2 s).bind
  intro minute s
  apply LeavesBy.bindRest fun rest => dropChar?_suffix
  intro s
  apply (digits?_leaves 2 s).bind
  intro second s
  dsimp only
  split
  · exact LeavesBy.bindOf nofun
  · split
    next rest =>
      split
      · exact LeavesBy.some (List.suffix_refl _)
      · exact LeavesBy.some ((List.drop_suffix _ rest).trans (List.suffix_cons '.' rest))
    · exact LeavesBy.some (List.suffix_refl s)

theorem offset?_leaves (s : List Char) : LeavesEnd s (offset? s) := by
  unfold offset?
  split
  next rest => exact LeavesBy.some (List.suffix_cons 'Z' rest)
  next rest => exact LeavesBy.some (List.suffix_cons 'z' rest)
  next sign rest _ _ =>
    apply LeavesBy.mono (List.suffix_cons sign rest)
    split
    · apply (digits?_leaves 2 rest).bind
      intro hour s
      apply LeavesBy.bindRest fun rest => dropChar?_suffix
      intro s
      apply (digits?_leaves 2 s).bind
      intro minute s
      dsimp only
      split
      · exact LeavesBy.bindOf nofun
      · exact LeavesBy.some (List.suffix_refl s)
    · exact LeavesBy.none
  · exact LeavesBy.none

theorem offset_suffix (s : List Char) : (offset s).2 <:+ s := by
  unfold offset
  split
  next seconds rest given => exact offset?_leaves s seconds rest given
  · exact List.suffix_refl s

theorem date?_leaves (s : List Char) : LeavesEnd s (date? s) := by
  apply (digits?_leaves 4 s).bind
  intro year s
  apply LeavesBy.bindRest fun rest => dropChar?_suffix
  intro s
  apply (digits?_leaves 2 s).bind
  intro month s
  apply LeavesBy.bindRest fun rest => dropChar?_suffix
  intro s
  apply (digits?_leaves 2 s).bind
  intro day s
  dsimp only
  split
  · exact LeavesBy.bindOf nofun
  · split
    next c rest =>
      split
      · split
        next time after timed =>
          have ends : after <:+ c :: rest :=
            (time?_leaves rest time after timed).trans (List.suffix_cons c rest)
          exact LeavesBy.some ((offset_suffix after).trans ends)
        · exact LeavesBy.some (List.suffix_refl _)
      · exact LeavesBy.some (List.suffix_refl _)
    · exact LeavesBy.some (List.suffix_refl _)

/-! ## Values -/

/-- A TOML text can hold an integer that is too long; nothing else is wrong but its form. -/
def regime : Regime (List Char) Fault where
  ends rest s := rest <:+ s
  fails s fault := fault = .malformedToml ∨ ∃ count, fault = .json (.digitLimit count) ∧
    StaticSite.Number.digitLimit < count ∧ HoldsDigits ['_'] count s
  refl := List.suffix_refl
  trans := List.IsSuffix.trans
  inherits := by
    rintro rest s fault ends (form | ⟨count, isCount, tooLong, holds⟩)
    · exact .inl form
    · exact .inr ⟨count, isCount, tooLong, holds.mono ends.isInfix⟩

theorem admits_malformed (s : List Char) :
    regime.Admits s (.error .malformedToml : Except Fault (α × List Char)) := .inl rfl

theorem admits_ok {s rest : List Char} {value : α} (ends : rest <:+ s) :
    regime.Admits s (.ok (value, rest) : Except Fault (α × List Char)) := ends

theorem admits_orMalformed {s : List Char} {found : Option (α × List Char)}
    (leaves : LeavesEnd s found) : regime.Admits s (orMalformed found) := by
  cases found with
  | none => exact admits_malformed s
  | some taken => exact leaves taken.1 taken.2 rfl

theorem fails_of_orMalformed (s : List Char) {found : Option α} {fault : Fault}
    (refused : orMalformed found = .error fault) : regime.fails s fault := by
  cases found with
  | none =>
    cases refused
    exact .inl rfl
  | some value => cases refused

theorem eq_some_of_orMalformed {found : Option α} {value : α}
    (done : orMalformed found = .ok value) : found = some value := by
  cases found with
  | none => cases done
  | some other => rw [Except.ok.inj done]

theorem admits_between {fuel : Nat} {s : List Char} {next : List Char → Except Fault (α × List Char)}
    (onward : ∀ rest, regime.Admits rest (next rest)) :
    regime.Admits s (orMalformed (skipBetween? fuel s) >>= next) := by
  apply Regime.Admits.bindRest
  · exact fun fault => fails_of_orMalformed s
  · exact fun rest done => skipBetween?_suffix (eq_some_of_orMalformed done)
  · exact fun rest _ => onward rest

theorem scalar_admits (s : List Char) : regime.Admits s (scalar s) := by
  unfold scalar
  split
  next found constant =>
    obtain ⟨⟨name, value⟩, -, taken⟩ := List.exists_of_findSome?_eq_some constant
    obtain ⟨after, dropped, rfl⟩ := Option.map_eq_some_iff.mp taken
    exact admits_ok ⟨name.toList, (Text.dropMark?_eq_some.mp dropped).symm⟩
  · split
    next date time rest dated =>
      unfold dateValue
      split
      · have ends := date?_leaves s (date, time) rest dated
        split <;> exact admits_ok ends
      · exact admits_malformed s
    next time rest _ timed => exact admits_ok (time?_leaves s time rest timed)
    next number rest _ _ found =>
      obtain ⟨ends, digits⟩ := number?_spec found
      unfold numberValue
      split
      next negative run =>
        split
        next tooLong => exact .inr ⟨run.length, rfl, tooLong, digits negative run rfl⟩
        · exact admits_ok ends
      · exact admits_ok ends
      · exact admits_ok ends
    next x rest _ _ _ named => exact admits_ok (namedFloat?_leaves s x rest named)
    · exact admits_malformed s

mutual

theorem readValue_admits : (fuel : Nat) → (s : List Char) → regime.Admits s (readValue fuel s)
  | 0, s => admits_malformed s
  | fuel + 1, s => by
    unfold readValue
    split
    · exact admits_malformed _
    next c rest =>
      have inner := List.suffix_cons c rest
      split
      · exact (admits_orMalformed (string?_leaves (c :: rest))).bindOk
      · split
        · apply Regime.Admits.mono inner
          apply admits_between
          intro rest
          exact (readItems_admits fuel rest).bindOk
        · split
          · apply Regime.Admits.mono ((skipSpace_suffix rest).trans inner)
            split
            next after same =>
              rw [same]
              exact admits_ok (List.suffix_cons '\x7d' after)
            · exact (readMembers_admits fuel [] _).bindOk
          · exact (scalar_admits (c :: rest)).bindOk

theorem readItems_admits : (fuel : Nat) → (s : List Char) → regime.Admits s (readItems fuel s)
  | 0, s => admits_malformed s
  | fuel + 1, s => by
    unfold readItems
    split
    next rest => exact admits_ok (List.suffix_cons ']' rest)
    · apply (readValue_admits fuel s).bind
      intro item rest _
      apply admits_between
      intro rest
      split
      next after => exact admits_ok (List.suffix_cons ']' after)
      next after =>
        apply Regime.Admits.mono (List.suffix_cons ',' after)
        apply admits_between
        intro rest
        exact (readItems_admits fuel rest).bindOk
      · exact admits_malformed _

theorem readPair_admits : (fuel : Nat) → (s : List Char) → regime.Admits s (readPair fuel s)
  | 0, s => admits_malformed s
  | fuel + 1, s => by
    unfold readPair
    apply (admits_orMalformed (key?_leaves _ s)).bind
    intro key rest _
    dsimp only
    split
    next after _ =>
      apply Regime.Admits.mono ((skipSpace_suffix after).trans (List.suffix_cons '=' after))
      exact (readValue_admits fuel _).bindOk
    · exact admits_malformed _

theorem readMembers_admits : (fuel : Nat) → (entries : Entries) → (s : List Char) →
    regime.Admits s (readMembers fuel entries s)
  | 0, _, s => admits_malformed s
  | fuel + 1, entries, s => by
    unfold readMembers
    apply (readPair_admits fuel s).bind
    intro pair rest _
    apply Regime.Admits.bindOf fun fault => fails_of_orMalformed rest
    intro entries _
    apply Regime.Admits.mono (skipSpace_suffix rest)
    split
    next after same =>
      rw [same]
      exact admits_ok (List.suffix_cons '\x7d' after)
    next after same =>
      rw [same]
      apply Regime.Admits.mono ((skipSpace_suffix after).trans (List.suffix_cons ',' after))
      exact readMembers_admits fuel entries _
    · exact admits_malformed _

end

/-! ## Statements -/

theorem openHeader?_leaves (state : State) (array : Bool) (s : List Char) :
    LeavesEnd s (state.openHeader? array s) := by
  apply LeavesBy.mono (skipSpace_suffix s)
  apply (key?_leaves (s.length + 1) (skipSpace s)).bind
  intro key rest
  have closed {entries : Entries} (close : List Char) : LeavesEnd rest (do
      let rest ← Text.dropMark? close rest
      some (({ entries, header := key, dotted := [] } : State), rest)) := by
    apply LeavesBy.bindRest
    · exact fun after dropped => ⟨close, (Text.dropMark?_eq_some.mp dropped).symm⟩
    · exact fun after => LeavesBy.some (List.suffix_refl after)
  dsimp only
  split
  · exact LeavesBy.bindOf fun entries _ => closed [']', ']']
  · exact LeavesBy.bindOf fun entries _ => closed [']']

theorem statement_admits (state : State) (c : Char) (rest : List Char) :
    regime.Admits (c :: rest) (state.statement c rest) := by
  unfold State.statement
  have inner := List.suffix_cons c rest
  split
  · apply (readPair_admits _ (c :: rest)).bind
    intro pair after _
    apply Regime.Admits.bindOf fun fault => fails_of_orMalformed after
    exact fun state _ => admits_ok (List.suffix_refl after)
  · split
    · split
      next inside =>
        apply Regime.Admits.mono ((List.suffix_cons '[' inside).trans inner)
        exact admits_orMalformed (openHeader?_leaves state true inside)
      · exact (admits_orMalformed (openHeader?_leaves state false rest)).mono inner
    · split
      · exact admits_ok (List.suffix_refl _)
      · exact admits_malformed _

/-- A document that cannot be read is malformed, or it holds an integer with too many digits. -/
theorem run_fails {fuel : Nat} {state : State} {s : List Char} {fault : Fault}
    (refused : run fuel state s = .error fault) : regime.fails s fault := by
  induction fuel generalizing state s with
  | zero => cases refused
  | succ fuel ih =>
    unfold run at refused
    apply regime.inherits (skipSpace_suffix s)
    split at refused
    · cases refused
    next rest same =>
      rw [same]
      exact regime.inherits (List.suffix_cons '\n' rest) (ih refused)
    next c rest _ same =>
      rw [same]
      have admits := statement_admits state c rest
      rcases error_of_bind_eq_error refused with stated | ⟨⟨state, after⟩, stated, onward⟩
      · rw [stated] at admits
        exact admits
      · rw [stated] at admits
        apply regime.inherits ((skipSpace_suffix after).trans admits)
        rcases error_of_bind_eq_error onward with comment | ⟨left, comment, later⟩
        · exact fails_of_orMalformed _ comment
        · apply regime.inherits (skipComment?_suffix (eq_some_of_orMalformed comment))
          split at later
          · cases later
          next rest => exact regime.inherits (List.suffix_cons '\n' rest) (ih later)
          · cases later
            exact .inl rfl

/-- The digits of an integer that is too long stand in the text as it was before its line ends. -/
theorem read_fails {heap : Heap} {text : String} {fault : Fault}
    (refused : read heap text = .error fault) : regime.fails text.toList fault := by
  rcases error_of_bind_eq_error refused with ran | ⟨state, -, made⟩
  · rcases run_fails ran with form | ⟨count, isCount, tooLong, run, inside, marked, counted⟩
    · exact .inl form
    · have lacking : '\n' ∉ run := fun member => by simpa [Text.isAsciiDigit] using marked '\n' member
      exact .inr ⟨count, isCount, tooLong, run,
        Text.infix_of_infix_replace (by simp) lacking inside, marked, counted⟩
  · cases made

end StaticSite.Toml
