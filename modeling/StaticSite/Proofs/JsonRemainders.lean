import StaticSite.Proofs.JsonText
import StaticSite.Proofs.Remainders
import StaticSite.Proofs.Replacement

/-!
# What JSON is refused for

A text that is no JSON is malformed, or it holds an integer with too many digits.
-/

namespace StaticSite

/-- A name of a table is taken off the front. -/
theorem leavesEnd_findSome? {α : Type} (table : List (String × α)) (s : List Char) :
    LeavesEnd s (table.findSome? fun (name, value) =>
      (Text.dropMark? name.toList s).map (value, ·)) := by
  intro value rest found
  obtain ⟨⟨name, held⟩, -, taken⟩ := List.exists_of_findSome?_eq_some found
  obtain ⟨after, dropped, same⟩ := Option.map_eq_some_iff.mp taken
  cases same
  exact ⟨name.toList, (Text.dropMark?_eq_some.mp dropped).symm⟩

end StaticSite

namespace StaticSite.Json

/-- A JSON text can hold an integer that is too long; nothing else is wrong but its form. -/
def regime : Regime (List Char) Failure where
  ends rest s := rest <:+ s
  fails s failure := ∀ count, failure.cause = .tooManyDigits count →
    Number.digitLimit < count ∧ HoldsDigits [] count s
  refl := List.suffix_refl
  trans := List.IsSuffix.trans
  inherits ends fails count isCount :=
    ⟨(fails count isCount).1, (fails count isCount).2.mono ends.isInfix⟩

variable {α : Type} {s rest : List Char}

theorem admits_ok {value : α} (ends : rest <:+ s) :
    regime.Admits s (.ok (value, rest) : Except Failure (α × List Char)) := ends

theorem admits_failAt {cause : Cause} (form : ∀ count, cause ≠ .tooManyDigits count)
    (noticed : List Char) :
    regime.Admits s (failAt cause noticed : Except Failure (α × List Char)) :=
  fun count isCount => absurd isCount (form count)

theorem skipSpace_suffix (s : List Char) : skipSpace s <:+ s := List.dropWhile_suffix _

theorem takeHex4?_leaves (s : List Char) : LeavesEnd s (takeHex4? s) := by
  intro n rest found
  unfold takeHex4? at found
  split at found
  next a b c d after =>
    simp only [Option.bind_eq_bind, Option.bind_eq_some_iff, Option.some.injEq,
      Prod.mk.injEq] at found
    obtain ⟨_, _, _, _, _, _, _, _, _, rfl⟩ := found
    exact ⟨[a, b, c, d], rfl⟩
  · cases found

theorem takeUnicodeEscape_admits (escape s : List Char) :
    regime.Admits s (takeUnicodeEscape escape s) := by
  unfold takeUnicodeEscape
  split
  · exact admits_failAt (by simp) _
  · exact admits_failAt (by simp) _
  next n after _ found =>
    have ends : after <:+ s := takeHex4?_leaves s n after found
    split
    next digits _ _ =>
      have inner : digits <:+ s := .trans ⟨['\\', 'u'], rfl⟩ ends
      split
      · exact admits_ok ends
      · split
        · exact admits_failAt (by simp) _
        next m afterPair foundPair =>
          split
          · exact admits_ok ((takeHex4?_leaves digits m afterPair foundPair).trans inner)
          · exact admits_ok ends
    · exact admits_ok ends
    · exact admits_ok ends

theorem takeString_admits (start : List Char) (fuel : Nat) (s : List Char) :
    regime.Admits s (takeString start fuel s) := by
  induction fuel generalizing s with
  | zero => exact admits_failAt (by simp) _
  | succ fuel ih =>
    have more (chars : List Char) {rest : List Char} (ends : rest <:+ s) :
        regime.Admits s (takeString start fuel rest >>= fun found =>
          .ok (chars ++ found.1, found.2)) := by
      apply Regime.Admits.mono ends
      exact (ih rest).bindOk
    cases s with
    | nil => exact admits_failAt (by simp) _
    | cons c s =>
      unfold takeString
      split
      · exact admits_ok (List.suffix_cons c s)
      · split
        · split
          · exact admits_failAt (by simp) _
          next e rest =>
            have inner : rest <:+ c :: e :: rest := ⟨[c, e], rfl⟩
            split
            · apply Regime.Admits.mono inner
              apply (takeUnicodeEscape_admits _ rest).bind
              intro char after _
              exact (ih after).bindOk
            · split
              · exact admits_failAt (by simp) _
              next char _ => exact more [char] inner
        · split
          · exact admits_failAt (by simp) _
          · exact more [c] (List.suffix_cons c s)

theorem append_of_takeAsciiDigits {s digits rest : List Char}
    (taken : takeAsciiDigits s = (digits, rest)) : digits ++ rest = s := by
  rw [takeAsciiDigits, List.span_eq_takeWhile_dropWhile, Prod.mk.injEq] at taken
  rw [← taken.1, ← taken.2]
  exact List.takeWhile_append_dropWhile

theorem append_of_takeWhole? {s whole rest : List Char}
    (taken : takeWhole? s = some (whole, rest)) : whole ++ rest = s := by
  unfold takeWhole? at taken
  split at taken
  · cases taken
    rfl
  · split at taken
    · cases taken
    · exact append_of_takeAsciiDigits (Option.some.inj taken)

theorem takePoint_suffix (s : List Char) : (takePoint s).2 <:+ s := by
  unfold takePoint
  split
  next s =>
    have inner : (takeAsciiDigits s).2 <:+ '.' :: s :=
      .trans ⟨(takeAsciiDigits s).1, append_of_takeAsciiDigits rfl⟩ (List.suffix_cons '.' s)
    split
    · exact List.suffix_refl _
    · exact inner
  · exact List.suffix_refl _

theorem takeSign_suffix (s : List Char) : (Number.takeSign s).2 <:+ s := by
  unfold Number.takeSign
  split
  · exact List.suffix_cons _ _
  · exact List.suffix_cons _ _
  · exact List.suffix_refl _

theorem takePower?_leaves (s : List Char) : LeavesEnd s (takePower? s) := by
  intro n rest found
  unfold takePower? at found
  split at found
  next c s =>
    split at found
    · dsimp only at found
      split at found
      · cases found
      next digits after _ taken =>
        cases found
        have ends : rest <:+ (Number.takeSign s).2 := ⟨digits, append_of_takeAsciiDigits taken⟩
        exact (ends.trans (takeSign_suffix s)).trans (List.suffix_cons c s)
    · cases found
  · cases found

theorem takeNumber_admits (s : List Char) : regime.Admits s (takeNumber s) := by
  unfold takeNumber
  split
  next negative body signed =>
    have ends : body <:+ s := by
      split at signed
      · cases signed
        exact List.suffix_cons _ _
      · cases signed
        exact List.suffix_refl _
    split
    · exact admits_failAt (by simp) _
    next whole rest taken =>
      have same := append_of_takeWhole? taken
      have after : (takePoint rest).2 <:+ s :=
        ((takePoint_suffix rest).trans ⟨whole, same⟩).trans ends
      split
      next fraction last pointed =>
        rw [pointed] at after
        split
        · split
          next tooLong =>
            intro count isCount
            cases isCount
            have digits := isAsciiDigit_of_takeWhole? taken
            have inside : whole <:+: s := .trans ⟨[], rest, same⟩ ends.isInfix
            exact ⟨tooLong, whole, inside, fun c member => .inl (digits c member),
              List.countP_eq_length.mpr digits⟩
          · exact admits_ok after
        · apply admits_ok
          cases power : takePower? last with
          | none => exact after
          | some found => exact (takePower?_leaves last found.1 found.2 power).trans after

theorem takeConstant?_leaves (s : List Char) : LeavesEnd s (takeConstant? s) :=
  leavesEnd_findSome? constants s

mutual

theorem takeValue_admits : (fuel : Nat) → (s : List Char) → regime.Admits s (takeValue fuel s)
  | 0, s => admits_failAt (by simp) s
  | fuel + 1, s => by
    unfold takeValue
    split
    next rest =>
      apply Regime.Admits.mono (List.suffix_cons '"' rest)
      exact (takeString_admits _ _ rest).bindOk
    next rest =>
      apply Regime.Admits.mono ((skipSpace_suffix rest).trans (List.suffix_cons '[' rest))
      split
      next after same =>
        rw [same]
        exact admits_ok (List.suffix_cons ']' after)
      · exact (takeItems_admits fuel _).bindOk
    next rest =>
      apply Regime.Admits.mono ((skipSpace_suffix rest).trans (List.suffix_cons '\x7b' rest))
      split
      next after same =>
        rw [same]
        exact admits_ok (List.suffix_cons '\x7d' after)
      · exact (takeMembers_admits fuel [] _).bindOk
    · split
      next found taken => exact admits_ok (takeConstant?_leaves s found.1 found.2 taken)
      · exact takeNumber_admits s

theorem takeItems_admits : (fuel : Nat) → (s : List Char) → regime.Admits s (takeItems fuel s)
  | 0, s => admits_failAt (by simp) s
  | fuel + 1, s => by
    unfold takeItems
    apply (takeValue_admits fuel s).bind
    intro item rest _
    apply Regime.Admits.mono (skipSpace_suffix rest)
    dsimp only
    split
    next after same =>
      rw [same]
      exact admits_ok (List.suffix_cons ']' after)
    next after same =>
      rw [same]
      apply Regime.Admits.mono ((skipSpace_suffix after).trans (List.suffix_cons ',' after))
      exact (takeItems_admits fuel _).bindOk
    · exact admits_failAt (by simp) _

theorem takeMembers_admits : (fuel : Nat) → (before : List (String × Json)) → (s : List Char) →
    regime.Admits s (takeMembers fuel before s)
  | 0, _, s => admits_failAt (by simp) s
  | fuel + 1, before, s => by
    unfold takeMembers
    split
    next rest =>
      apply Regime.Admits.mono (List.suffix_cons '"' rest)
      apply (takeString_admits _ _ rest).bind
      intro name after _
      apply Regime.Admits.mono (skipSpace_suffix after)
      dsimp only
      split
      next colon same =>
        rw [same]
        apply Regime.Admits.mono ((skipSpace_suffix colon).trans (List.suffix_cons ':' colon))
        apply (takeValue_admits fuel _).bind
        intro value last _
        apply Regime.Admits.mono (skipSpace_suffix last)
        dsimp only
        split
        next closed same =>
          rw [same]
          exact admits_ok (List.suffix_cons '\x7d' closed)
        next comma same =>
          rw [same]
          apply Regime.Admits.mono ((skipSpace_suffix comma).trans (List.suffix_cons ',' comma))
          exact takeMembers_admits fuel _ _
        · exact admits_failAt (by simp) _
      · exact admits_failAt (by simp) _
    · exact admits_failAt (by simp) _

end

theorem readChars_fails {s : List Char} {failure : Failure}
    (refused : readChars s = .error failure) : regime.fails s failure := by
  unfold readChars at refused
  split at refused
  · cases refused
    exact nofun
  · have admits := takeValue_admits (2 * s.length + 1) (skipSpace s)
    rcases error_of_bind_eq_error refused with taking | ⟨⟨value, rest⟩, -, ending⟩
    · exact regime.inherits (skipSpace_suffix s) (admits.within failure taking)
    · dsimp only at ending
      split at ending
      · cases ending
      · cases ending
        exact nofun

/-- JSON that is not read is none, or it holds an integer with too many digits. -/
theorem holdsDigits_of_read {document : String} {count : Nat}
    (refused : read document = .error (.digitLimit count)) :
    Number.digitLimit < count ∧ HoldsDigits [] count document.toList := by
  unfold read at refused
  cases same : readChars document.toList with
  | ok json =>
    rw [same] at refused
    cases refused
  | error failure =>
    rw [same] at refused
    apply readChars_fails same count
    simp only [Except.mapError, Failure.error, Except.error.injEq] at refused
    split at refused
    next other isCause => rw [isCause, Error.digitLimit.inj refused]
    · cases refused

end StaticSite.Json
