import StaticSite.Proofs.Remainders
import StaticSite.Yaml.Lexeme

/-!
# Ends of a YAML text

Whatever is read at a place in a text, an end of the text is left.
-/

namespace StaticSite.Yaml

namespace Cursor

variable {cursor after : Cursor}

/-- A place stands in what another place has before it. -/
def IsPast (after cursor : Cursor) : Prop := after.rest <:+ cursor.rest

theorem IsPast.refl (cursor : Cursor) : cursor.IsPast cursor := List.suffix_refl cursor.rest

theorem IsPast.trans {a b c : Cursor} (first : a.IsPast b) (second : b.IsPast c) : a.IsPast c :=
  List.IsSuffix.trans first second

instance : IsTrans Cursor IsPast := ⟨fun _ _ _ => IsPast.trans⟩

theorem rest_next {c : Char} {rest : List Char} (same : cursor.rest = c :: rest) :
    cursor.next.rest = rest := by
  unfold next
  rw [same]
  dsimp only
  split
  · rfl
  · split <;> rfl

theorem next_isPast (cursor : Cursor) : cursor.next.IsPast cursor := by
  cases same : cursor.rest with
  | nil =>
    have stays : cursor.next = cursor := by
      unfold next
      rw [same]
    rw [stays]
    exact .refl cursor
  | cons c rest =>
    unfold IsPast
    rw [rest_next same, same]
    exact List.suffix_cons c rest

theorem skip_isPast (n : Nat) (cursor : Cursor) : (cursor.skip n).IsPast cursor := by
  induction n generalizing cursor with
  | zero => exact .refl cursor
  | succ n ih => exact (ih cursor.next).trans (next_isPast cursor)

theorem takeWhile_isPast (p : Char → Bool) (cursor : Cursor) :
    (cursor.takeWhile p).2.IsPast cursor := skip_isPast _ cursor

theorem isPast_of_takeWhile {p : Char → Bool} {found : List Char}
    (taken : cursor.takeWhile p = (found, after)) : after.IsPast cursor := by
  have ends := takeWhile_isPast p cursor
  rwa [taken] at ends

theorem dropWhile_isPast (p : Char → Bool) (cursor : Cursor) :
    (cursor.dropWhile p).IsPast cursor := takeWhile_isPast p cursor

theorem lineBreak_isPast (cursor : Cursor) : cursor.lineBreak.2.IsPast cursor := by
  unfold lineBreak
  split
  · exact skip_isPast 2 cursor
  · split
    · exact next_isPast cursor
    · exact .refl cursor
  · exact .refl cursor

theorem isPast_of_lineBreak {found : List Char} (ended : cursor.lineBreak = (found, after)) :
    after.IsPast cursor := by
  have ends := lineBreak_isPast cursor
  rwa [ended] at ends

/-- A comment is passed over, if there is one. -/
theorem dropComment_isPast (cursor : Cursor) :
    (if cursor.peek? = some '#' then cursor.dropWhile (!isBreak ·) else cursor).IsPast cursor := by
  split
  · exact dropWhile_isPast _ cursor
  · exact .refl cursor

theorem isPast_of_endOfLine? (ended : cursor.endOfLine? = some after) : after.IsPast cursor := by
  unfold endOfLine? at ended
  obtain ⟨-, same⟩ := Option.ite_none_right_eq_some.mp ended
  cases same
  apply (lineBreak_isPast _).trans
  exact (dropComment_isPast _).trans (dropWhile_isPast _ cursor)

end Cursor

open Cursor

variable {cursor after : Cursor}

/-! ## Names, tags and directives -/

theorem name?_leaves (cursor : Cursor) : LeavesBy IsPast cursor (name? cursor) := by
  unfold name?
  split
  · exact LeavesBy.none
  · exact LeavesBy.some (takeWhile_isPast _ cursor)

theorem anchorName?_leaves (cursor : Cursor) : LeavesBy IsPast cursor (anchorName? cursor) := by
  apply LeavesBy.mono (next_isPast cursor)
  apply (name?_leaves cursor.next).bind
  intro name after
  dsimp only
  split
  · exact LeavesBy.some (.refl after)
  · exact LeavesBy.none

theorem uriBytes_leaves (fuel : Nat) (cursor : Cursor) :
    LeavesBy IsPast cursor (uriBytes fuel cursor) := by
  induction fuel generalizing cursor with
  | zero => exact LeavesBy.some (.refl cursor)
  | succ fuel ih =>
    unfold uriBytes
    split
    · apply LeavesBy.bindOf
      intro high _
      apply LeavesBy.bindOf
      intro low _
      apply LeavesBy.mono (skip_isPast 3 cursor)
      apply (ih _).bind
      exact fun bytes after => LeavesBy.some (.refl after)
    · exact LeavesBy.none
    · exact LeavesBy.some (.refl cursor)

theorem uriChars_leaves (fuel : Nat) (cursor : Cursor) :
    LeavesBy IsPast cursor (uriChars fuel cursor) := by
  induction fuel generalizing cursor with
  | zero => exact LeavesBy.some (.refl cursor)
  | succ fuel ih =>
    unfold uriChars
    split
    next after taken =>
      apply LeavesBy.mono (isPast_of_takeWhile taken)
      split
      · apply (uriBytes_leaves _ after).bind
        intro bytes last
        apply LeavesBy.bindOf
        intro text _
        apply (ih last).bind
        exact fun more last => LeavesBy.some (.refl last)
      · exact LeavesBy.some (.refl after)
    next after _ taken =>
      apply LeavesBy.mono (isPast_of_takeWhile taken)
      apply (ih after).bind
      exact fun more last => LeavesBy.some (.refl last)

theorem uri?_leaves (cursor : Cursor) : LeavesBy IsPast cursor (uri? cursor) := by
  apply (uriChars_leaves _ cursor).bind
  intro found after
  dsimp only
  split
  · exact LeavesBy.none
  · exact LeavesBy.some (.refl after)

theorem handle?_leaves (cursor : Cursor) : LeavesBy IsPast cursor (handle? cursor) := by
  unfold handle?
  split
  · exact LeavesBy.some (next_isPast cursor)
  · dsimp only
    split
    · apply LeavesBy.some
      exact (next_isPast _).trans ((takeWhile_isPast _ _).trans (next_isPast cursor))
    · exact LeavesBy.none
  · exact LeavesBy.none

theorem tagParts?_leaves (cursor : Cursor) : LeavesBy IsPast cursor (tagParts? cursor) := by
  have named {handle : Option String} (after : Cursor) : LeavesBy IsPast after
      (uri? after >>= fun found => some ((handle, found.1), found.2)) :=
    (uri?_leaves after).bind fun suffix last => LeavesBy.some (.refl last)
  unfold tagParts?
  dsimp only
  split
  · apply LeavesBy.mono ((next_isPast _).trans (next_isPast cursor))
    apply (uri?_leaves _).bind
    intro suffix after
    dsimp only
    split
    · exact LeavesBy.some (next_isPast after)
    · exact LeavesBy.none
  · split
    · exact LeavesBy.some (next_isPast cursor)
    · split
      · apply (handle?_leaves cursor).bind
        exact fun handle after => named after
      · exact (named _).mono (next_isPast cursor)

theorem tag?_leaves (cursor : Cursor) : LeavesBy IsPast cursor (tag? cursor) := by
  apply (tagParts?_leaves cursor).bind
  intro parts after
  dsimp only
  split
  · exact LeavesBy.some (.refl after)
  · exact LeavesBy.none

theorem tagHandle?_leaves (cursor : Cursor) : LeavesBy IsPast cursor (tagHandle? cursor) := by
  apply (handle?_leaves cursor).bind
  intro handle after
  dsimp only
  split
  · exact LeavesBy.none
  · apply LeavesBy.mono (dropWhile_isPast _ after)
    apply (uri?_leaves _).bind
    intro expansion last
    dsimp only
    split
    · exact LeavesBy.some (.refl last)
    · exact LeavesBy.none

theorem directiveName?_leaves (cursor : Cursor) :
    LeavesBy IsPast cursor (directiveName? cursor) := by
  apply (name?_leaves cursor).bind
  intro name after
  dsimp only
  split
  · exact LeavesBy.some (.refl after)
  · exact LeavesBy.none

/-! ## Scalars in quotes -/

theorem quotedBreaks_leaves (fuel : Nat) (cursor : Cursor) :
    LeavesBy IsPast cursor (quotedBreaks fuel cursor) := by
  induction fuel generalizing cursor with
  | zero => exact LeavesBy.some (.refl cursor)
  | succ fuel ih =>
    unfold quotedBreaks
    split
    · exact LeavesBy.none
    · apply LeavesBy.mono (dropWhile_isPast isGap cursor)
      dsimp only
      split
      · exact LeavesBy.some (.refl _)
      next after _ ended =>
        apply LeavesBy.mono (isPast_of_lineBreak ended)
        apply (ih after).bind
        exact fun more last => LeavesBy.some (.refl last)

theorem quotedSpaces?_leaves (cursor : Cursor) : LeavesBy IsPast cursor (quotedSpaces? cursor) := by
  apply LeavesBy.mono (takeWhile_isPast isGap cursor)
  unfold quotedSpaces?
  dsimp only
  split
  · exact LeavesBy.none
  · split
    · apply LeavesBy.mono (lineBreak_isPast _)
      apply (quotedBreaks_leaves _ _).bind
      exact fun breaks after => LeavesBy.some (.refl after)
    · exact LeavesBy.some (.refl _)

/-! ## Plain scalars -/

theorem plainBreaks_isPast (fuel : Nat) (cursor : Cursor) :
    (plainBreaks fuel cursor).2.IsPast cursor := by
  induction fuel generalizing cursor with
  | zero => exact .refl cursor
  | succ fuel ih =>
    unfold plainBreaks
    split
    · exact (ih cursor.next).trans (next_isPast cursor)
    · split
      · exact .refl cursor
      next after _ ended =>
        have ends := isPast_of_lineBreak ended
        split
        · exact ends
        · have more := (ih after).trans ends
          split
          next same => rwa [same] at more
          next same => rwa [same] at more

theorem plainGap_isPast (cursor : Cursor) : (plainGap cursor).cursor.IsPast cursor := by
  apply IsPast.trans _ (takeWhile_isPast (· = ' ') cursor)
  unfold plainGap
  dsimp only
  split
  · exact .refl _
  next after _ ended =>
    have ends := isPast_of_lineBreak ended
    split
    · exact ends
    · have more := (plainBreaks_isPast (after.rest.length + 1) after).trans ends
      split
      next same => rwa [same] at more
      next same => rwa [same] at more

theorem plain_isPast (flow : Bool) (indent : Int) (fuel : Nat) (gap : List Char) (lineEnded : Bool)
    (cursor : Cursor) : (plain flow indent fuel gap lineEnded cursor).2.2.IsPast cursor := by
  induction fuel generalizing gap lineEnded cursor with
  | zero => exact .refl cursor
  | succ fuel ih =>
    unfold plain
    split
    · exact .refl cursor
    · split
      · exact .refl cursor
      next found _ =>
        have ends := (plainGap_isPast (cursor.skip (plainStretch flow cursor.rest).length)).trans
          (skip_isPast _ cursor)
        dsimp only
        split
        · exact (ih _ _ _).trans ends
        · exact ends

/-! ## Block scalars -/

theorem blockHeader?_leaves (cursor : Cursor) : LeavesBy IsPast cursor (blockHeader? cursor) := by
  unfold blockHeader?
  split
  next chomp increment start same =>
    have ends : start.IsPast cursor := by
      split at same
      · split at same <;> cases same
        · exact skip_isPast 2 cursor
        · exact next_isPast cursor
      · split at same <;> cases same
        · exact skip_isPast 2 cursor
        · exact next_isPast cursor
      · cases same
        exact .refl cursor
    apply LeavesBy.mono ends
    split
    · exact LeavesBy.none
    · apply LeavesBy.bindRest fun _ => isPast_of_endOfLine?
      exact fun after => LeavesBy.some (.refl after)

theorem leadingBreaks_isPast (fuel widest : Nat) (cursor : Cursor) :
    (leadingBreaks fuel widest cursor).2.2.IsPast cursor := by
  induction fuel generalizing widest cursor with
  | zero => exact .refl cursor
  | succ fuel ih =>
    unfold leadingBreaks
    split
    · exact (ih _ cursor.next).trans (next_isPast cursor)
    · split
      · exact .refl cursor
      next after _ ended => exact (ih widest after).trans (isPast_of_lineBreak ended)

theorem skipIndent_isPast (indent fuel : Nat) (cursor : Cursor) :
    (skipIndent indent fuel cursor).IsPast cursor := by
  induction fuel generalizing cursor with
  | zero => exact .refl cursor
  | succ fuel ih =>
    unfold skipIndent
    split
    · exact (ih cursor.next).trans (next_isPast cursor)
    · exact .refl cursor

theorem blockBreaks_isPast (indent fuel : Nat) (cursor : Cursor) :
    (blockBreaks indent fuel cursor).2.IsPast cursor := by
  induction fuel generalizing cursor with
  | zero => exact .refl cursor
  | succ fuel ih =>
    apply IsPast.trans _ (skipIndent_isPast indent cursor.rest.length cursor)
    unfold blockBreaks
    dsimp only
    split
    · exact .refl _
    next after _ ended => exact (ih after).trans (isPast_of_lineBreak ended)

theorem blockLines_isPast (folded : Bool) (indent fuel : Nat) (breaks : List Char)
    (cursor : Cursor) : (blockLines folded indent fuel breaks cursor).2.2.2.IsPast cursor := by
  induction fuel generalizing breaks cursor with
  | zero => exact .refl cursor
  | succ fuel ih =>
    unfold blockLines
    split
    · exact .refl cursor
    · have line := (lineBreak_isPast _).trans (takeWhile_isPast (!isBreak ·) cursor)
      have ends := (blockBreaks_isPast indent
        (cursor.takeWhile (!isBreak ·)).2.lineBreak.2.rest.length _).trans line
      dsimp only
      split
      · exact (ih _ _).trans ends
      · exact ends

theorem blockScalar?_leaves (folded : Bool) (outer : Int) (cursor : Cursor) :
    LeavesBy IsPast cursor (blockScalar? folded outer cursor) := by
  apply LeavesBy.mono (next_isPast cursor)
  apply (blockHeader?_leaves cursor.next).bind
  rintro ⟨chomp, increment⟩ after
  cases increment with
  | none =>
    dsimp only
    apply LeavesBy.some
    exact (blockLines_isPast folded _ _ _ _).trans (leadingBreaks_isPast _ _ after)
  | some n =>
    dsimp only
    apply LeavesBy.some
    exact (blockLines_isPast folded _ _ _ _).trans (blockBreaks_isPast _ _ after)

end StaticSite.Yaml
