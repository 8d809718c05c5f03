import StaticSite.Proofs.YamlCursors
import StaticSite.Yaml.Layout

/-!
# Where YAML cannot be read on

A text of YAML is malformed, or it is read to its end, or to an escape of a code point that no
character has or a number of a version with too many digits. In the last two cases the last token
holds the fault, and what is at fault stands in the text.
-/

namespace StaticSite

namespace Yaml

/-- What the characters of a text can be refused for. -/
inductive IsTextFault (text : List Char) : Fault → Prop where
  | malformed : IsTextFault text .malformedYaml
  | codePoint {letter : Char} {written : List Char} {digits : List Nat} {fault : Fault}
      (held : '\\' :: letter :: written <:+: text)
      (counted : escapeLengths.lookup letter = some digits.length)
      (areDigits : written.mapM Text.hexValue? = some digits)
      (refused : charOfCode (Text.digitsValue 16 digits) = .error fault) : IsTextFault text fault
  | version {count : Nat} (tooLong : Number.digitLimit < count)
      (held : HoldsDigits [] count text) :
      IsTextFault text (.yamlValue (Json.digitLimitMessage count))

theorem IsTextFault.mono {part text : List Char} {fault : Fault} (inside : part <:+: text)
    (refused : IsTextFault part fault) : IsTextFault text fault := by
  cases refused with
  | malformed => exact .malformed
  | codePoint held counted areDigits refused =>
    exact .codePoint (held.trans inside) counted areDigits refused
  | version tooLong held => exact .version tooLong (held.mono inside)

variable {α : Type}

/-! ## Lexemes -/

/-- Readers of lexemes leave an end of the text. -/
def Cursor.regime : Regime Cursor Fault where
  ends := Cursor.IsPast
  fails cursor := IsTextFault cursor.rest
  refl := Cursor.IsPast.refl
  trans := Cursor.IsPast.trans
  inherits ends := IsTextFault.mono ends.isInfix

open Cursor

variable {cursor after : Cursor}

theorem Cursor.admits_ok {value : α} (ends : after.IsPast cursor) :
    Cursor.regime.Admits cursor (.ok (value, after) : Except Fault (α × Cursor)) := ends

theorem Cursor.admits_malformed :
    Cursor.regime.Admits cursor (.error .malformedYaml : Except Fault (α × Cursor)) :=
  IsTextFault.malformed

theorem eq_of_orMalformed_error {found : Option α} {fault : Fault}
    (refused : orMalformed found = .error fault) : fault = .malformedYaml := by
  cases found with
  | none => exact (Except.error.inj refused).symm
  | some value => cases refused

theorem eq_some_of_orMalformed {found : Option α} {value : α}
    (done : orMalformed found = .ok value) : found = some value := by
  cases found with
  | none => cases done
  | some other => rw [Except.ok.inj done]

theorem isTextFault_of_orMalformed {found : Option α} {fault : Fault} (text : List Char)
    (refused : orMalformed found = .error fault) : IsTextFault text fault :=
  eq_of_orMalformed_error refused ▸ .malformed

theorem Cursor.admits_orMalformed {found : Option (α × Cursor)}
    (leaves : LeavesBy IsPast cursor found) :
    Cursor.regime.Admits cursor (orMalformed found) := by
  cases same : found with
  | none => exact admits_malformed
  | some result => exact admits_ok (leaves result.1 result.2 same)

theorem number_admits (cursor : Cursor) : Cursor.regime.Admits cursor (number cursor) := by
  unfold number
  split
  · exact admits_malformed
  next digits after _ taken =>
    split
    next tooLong =>
      have same : cursor.rest.takeWhile Text.isAsciiDigit = digits := congrArg Prod.fst taken
      have areDigits : ∀ c ∈ digits, Text.isAsciiDigit c = true :=
        same ▸ List.all_eq_true.mp List.all_takeWhile
      have inside : digits <:+: cursor.rest := same ▸ (List.takeWhile_prefix _).isInfix
      apply IsTextFault.version tooLong
      exact ⟨digits, inside, fun c member => .inl (areDigits c member),
        List.countP_eq_length.mpr areDigits⟩
    · exact admits_ok (isPast_of_takeWhile taken)

theorem version_admits (cursor : Cursor) : Cursor.regime.Admits cursor (version cursor) := by
  apply (number_admits cursor).bind
  intro major after _
  dsimp only
  split
  · exact admits_malformed
  · apply Regime.Admits.mono (next_isPast after)
    apply (number_admits after.next).bind
    intro minor last _
    dsimp only
    split
    · exact admits_ok (.refl last)
    · exact admits_malformed

theorem directiveOf_admits (name : String) (cursor : Cursor) :
    Cursor.regime.Admits cursor (directiveOf name cursor) := by
  have ends := dropWhile_isPast (· = ' ') cursor
  unfold directiveOf
  split
  · exact (version_admits _).mono ends
  · split
    · exact (admits_orMalformed (tagHandle?_leaves _)).mono ends
    · exact admits_ok (dropWhile_isPast _ cursor)

theorem directive_admits (cursor : Cursor) : Cursor.regime.Admits cursor (directive cursor) := by
  apply Regime.Admits.mono (next_isPast cursor)
  apply (admits_orMalformed (directiveName?_leaves cursor.next)).bind
  intro name after _
  apply (directiveOf_admits name after).bind
  intro found last _
  apply Regime.Admits.bindRest
  · exact fun fault => isTextFault_of_orMalformed last.rest
  · exact fun rest ended => isPast_of_endOfLine? (eq_some_of_orMalformed ended)
  · exact fun rest _ => admits_ok (.refl rest)

/-- An escape by code point is refused together with its backslash and its letter. -/
theorem codePoint_admits {before : Cursor} {letter : Char} {length : Nat}
    (escaped : before.rest = '\\' :: letter :: cursor.rest)
    (counted : escapeLengths.lookup letter = some length) :
    Cursor.regime.Admits before (codePoint length cursor) := by
  have inner : cursor.IsPast before := ⟨['\\', letter], escaped.symm⟩
  unfold codePoint
  apply Regime.Admits.bindOf fun fault => isTextFault_of_orMalformed before.rest
  intro digits found
  dsimp only
  split
  · exact admits_malformed
  next full =>
    have isLength : digits.length = length := not_not.mp full
    apply Regime.Admits.bindOf
    · intro fault refused
      have held : '\\' :: letter :: cursor.rest.take length <:+: before.rest := by
        rw [escaped]
        exact ⟨[], cursor.rest.drop length, by simp⟩
      exact .codePoint held (isLength.symm ▸ counted) (eq_some_of_orMalformed found) refused
    · exact fun char _ => admits_ok ((skip_isPast length cursor).trans inner)

theorem escape_admits {before : Cursor} (escaped : before.rest = '\\' :: cursor.rest) :
    Cursor.regime.Admits before (escape cursor) := by
  have inner : cursor.IsPast before := ⟨['\\'], escaped.symm⟩
  unfold escape
  split
  · exact admits_malformed
  next c peeked =>
    obtain ⟨rest, isRest⟩ : ∃ rest, cursor.rest = c :: rest := List.head?_eq_some_iff.mp peeked
    split
    · exact admits_ok ((next_isPast cursor).trans inner)
    next counted =>
      apply codePoint_admits _ counted
      rw [escaped, isRest, rest_next isRest]
    · split
      · apply Regime.Admits.mono ((lineBreak_isPast cursor).trans inner)
        exact admits_orMalformed (quotedBreaks_leaves _ _)
      · exact admits_malformed

theorem quotedPiece_admits (double : Bool) (cursor : Cursor) :
    Cursor.regime.Admits cursor (quotedPiece double cursor) := by
  have ends := next_isPast cursor
  unfold quotedPiece
  split
  · exact admits_malformed
  next c rest isRest =>
    apply Regime.Admits.ite
    · apply Regime.Admits.ite (admits_ok ends)
      exact Regime.Admits.ite (admits_ok (skip_isPast 2 cursor)) (admits_ok ends)
    · apply Regime.Admits.ite (admits_ok ends)
      split
      next slash =>
        apply Regime.Admits.ite
        · apply Regime.Admits.map (f := some)
          apply escape_admits
          rw [isRest, rest_next isRest, slash]
        · exact admits_ok ends
      · apply Regime.Admits.ite
        · exact (admits_orMalformed (quotedSpaces?_leaves cursor)).map (f := some)
        · exact admits_ok (takeWhile_isPast _ cursor)

theorem quoted_admits (double : Bool) (fuel : Nat) (cursor : Cursor) :
    Cursor.regime.Admits cursor (quoted double fuel cursor) := by
  induction fuel generalizing cursor with
  | zero => exact admits_malformed
  | succ fuel ih =>
    apply (quotedPiece_admits double cursor).bind
    intro piece after _
    cases piece with
    | none => exact admits_ok (.refl after)
    | some found => exact (ih after).bindOk

/-! ## Tokens -/

/-- Whether a token stands for something that has been read. -/
def Token.isReadable : Token → Bool
  | .unreadable _ => false
  | _ => true

namespace Layout

variable {layout next : Layout} {token : Token}

/-- All that has been read so far has been read. -/
def IsClean (layout : Layout) : Prop := ∀ token ∈ layout.tokens.toList, token.isReadable = true

/-- One place in a text comes after another, and nothing in between cannot be read. -/
structure Leads (layout next : Layout) : Prop where
  ends : next.cursor.IsPast layout.cursor
  clean : layout.IsClean → next.IsClean

namespace Leads

theorem of_eq (cursor : next.cursor = layout.cursor) (tokens : next.tokens = layout.tokens) :
    layout.Leads next := by
  constructor
  · rw [cursor]
    exact .refl _
  · intro clean
    rw [IsClean, tokens]
    exact clean

theorem refl (layout : Layout) : layout.Leads layout := of_eq rfl rfl

theorem trans {last : Layout} (first : layout.Leads next) (second : next.Leads last) :
    layout.Leads last :=
  ⟨second.ends.trans first.ends, fun clean => second.clean (first.clean clean)⟩

/-- A token is put behind the others at a later place. -/
theorem emitAt (ends : next.cursor.IsPast layout.cursor) (tokens : next.tokens = layout.tokens)
    (readable : token.isReadable = true) : layout.Leads (next.emit token) := by
  refine ⟨ends, fun clean other member => ?_⟩
  rw [Layout.emit, Array.toList_push, tokens, List.mem_append, List.mem_singleton] at member
  rcases member with old | rfl
  · exact clean other old
  · exact readable

theorem emit (readable : token.isReadable = true) : layout.Leads (layout.emit token) :=
  emitAt (.refl _) rfl readable

theorem skip (count : Nat) : layout.Leads (layout.skip count) :=
  ⟨skip_isPast count layout.cursor, id⟩

end Leads

/-- A step leads on if it can be taken. -/
def LeadsOn (layout : Layout) (step : Option Layout) : Prop :=
  ∀ next, step = some next → layout.Leads next

namespace LeadsOn

theorem none : layout.LeadsOn none := nofun

theorem some (leads : layout.Leads next) : layout.LeadsOn (some next) := by
  intro _ done
  cases done
  exact leads

theorem bind {first : Option Layout} {onward : Layout → Option Layout}
    (here : layout.LeadsOn first) (later : ∀ middle : Layout, middle.LeadsOn (onward middle)) :
    layout.LeadsOn (first >>= onward) := by
  intro next done
  obtain ⟨middle, isMiddle, rest⟩ := Option.bind_eq_some_iff.mp done
  exact (here middle isMiddle).trans (later middle next rest)

/-- What changes neither the place nor the tokens can be done before a step. -/
theorem of_eq {other : Layout} {step : Option Layout} (leads : other.LeadsOn step)
    (cursor : other.cursor = layout.cursor) (tokens : other.tokens = layout.tokens) :
    layout.LeadsOn step :=
  fun next done => (Leads.of_eq cursor tokens).trans (leads next done)

end LeadsOn

theorem dropStale_leads (layout : Layout) : layout.LeadsOn layout.dropStale := by
  unfold dropStale
  split
  · exact .none
  · exact .some (.of_eq rfl rfl)

theorem dropStart_leads (layout : Layout) : layout.LeadsOn layout.dropStart := by
  unfold dropStart
  split
  · exact .some (.refl layout)
  · split
    · exact .none
    · exact .some (.of_eq rfl rfl)

theorem saveStart_leads (layout : Layout) : layout.LeadsOn layout.saveStart := by
  unfold saveStart
  split
  · exact layout.dropStart_leads.bind fun middle => .some (.of_eq rfl rfl)
  · exact .some (.refl layout)

theorem closeTo_leads (column : Int) (fuel : Nat) (layout : Layout) :
    layout.Leads (closeTo column fuel layout) := by
  induction fuel generalizing layout with
  | zero => exact .refl layout
  | succ fuel ih =>
    unfold closeTo
    split
    · split
      next indent indents _ =>
        have closed : layout.Leads { layout.emit .blockEnd with indent, indents } :=
          (Leads.emit rfl).trans (.of_eq rfl rfl)
        exact closed.trans (ih _)
      · exact .refl layout
    · exact .refl layout

theorem unwind_leads (layout : Layout) (column : Int) : layout.Leads (layout.unwind column) := by
  unfold unwind
  split
  · exact closeTo_leads column _ layout
  · exact .refl layout

theorem deepen_leads (layout : Layout) (column : Nat) : layout.Leads (layout.deepen column).2 := by
  unfold deepen
  split
  · exact .of_eq rfl rfl
  · exact .refl layout

theorem plainMark_leads (readable : token.isReadable = true) (keyAllowed : Bool) :
    layout.LeadsOn (layout.plainMark token keyAllowed) := by
  have dropped : layout.LeadsOn { layout with keyAllowed }.dropStart :=
    (dropStart_leads _).of_eq rfl rfl
  exact dropped.bind fun middle => .some ((Leads.emit readable).trans (.skip 1))

theorem outermost_leads (layout : Layout) : layout.LeadsOn layout.outermost := by
  have dropped : layout.LeadsOn (layout.unwind (-1)).dropStart := fun middle done =>
    (layout.unwind_leads (-1)).trans (dropStart_leads _ middle done)
  exact dropped.bind fun middle => .some (.of_eq rfl rfl)

theorem openFlow_leads (readable : token.isReadable = true) :
    layout.LeadsOn (layout.openFlow token) := by
  apply layout.saveStart_leads.bind
  intro middle
  apply LeadsOn.some
  refine Leads.trans ?_ (.skip 1)
  exact .emitAt (.refl _) rfl readable

theorem closeFlow_leads (readable : token.isReadable = true) :
    layout.LeadsOn (layout.closeFlow token) := by
  unfold closeFlow
  split
  · exact LeadsOn.none
  · apply layout.dropStart_leads.bind
    intro middle
    apply LeadsOn.some
    refine Leads.trans ?_ (.skip 1)
    exact .emitAt (.refl _) rfl readable

theorem openBlock_leads {start : Token} (opens : start.isReadable = true) :
    layout.LeadsOn (layout.openBlock start) := by
  have deeper := deepen_leads layout layout.cursor.column
  unfold openBlock
  split
  · exact .none
  · split
    next opened same =>
      rw [same] at deeper
      exact .some (deeper.trans (.emit opens))
    next kept same =>
      rw [same] at deeper
      exact .some deeper

theorem blockMark_leads {start : Token} (opens : start.isReadable = true)
    (readable : token.isReadable = true) (keyAfter : Bool) :
    layout.LeadsOn (layout.blockMark start token keyAfter) :=
  (openBlock_leads opens).bind fun _ => plainMark_leads readable keyAfter

theorem insertAt_leads {place : Nat} {inserted : List Token}
    (readable : ∀ token ∈ inserted, token.isReadable = true) :
    layout.Leads (layout.insertAt place inserted) := by
  refine ⟨.refl _, fun clean token member => ?_⟩
  simp only [insertAt, List.mem_append] at member
  rcases member with (before | new) | after
  · exact clean token (List.mem_of_mem_take before)
  · exact readable token new
  · exact clean token (List.mem_of_mem_drop after)

theorem insertKey_leads (layout : Layout) (start : KeyStart) :
    layout.Leads (layout.insertKey start) := by
  have deeper := deepen_leads layout start.column
  unfold insertKey
  split
  next opened same =>
    rw [same] at deeper
    exact deeper.trans (insertAt_leads (by simp [Token.isReadable]))
  next kept same =>
    rw [same] at deeper
    exact deeper.trans (insertAt_leads (by simp [Token.isReadable]))

theorem valueMark_leads (layout : Layout) : layout.LeadsOn layout.valueMark := by
  unfold valueMark
  split
  next start _ =>
    apply LeadsOn.some
    refine Leads.trans ?_ (.skip 1)
    refine Leads.trans ?_ (.emit rfl)
    refine Leads.trans ?_ (insertKey_leads _ start)
    exact .of_eq rfl rfl
  · exact blockMark_leads rfl rfl _

theorem plainScalar_leads (layout : Layout) : layout.LeadsOn layout.plainScalar := by
  apply layout.saveStart_leads.bind
  intro middle
  dsimp only
  apply LeadsOn.some
  exact .emitAt (plain_isPast _ _ _ _ _ middle.cursor) rfl rfl

theorem literal_leads (folded : Bool) : layout.LeadsOn (layout.literal folded) := by
  have dropped : layout.LeadsOn { layout with keyAllowed := true }.dropStart :=
    (dropStart_leads _).of_eq rfl rfl
  apply dropped.bind
  intro middle next done
  obtain ⟨⟨token, cursor⟩, scalar, rest⟩ := Option.bind_eq_some_iff.mp done
  cases rest
  have ends := blockScalar?_leaves folded middle.indent middle.cursor token cursor scalar
  obtain ⟨_, -, same⟩ := Option.bind_eq_some_iff.mp scalar
  cases same
  exact .emitAt ends rfl rfl

theorem separator_leads (readable : token.isReadable = true) :
    layout.LeadsOn (layout.separator token) :=
  layout.outermost_leads.bind fun _ => .some ((Leads.emit readable).trans (.skip 3))

theorem skipGap_leads (fuel : Nat) (layout : Layout) : layout.Leads (skipGap fuel layout) := by
  induction fuel generalizing layout with
  | zero => exact .refl layout
  | succ fuel ih =>
    have ends := (dropComment_isPast _).trans (dropWhile_isPast (· = ' ') layout.cursor)
    unfold skipGap
    dsimp only
    split
    · exact ⟨ends, id⟩
    next after _ ended =>
      refine Leads.trans ?_ (ih _)
      exact ⟨(isPast_of_lineBreak ended).trans ends, id⟩

/-! ## One token, and all of them -/

/-- A step that can fail leads on, or it is refused for the characters of the text. -/
def Advances (layout : Layout) : Except Fault Layout → Prop
  | .ok next => layout.Leads next
  | .error fault => IsTextFault layout.cursor.rest fault

theorem advances_orMalformed {step : Option Layout} (leads : layout.LeadsOn step) :
    layout.Advances (orMalformed step) := by
  cases step with
  | none => exact IsTextFault.malformed
  | some next => exact leads next rfl

/-- A token is read where another layout has led to. -/
theorem advances_read {middle : Layout} {read : Except Fault (Token × Cursor)}
    {onward : Token × Cursor → Layout} (here : layout.Leads middle)
    (admits : Cursor.regime.Admits middle.cursor read)
    (leads : ∀ found, read = .ok found → found.2.IsPast middle.cursor →
      middle.Leads (onward found)) :
    layout.Advances (read >>= fun found => .ok (onward found)) := by
  cases found : read with
  | error fault =>
    rw [found] at admits
    exact IsTextFault.mono here.ends.isInfix admits
  | ok result =>
    rw [found] at admits
    exact here.trans (leads result found admits)

theorem keyable_advances {read : Cursor → Except Fault (Token × Cursor)}
    (admits : ∀ cursor, Cursor.regime.Admits cursor (read cursor))
    (readable : ∀ cursor token after, read cursor = .ok (token, after) → token.isReadable = true) :
    layout.Advances (layout.keyable read) := by
  unfold keyable
  cases saved : layout.saveStart with
  | none => exact IsTextFault.malformed
  | some middle =>
    change layout.Advances (read middle.cursor >>= _)
    apply advances_read (layout.saveStart_leads middle saved) (admits middle.cursor)
    intro found done ends
    exact .emitAt ends rfl (readable middle.cursor found.1 found.2 done)

theorem quotedScalar_advances (double : Bool) :
    layout.Advances (layout.keyable (quotedScalar double)) := by
  apply keyable_advances
  · intro cursor
    exact (quoted_admits double _ cursor.next).bindOk.mono (next_isPast cursor)
  · intro cursor token after done
    obtain ⟨text, -, same⟩ := exists_of_bind_eq_ok done
    cases same
    rfl

theorem named_advances {token : String → Token} (readable : ∀ name, (token name).isReadable = true) :
    layout.Advances (layout.keyable fun cursor => do
      let (name, cursor) ← orMalformed (anchorName? cursor)
      return (token name, cursor)) := by
  apply keyable_advances
  · intro cursor
    exact (admits_orMalformed (anchorName?_leaves cursor)).bindOk
  · intro cursor other after done
    obtain ⟨name, -, same⟩ := exists_of_bind_eq_ok done
    cases same
    exact readable _

theorem isReadable_of_tag? {cursor after : Cursor} (found : tag? cursor = some (token, after)) :
    token.isReadable = true := by
  obtain ⟨⟨⟨handle, suffix⟩, rest⟩, -, ended⟩ := Option.bind_eq_some_iff.mp found
  dsimp only at ended
  split at ended <;> cases ended
  rfl

theorem tag_advances (layout : Layout) :
    layout.Advances (layout.keyable fun cursor => orMalformed (tag? cursor)) := by
  apply keyable_advances
  · exact fun cursor => admits_orMalformed (tag?_leaves cursor)
  · exact fun cursor token after done => isReadable_of_tag? (eq_some_of_orMalformed done)

theorem isReadable_of_directive {cursor after : Cursor}
    (found : directive cursor = .ok (token, after)) : token.isReadable = true := by
  obtain ⟨_, -, named⟩ := exists_of_bind_eq_ok found
  obtain ⟨_, -, said⟩ := exists_of_bind_eq_ok named
  obtain ⟨_, -, same⟩ := exists_of_bind_eq_ok said
  cases same
  rfl

theorem directiveLine_advances (layout : Layout) : layout.Advances layout.directiveLine := by
  unfold directiveLine
  cases outer : layout.outermost with
  | none => exact IsTextFault.malformed
  | some middle =>
    change layout.Advances (directive middle.cursor >>= _)
    apply advances_read (layout.outermost_leads middle outer) (directive_admits middle.cursor)
    intro found done ends
    exact .emitAt ends rfl (isReadable_of_directive done)

theorem Advances.ite {condition : Prop} [Decidable condition] {yes no : Except Fault Layout}
    (first : layout.Advances yes) (second : layout.Advances no) :
    layout.Advances (if condition then yes else no) := by
  split
  · exact first
  · exact second

theorem token_advances (layout : Layout) (c : Char) (rest : List Char) :
    layout.Advances (layout.token c rest) := by
  unfold token
  apply Advances.ite layout.directiveLine_advances
  apply Advances.ite (advances_orMalformed (separator_leads (by split <;> rfl)))
  apply Advances.ite (advances_orMalformed (openFlow_leads rfl))
  apply Advances.ite (advances_orMalformed (openFlow_leads rfl))
  apply Advances.ite (advances_orMalformed (closeFlow_leads rfl))
  apply Advances.ite (advances_orMalformed (closeFlow_leads rfl))
  apply Advances.ite (advances_orMalformed (plainMark_leads rfl true))
  apply Advances.ite (advances_orMalformed (blockMark_leads rfl rfl true))
  apply Advances.ite (advances_orMalformed (blockMark_leads rfl rfl _))
  apply Advances.ite (advances_orMalformed layout.valueMark_leads)
  apply Advances.ite (named_advances fun _ => rfl)
  apply Advances.ite (named_advances fun _ => rfl)
  apply Advances.ite layout.tag_advances
  apply Advances.ite (advances_orMalformed (literal_leads false))
  apply Advances.ite (advances_orMalformed (literal_leads true))
  apply Advances.ite (quotedScalar_advances false)
  apply Advances.ite (quotedScalar_advances true)
  apply Advances.ite (advances_orMalformed layout.plainScalar_leads)
  exact IsTextFault.malformed

/-- Tokens come from a text that is not malformed; what cannot be read is known by its fault. -/
def AreTokens (text : List Char) : Except Fault (List Token) → Prop
  | .ok tokens => ∀ fault, .unreadable fault ∈ tokens → IsTextFault text fault
  | .error fault => fault = .malformedYaml

variable {text : List Char}

theorem IsClean.areTokens (clean : layout.IsClean) : AreTokens text (.ok layout.tokens.toList) := by
  intro fault member
  cases clean _ member

theorem broken_areTokens (clean : layout.IsClean) {fault : Fault}
    (refused : IsTextFault text fault) : AreTokens text (layout.broken fault) := by
  unfold broken
  split
  next form => exact form
  · intro other member
    rcases List.mem_append.mp member with before | last
    · exact clean.areTokens other (List.mem_of_mem_take before)
    · cases List.mem_singleton.mp last
      exact refused

theorem run_areTokens (fuel : Nat) (inside : layout.cursor.rest <:+ text)
    (clean : layout.IsClean) : AreTokens text (run fuel layout) := by
  induction fuel generalizing layout with
  | zero => exact rfl
  | succ fuel ih =>
    unfold run
    cases stale : (skipGap (layout.cursor.rest.length + 1) layout).dropStale with
    | none => exact rfl
    | some settled =>
      have here : layout.Leads (settled.unwind settled.cursor.column) :=
        (skipGap_leads _ layout).trans
          ((dropStale_leads _ settled stale).trans (unwind_leads settled _))
      dsimp only [orMalformed, bind, Except.bind]
      generalize settled.unwind settled.cursor.column = place at here
      have insideHere : place.cursor.rest <:+ text := List.IsSuffix.trans here.ends inside
      split
      · cases ended : (place.unwind (-1)).dropStart with
        | none => exact rfl
        | some last =>
          have leads : place.Leads (last.emit .streamEnd) :=
            ((place.unwind_leads (-1)).trans (dropStart_leads _ last ended)).trans (.emit rfl)
          exact (leads.clean (here.clean clean)).areTokens
      next c rest _ =>
        have advances := token_advances place c rest
        split
        next next step =>
          rw [step] at advances
          have onward := here.trans advances
          exact ih (List.IsSuffix.trans onward.ends inside) (onward.clean clean)
        next fault step =>
          rw [step] at advances
          exact broken_areTokens clean (advances.mono insideHere.isInfix)

end Layout

theorem tokensOf_areTokens (text : List Char) : Layout.AreTokens text (tokensOf text) := by
  unfold tokensOf
  split
  · apply Layout.run_areTokens
    · dsimp only
      split
      · exact next_isPast (Cursor.ofText text)
      · exact List.suffix_refl text
    · intro token member
      cases member
  · exact rfl

end Yaml

end StaticSite
