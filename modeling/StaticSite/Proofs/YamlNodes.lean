import StaticSite.Proofs.YamlTokens
import StaticSite.Yaml

/-!
# What YAML is refused for

The readers of nodes fail with the fault of a token if they get that far. A document is refused for
one of its scalars, which is not what its kind says; everything else is a matter of form.
-/

namespace StaticSite.Yaml

variable {α : Type}

/-! ## Nodes -/

/-- What tokens are refused for: their order, or a fault that one of them stands for. -/
def IsTokenFault (tokens : List Token) (fault : Fault) : Prop :=
  fault = .malformedYaml ∨ .unreadable fault ∈ tokens

theorem IsTokenFault.mono {rest tokens : List Token} {fault : Fault} (ends : rest <:+ tokens)
    (refused : IsTokenFault rest fault) : IsTokenFault tokens fault :=
  refused.imp_right fun member => ends.subset member

/-- Readers of nodes take tokens from the front. -/
def Reader.regime : Regime Reader Fault where
  ends next reader := next.tokens <:+ reader.tokens
  fails reader := IsTokenFault reader.tokens
  refl reader := List.suffix_refl reader.tokens
  trans := List.IsSuffix.trans
  inherits := IsTokenFault.mono

namespace Reader

variable {reader next : Reader}

theorem peek_fails {fault : Fault} (refused : reader.peek = .error fault) :
    regime.fails reader fault := by
  unfold peek at refused
  cases same : reader.tokens with
  | nil =>
    rw [same] at refused
    cases refused
  | cons token tokens =>
    rw [same, List.headD_cons] at refused
    split at refused <;> cases refused
    exact .inr (by simp [same])

theorem fails_of_orMalformed {found : Option α} {fault : Fault}
    (refused : orMalformed found = .error fault) : regime.fails reader fault :=
  .inl (eq_of_orMalformed_error refused)

theorem next_ends (reader : Reader) : regime.ends reader.next reader :=
  List.tail_suffix reader.tokens

theorem admits_ok {value : α} (ends : regime.ends next reader) :
    regime.Admits reader (.ok (value, next) : Except Fault (α × Reader)) := ends

theorem admits_malformed : regime.Admits reader (.error .malformedYaml : Except Fault (α × Reader)) :=
  .inl rfl

theorem admits_peek {onward : Token → Except Fault (α × Reader)}
    (each : ∀ token, regime.Admits reader (onward token)) :
    regime.Admits reader (reader.peek >>= onward) :=
  Regime.Admits.bindOf (fun _ => peek_fails) fun token _ => each token

theorem properties_admits (reader : Reader) : regime.Admits reader reader.properties := by
  apply admits_peek
  intro token
  split
  · apply Regime.Admits.mono (next_ends reader)
    apply admits_peek
    intro token
    split
    · exact admits_ok (next_ends reader.next)
    · exact admits_ok (regime.refl _)
  · apply Regime.Admits.mono (next_ends reader)
    apply admits_peek
    intro token
    split
    · exact admits_ok (next_ends reader.next)
    · exact admits_ok (regime.refl _)
  · exact admits_ok (regime.refl _)

theorem name?_tokens {anchor : Option String} {id : Nat} (done : reader.name? anchor id = some next) :
    next.tokens = reader.tokens := by
  unfold name? at done
  split at done
  · cases done
    rfl
  · split at done <;> cases done
    rfl

theorem scalar_admits (reader : Reader) (anchor tag : Option String) (token : Token) :
    regime.Admits reader (reader.scalar anchor tag token) := by
  unfold scalar
  split
  · exact admits_ok (next_ends reader)
  · split
    · exact admits_ok (regime.refl reader)
    · exact admits_malformed

theorem expect_fails {token : Token} {fault : Fault} (refused : reader.expect token = .error fault) :
    regime.fails reader fault := by
  rcases error_of_bind_eq_error refused with peeked | ⟨other, -, compared⟩
  · exact peek_fails peeked
  · split at compared <;> cases compared
    exact .inl rfl

theorem expect_ends {token : Token} (done : reader.expect token = .ok next) :
    regime.ends next reader := by
  obtain ⟨other, -, compared⟩ := exists_of_bind_eq_ok done
  split at compared <;> cases compared
  exact next_ends reader

theorem admits_expect {token : Token} {onward : Reader → Except Fault (α × Reader)}
    (each : ∀ rest, regime.Admits rest (onward rest)) :
    regime.Admits reader (reader.expect token >>= onward) :=
  Regime.Admits.bindRest (fun _ => expect_fails) (fun _ => expect_ends) fun rest _ => each rest

theorem admits_separate {first : Bool} {onward : Reader → Except Fault (α × Reader)}
    (each : ∀ rest, regime.Admits rest (onward rest)) :
    regime.Admits reader (reader.separate first >>= onward) := by
  unfold separate
  split
  · exact each reader
  · exact admits_expect each

end Reader

open Reader

mutual

theorem readNode_admits (block bare : Bool) : (fuel : Nat) → (reader : Reader) →
    Reader.regime.Admits reader (readNode block bare fuel reader)
  | 0, _ => admits_malformed
  | fuel + 1, reader => by
    unfold readNode
    apply admits_peek
    intro token
    split
    · apply Regime.Admits.bindOf fun _ => fails_of_orMalformed
      exact fun id _ => admits_ok (next_ends reader)
    · apply (properties_admits reader).bind
      intro found reader _
      apply Regime.Admits.bindOf fun _ => fails_of_orMalformed
      intro tag _
      apply admits_peek
      intro first
      split
      next shape _ =>
        apply Regime.Admits.bindOf fun _ => fails_of_orMalformed
        intro start named
        have ends : Reader.regime.ends start reader := by
          change start.tokens <:+ reader.tokens
          rw [name?_tokens (eq_some_of_orMalformed named)]
          split
          · exact regime.refl reader
          · exact next_ends reader
        apply Regime.Admits.mono ends
        apply (readContent_admits shape fuel start).bind
        exact fun content last _ => admits_ok (regime.refl last)
      · apply (scalar_admits reader found.1 tag first).bind
        intro scalar reader _
        apply Regime.Admits.bindOf fun _ => fails_of_orMalformed
        intro last named
        have ends : Reader.regime.ends last reader := by
          change last.tokens <:+ reader.tokens
          rw [name?_tokens (eq_some_of_orMalformed named)]
        exact admits_ok ends

theorem readContent_admits (shape : Shape) : (fuel : Nat) → (reader : Reader) →
    Reader.regime.Admits reader (readContent shape fuel reader)
  | 0, _ => admits_malformed
  | fuel + 1, reader => by
    unfold readContent
    cases shape with
    | blockSequence =>
      apply (readEntries_admits false fuel reader).bind
      exact fun items rest _ => admits_expect fun last => admits_ok (regime.refl last)
    | bareSequence =>
      exact (readEntries_admits true fuel reader).bindOk
    | blockMapping =>
      apply (readPairs_admits fuel reader).bind
      exact fun pairs rest _ => admits_expect fun last => admits_ok (regime.refl last)
    | flowSequence =>
      exact (readFlowItems_admits true fuel reader).bindOk
    | flowMapping =>
      exact (readFlowPairs_admits true fuel reader).bindOk

theorem readEntries_admits (bare : Bool) : (fuel : Nat) → (reader : Reader) →
    Reader.regime.Admits reader (readEntries bare fuel reader)
  | 0, _ => admits_malformed
  | fuel + 1, reader => by
    have more {first : Reading} {rest : Reader} (admits : Reader.regime.Admits rest first) :
        Reader.regime.Admits rest (do
          let (item, reader) ← first
          let (items, reader) ← readEntries bare fuel reader
          return (item :: items, reader)) := by
      apply admits.bind
      intro item after _
      exact (readEntries_admits bare fuel after).bindOk
    unfold readEntries
    apply admits_peek
    intro token
    split
    · apply Regime.Admits.mono (next_ends reader)
      apply admits_peek
      intro token
      split
      · exact more (admits_ok (regime.refl reader.next))
      · exact more (readNode_admits true false fuel reader.next)
    · exact admits_ok (regime.refl reader)

theorem readMember_admits : (fuel : Nat) → (reader : Reader) →
    Reader.regime.Admits reader (readMember fuel reader)
  | 0, _ => admits_malformed
  | fuel + 1, reader => by
    unfold readMember
    apply admits_peek
    intro token
    split
    · exact admits_ok (regime.refl reader)
    · exact readNode_admits true true fuel reader

theorem readPairs_admits : (fuel : Nat) → (reader : Reader) →
    Reader.regime.Admits reader (readPairs fuel reader)
  | 0, _ => admits_malformed
  | fuel + 1, reader => by
    have more (key : Nat) {first : Reading} {rest : Reader}
        (admits : Reader.regime.Admits rest first) :
        Reader.regime.Admits rest (do
          let (value, reader) ← first
          let (pairs, reader) ← readPairs fuel reader
          return ((key, value) :: pairs, reader)) := by
      apply admits.bind
      intro value after _
      exact (readPairs_admits fuel after).bindOk
    unfold readPairs
    apply admits_peek
    intro token
    split
    · apply Regime.Admits.mono (next_ends reader)
      apply (readMember_admits fuel reader.next).bind
      intro key rest _
      apply admits_peek
      intro token
      split
      · exact (more key (readMember_admits fuel rest.next)).mono (next_ends rest)
      · exact more key (admits_ok (regime.refl rest))
    · exact admits_ok (regime.refl reader)

theorem readFlowMember_admits (close : Token) : (fuel : Nat) → (reader : Reader) →
    Reader.regime.Admits reader (readFlowMember close fuel reader)
  | 0, _ => admits_malformed
  | fuel + 1, reader => by
    unfold readFlowMember
    apply admits_peek
    intro token
    split
    · exact admits_ok (regime.refl reader)
    · exact readNode_admits false false fuel reader

theorem readFlowValue_admits (close : Token) : (fuel : Nat) → (reader : Reader) →
    Reader.regime.Admits reader (readFlowValue close fuel reader)
  | 0, _ => admits_malformed
  | fuel + 1, reader => by
    unfold readFlowValue
    apply admits_peek
    intro token
    split
    · exact (readFlowMember_admits close fuel reader.next).mono (next_ends reader)
    · exact admits_ok (regime.refl reader)

theorem readFlowKey_admits (close : Token) : (fuel : Nat) → (reader : Reader) →
    Reader.regime.Admits reader (readFlowKey close fuel reader)
  | 0, _ => admits_malformed
  | fuel + 1, reader => by
    unfold readFlowKey
    apply admits_peek
    intro token
    split
    · exact admits_ok (regime.refl reader)
    · exact readFlowMember_admits close fuel reader

theorem readFlowItem_admits : (fuel : Nat) → (reader : Reader) →
    Reader.regime.Admits reader (readFlowItem fuel reader)
  | 0, _ => admits_malformed
  | fuel + 1, reader => by
    unfold readFlowItem
    apply admits_peek
    intro token
    split
    · apply Regime.Admits.mono (next_ends reader)
      apply (readFlowKey_admits .flowSequenceEnd fuel _).bind
      intro key rest _
      apply (readFlowValue_admits .flowSequenceEnd fuel rest).bind
      exact fun value last _ => admits_ok (regime.refl last)
    · exact readNode_admits false false fuel reader

theorem readFlowItems_admits (first : Bool) : (fuel : Nat) → (reader : Reader) →
    Reader.regime.Admits reader (readFlowItems first fuel reader)
  | 0, _ => admits_malformed
  | fuel + 1, reader => by
    unfold readFlowItems
    apply admits_peek
    intro token
    split
    · exact admits_ok (next_ends reader)
    · apply admits_separate
      intro rest
      apply admits_peek
      intro token
      split
      · exact admits_ok (next_ends rest)
      · apply (readFlowItem_admits fuel rest).bind
        intro item after _
        exact (readFlowItems_admits false fuel after).bindOk

theorem readFlowPair_admits : (fuel : Nat) → (reader : Reader) →
    Reader.regime.Admits reader (readFlowPair fuel reader)
  | 0, _ => admits_malformed
  | fuel + 1, reader => by
    unfold readFlowPair
    apply admits_peek
    intro token
    split
    · apply Regime.Admits.mono (next_ends reader)
      apply (readFlowKey_admits .flowMappingEnd fuel _).bind
      intro key rest _
      exact (readFlowValue_admits .flowMappingEnd fuel rest).bindOk
    · apply (readNode_admits false false fuel reader).bind
      exact fun key last _ => admits_ok (regime.refl last)

theorem readFlowPairs_admits (first : Bool) : (fuel : Nat) → (reader : Reader) →
    Reader.regime.Admits reader (readFlowPairs first fuel reader)
  | 0, _ => admits_malformed
  | fuel + 1, reader => by
    unfold readFlowPairs
    apply admits_peek
    intro token
    split
    · exact admits_ok (next_ends reader)
    · apply admits_separate
      intro rest
      apply admits_peek
      intro token
      split
      · exact admits_ok (next_ends rest)
      · apply (readFlowPair_admits fuel rest).bind
        intro pair after _
        exact (readFlowPairs_admits false fuel after).bindOk

end

/-! ## Documents -/

/-- Readers of directives take tokens from the front, too. -/
def Token.regime : Regime (List Token) Fault where
  ends rest tokens := rest <:+ tokens
  fails := IsTokenFault
  refl := List.suffix_refl
  trans := List.IsSuffix.trans
  inherits := IsTokenFault.mono

theorem readDirectives_admits (version : Bool) (handles : List (String × String))
    (tokens : List Token) : Token.regime.Admits tokens (readDirectives version handles tokens) := by
  induction tokens generalizing version handles with
  | nil => exact List.suffix_refl _
  | cons token tokens ih =>
    have onward (version : Bool) (handles : List (String × String)) :
        Token.regime.Admits (token :: tokens) (readDirectives version handles tokens) :=
      (ih version handles).mono (List.suffix_cons token tokens)
    unfold readDirectives
    split
    next same =>
      cases same
      split
      · exact .inl rfl
      · exact onward _ _
    next same =>
      cases same
      split
      · exact .inl rfl
      · exact onward _ _
    next same =>
      cases same
      exact onward _ _
    next same =>
      cases same
      exact .inr (List.mem_cons_self ..)
    · exact List.suffix_refl _

theorem expectEnd_within (tokens : List Token) :
    FailsWithin (IsTokenFault tokens) (expectEnd tokens) := by
  have ends : tokens.dropWhile isDocumentEnd <:+ tokens := List.dropWhile_suffix _
  apply ((readDirectives_admits false [] _).within.imp fun _ => IsTokenFault.mono ends).bind
  intro found _
  split
  · exact .ok _
  · exact .error (.inl rfl)

theorem readRoot_within (explicit : Bool) (reader : Reader) :
    FailsWithin (IsTokenFault reader.tokens) (readRoot explicit reader) := by
  have finish {first : Reading} (admits : Reader.regime.Admits reader first) :
      FailsWithin (IsTokenFault reader.tokens) (do
        let (root, reader) ← first
        expectEnd reader.tokens
        return (⟨reader.nodes, root⟩ : Document)) := by
    apply admits.within.bind
    rintro ⟨root, rest⟩ done
    rw [done] at admits
    exact ((expectEnd_within rest.tokens).imp fun _ => IsTokenFault.mono admits).bindOk
  have peeked : FailsWithin (IsTokenFault reader.tokens) reader.peek := fun _ => peek_fails
  apply peeked.bind
  intro first _
  split
  · exact finish (admits_ok (regime.refl reader))
  · exact finish (readNode_admits true false _ reader)

theorem readExplicit_within (tokens : List Token) :
    FailsWithin (IsTokenFault tokens) (readExplicit tokens) := by
  have admits := readDirectives_admits false [] tokens
  apply admits.within.bind
  rintro ⟨handles, rest⟩ done
  rw [done] at admits
  dsimp only
  split
  next rest =>
    have ends : .documentStart :: rest <:+ tokens := admits
    have inner : rest <:+ tokens := (List.suffix_cons .documentStart rest).trans ends
    exact (readRoot_within true _).imp fun _ => IsTokenFault.mono inner
  · exact .error (.inl rfl)

/-- A text that has no document is malformed, or its characters are at fault. -/
theorem readDocument_within (text : List Char) : FailsWithin (IsTextFault text) (readDocument text) := by
  have areTokens := tokensOf_areTokens text
  have scanned : FailsWithin (IsTextFault text) (tokensOf text) := by
    intro fault refused
    rw [refused] at areTokens
    exact (show fault = .malformedYaml from areTokens) ▸ .malformed
  apply scanned.bind
  intro tokens done
  rw [done] at areTokens
  have refused (fault : Fault) : IsTokenFault tokens fault → IsTextFault text fault := by
    rintro (rfl | member)
    · exact .malformed
    · exact areTokens fault member
  have explicit : FailsWithin (IsTextFault text) (do return some (← readExplicit tokens)) :=
    ((readExplicit_within tokens).imp refused).bindOk
  split
  · exact .ok _
  · exact explicit
  · exact explicit
  · exact ((readRoot_within false _).imp refused).bindOk

/-! ## Scalars -/

namespace Scalar

/-- What scalars of a kind are refused for; a null and a text never are. -/
inductive IsScalarFault : ScalarKind → Fault → Prop where
  | word (key : String) : IsScalarFault .bool (.missingKey key)
  | emptyInt : IsScalarFault .int .noCharacter
  | literal (base : Nat) (s : List Char) : IsScalarFault .int (badInt base s)
  | digits (count : Nat) (tooLong : Number.digitLimit < count) :
    IsScalarFault .int (.yamlValue (Json.digitLimitMessage count))
  | emptyFloat : IsScalarFault .float .noCharacter
  | number (s : String) : IsScalarFault .float (.notANumber s)
  | place : IsScalarFault .float .integerTooLarge
  | stamp : IsScalarFault .timestamp (.missingOperation .null "groupdict")
  | date (d : Date) (message : String) (refused : dateFault? d = some message) :
    IsScalarFault .timestamp (.yamlValue message)
  | time (t : TimeOfDay) (message : String) (refused : timeFault? t = some message) :
    IsScalarFault .timestamp (.yamlValue message)
  | offset (seconds : Int) (message : String) (refused : offsetFault? seconds = some message) :
    IsScalarFault .timestamp (.yamlValue message)
  | mark (kind : ScalarKind) (noValue : kind = .merge ∨ kind = .value) :
    IsScalarFault kind .malformedYaml

theorem readBool_within (s : String) : FailsWithin (IsScalarFault .bool) (readBool s) := by
  unfold readBool
  dsimp only
  split
  · exact .ok _
  · split
    · exact .ok _
    · exact .error (.word _)

theorem readBase_within (base : Nat) (letter : Char) (s : List Char) :
    FailsWithin (IsScalarFault .int) (readBase base letter s) := by
  unfold readBase
  dsimp only
  split
  · exact .ok _
  · exact .error (.literal base s)

theorem readDecimal_within (s : List Char) :
    FailsWithin (IsScalarFault .int) (readDecimal s) := by
  unfold readDecimal
  dsimp only
  split
  next tooLong => exact .error (.digits _ tooLong)
  · split
    · exact .error (.literal 10 s)
    · exact .ok _

theorem readInt_within (s : String) : FailsWithin (IsScalarFault .int) (readInt s) := by
  unfold readInt
  dsimp only
  split
  · exact .error .emptyInt
  · exact .ok _
  · exact (readBase_within 2 'b' _).map
  · exact (readBase_within 16 'x' _).map
  · exact (readBase_within 8 'o' _).map
  · split
    · exact (FailsWithin.mapM fun piece _ => readDecimal_within piece).map
    · exact (readDecimal_within _).map

theorem readPart_within (s : List Char) : FailsWithin (IsScalarFault .float) (readPart s) := by
  unfold readPart
  split
  · exact .ok _
  · exact .error (.number _)

theorem sixtySum_within (sum : Binary64) (base : Nat) (places : List Binary64) :
    FailsWithin (IsScalarFault .float) (sixtySum sum base places) := by
  induction places generalizing sum base with
  | nil => exact .ok _
  | cons place places ih =>
    unfold sixtySum
    split
    · exact .error .place
    · exact ih _ _

theorem readMagnitude_within (body : List Char) :
    FailsWithin (IsScalarFault .float) (readMagnitude body) := by
  unfold readMagnitude
  refine FailsWithin.ite (.ok _) ?_
  refine FailsWithin.ite (.ok _) ?_
  apply FailsWithin.ite
  · apply FailsWithin.bind (FailsWithin.mapM fun piece _ => readPart_within piece)
    exact fun places _ => sixtySum_within _ _ _
  · exact readPart_within body

theorem readFloat_within (s : String) : FailsWithin (IsScalarFault .float) (readFloat s) := by
  unfold readFloat
  refine FailsWithin.ite (.error .emptyFloat) ?_
  exact (readMagnitude_within _).map

theorem readStamp_within (s : String) : FailsWithin (IsScalarFault .timestamp) (readStamp s) := by
  unfold readStamp
  split
  · exact .error .stamp
  next date _ =>
    split
    next message refused => exact .error (.date date message refused)
    · exact .ok _
  next date time offset _ =>
    split
    next message refused =>
      rcases Option.or_eq_some_iff.mp refused with either | ⟨-, ofTime⟩
      · rcases Option.or_eq_some_iff.mp either with ofOffset | ⟨-, ofDate⟩
        · obtain ⟨seconds, -, ofSeconds⟩ := Option.bind_eq_some_iff.mp ofOffset
          exact .error (.offset seconds message ofSeconds)
        · exact .error (.date date message ofDate)
      · exact .error (.time time message ofTime)
    · exact .ok _

theorem ofKind_within (s : String) (kind : ScalarKind) :
    FailsWithin (IsScalarFault kind) (ofKind s kind) := by
  cases kind with
  | bool => exact readBool_within s
  | float => exact readFloat_within s
  | int => exact readInt_within s
  | null => exact .ok _
  | timestamp => exact readStamp_within s
  | str => exact .ok _
  | merge => exact .error (.mark .merge (.inl rfl))
  | value => exact .error (.mark .value (.inr rfl))

end Scalar

/-! ## Values -/

namespace Document

variable {document : Document}

/-- A scalar of a document is not what its kind says. -/
structure Refuses (document : Document) (id : Nat) (written : String) (kind : ScalarKind)
    (fault : Fault) : Prop where
  content : (document.node id).content = .scalar written
  isKind : scalarKind? (document.node id) written = some kind
  refused : Scalar.ofKind written kind = .error fault

/-- What a document is refused for: its form, or one of its scalars. -/
def IsNodeFault (document : Document) (fault : Fault) : Prop :=
  fault = .malformedYaml ∨ ∃ id written kind, document.Refuses id written kind fault

theorem Refuses.isScalarFault {id : Nat} {written : String} {kind : ScalarKind} {fault : Fault}
    (refuses : document.Refuses id written kind fault) : Scalar.IsScalarFault kind fault :=
  Scalar.ofKind_within written kind fault refuses.refused

theorem mergedPairs_within (fuel : Nat) (visited : List Nat) (id : Nat) :
    FailsWithin document.IsNodeFault (document.mergedPairs fuel visited id) := by
  induction fuel generalizing visited id with
  | zero => exact .ok _
  | succ fuel ih =>
    unfold mergedPairs
    split
    · split
      · exact .ok _
      · apply FailsWithin.bind
        · apply FailsWithin.mapM
          intro pair _
          dsimp only
          split
          · exact ih _ pair.2
          · exact FailsWithin.bindOk (FailsWithin.mapM fun item _ => ih _ item)
          · exact .error (.inl rfl)
        · exact fun _ _ => .ok _
    · exact .error (.inl rfl)

theorem value_within (base id : Nat) :
    FailsWithin document.IsNodeFault (document.value base id) := by
  unfold Document.value
  dsimp only
  split
  next written content =>
    split
    next kind isKind =>
      exact fun fault refused => .inr ⟨id, written, kind, content, isKind, refused⟩
    · exact .error (.inl rfl)
  · split
    · exact .ok _
    · exact .error (.inl rfl)
  · split
    · exact .ok _
    · exact .error (.inl rfl)

theorem keyValue_within (base id : Nat) :
    FailsWithin document.IsNodeFault (document.keyValue base id) := by
  unfold keyValue
  split
  · exact .ok _
  · apply (value_within base id).bind
    intro value _
    split
    · exact .error (.inl rfl)
    · exact .ok _

theorem container_within (base id : Nat) :
    FailsWithin document.IsNodeFault (document.container base id) := by
  unfold container
  split
  · exact .ok _
  · exact FailsWithin.bindOk (FailsWithin.mapM fun item _ => value_within base item)
  · apply (mergedPairs_within _ [] id).bind
    intro pairs _
    apply FailsWithin.bind
    · apply FailsWithin.foldlM
      intro entries pair _
      apply (keyValue_within base pair.1).bind
      intro key _
      exact (value_within base pair.2).bindOk
    · exact fun _ _ => .ok _

end Document

/-- What a text is refused for: its characters, or a scalar of the document that it holds. -/
def IsSourceFault (text : List Char) (fault : Fault) : Prop :=
  IsTextFault text fault ∨
    ∃ document, readDocument text = .ok (some document) ∧ document.IsNodeFault fault

theorem read_within (heap : Heap) (text : String) :
    FailsWithin (IsSourceFault text.toList) (read heap text) := by
  apply ((readDocument_within text.toList).imp fun _ => Or.inl).bind
  intro found done
  split
  · exact .ok _
  next document =>
    have inDocument {fault : Fault} (refused : document.IsNodeFault fault) :
        IsSourceFault text.toList fault := .inr ⟨document, done, refused⟩
    apply ((Document.value_within _ document.root).imp fun _ => inDocument).bind
    intro value _
    apply FailsWithin.bind
    · apply FailsWithin.mapM
      intro id _
      exact ((Document.container_within _ id).imp fun _ => inDocument).bindOk
    · exact fun _ _ => .ok _

end StaticSite.Yaml
