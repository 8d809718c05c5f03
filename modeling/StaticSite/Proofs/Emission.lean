import Mathlib
import StaticSite.Proofs.Outcome
import StaticSite.Proofs.Spelling
import StaticSite.Proofs.Trimming
import StaticSite.Style.Rule

/-!
# The rules that props can give

Whatever the props of a component hold, its rules have selectors made from its class, and every
declaration sets a known property to a value that has passed the test for unsafe characters or has
been written by the program itself.
-/

namespace StaticSite.Style

open Text (isNameChar isSpelling)

/-! ## Values -/

/-- A text that can be the value of a declaration. -/
structure IsValue (value : String) : Prop where
  safe : ∀ c ∈ value.toList, isUnsafe c = false
  ends : HasEnds Text.isBlank value.toList

theorem not_unsafe_of_isSpelling {c : Char} (spelled : isSpelling c = true) :
    isUnsafe c = false ∧ Text.isBlank c = false := by
  have unsafeChars : ∀ d ∈ ['<', '>', '\x7b', '\x7d', ';'], isSpelling d = false := by decide
  refine ⟨?_, Text.isBlank_eq_false (by decide +kernel) spelled⟩
  rw [Bool.eq_false_iff]
  intro isUnsafe
  have member : c ∈ ['<', '>', '\x7b', '\x7d', ';'] := by
    simpa [Style.isUnsafe, or_assoc] using isUnsafe
  exact Text.ne_of_kind spelled (unsafeChars c member) rfl

theorem isValue_of_spelling {value : String} (spelled : ∀ c ∈ value.toList, isSpelling c = true) :
    IsValue value :=
  ⟨fun c member => (not_unsafe_of_isSpelling (spelled c member)).1,
    hasEnds_of_forall fun c member => (not_unsafe_of_isSpelling (spelled c member)).2⟩

theorem isValue_of_safeText {s value : String} (safe : safeText s = some value) : IsValue value := by
  unfold safeText at safe
  dsimp only at safe
  split at safe
  · cases safe
  next usable =>
    cases safe
    simp only [Bool.or_eq_true, not_or, Bool.not_eq_true, List.any_eq_false] at usable
    refine ⟨fun c member => ?_, ?_⟩
    · rw [String.toList_ofList] at member
      simpa using usable.2 c member
    · rw [String.toList_ofList]
      exact hasEnds_trimmed s.toList

/-- The value of a prop has passed the test, or is a number with or without a unit. -/
theorem isValue_of_amount {prop value : String} {raw : Value}
    (given : amount prop raw = .ok (some value)) : IsValue value := by
  have unit : ∀ c ∈ "px".toList, isSpelling c = true := by decide
  have integer (n : Int) : IsValue (toString n) :=
    isValue_of_spelling (Text.isSpelling_of_mem_toString n)
  have double (x : Binary64) : IsValue (floatText x) :=
    isValue_of_spelling (isSpelling_of_mem_floatText x)
  have length {number : String} (spelled : ∀ c ∈ number.toList, isSpelling c = true) :
      IsValue (number ++ "px") := by
    refine isValue_of_spelling ?_
    rw [String.toList_append]
    exact List.forall_mem_append.mpr ⟨spelled, unit⟩
  unfold amount at given
  split at given
  next n =>
    split at given
    · unfold opacityOfInt at given
      split at given
      · cases given
        exact integer n
      · split at given
        · cases given
        · cases given
          exact double _
    · split at given
      · cases given
        exact integer n
      · cases given
        exact length (Text.isSpelling_of_mem_toString n)
  next x =>
    split at given
    · cases given
      exact double _
    · split at given
      · cases given
        exact double x
      · cases given
        exact length (isSpelling_of_mem_floatText x)
  next s => exact isValue_of_safeText (Except.ok.inj given)
  · cases given

/-! ## Transforms -/

/-- A function is called with brackets around a value. -/
theorem isValue_call {function inner : String} (named : ∀ c ∈ function.toList, isSpelling c = true)
    (safe : ∀ c ∈ inner.toList, isUnsafe c = false) : IsValue (function ++ "(" ++ inner ++ ")") := by
  have called : (function ++ "(" ++ inner ++ ")").toList =
      (function.toList ++ ['(']) ++ inner.toList ++ [')'] := by simp
  constructor
  · rw [called]
    simp only [List.forall_mem_append, List.forall_mem_singleton]
    refine ⟨⟨⟨fun c member => (not_unsafe_of_isSpelling (named c member)).1, ?_⟩, safe⟩, ?_⟩ <;>
      decide
  · rw [called]
    have opening : HasEnds Text.isBlank (function.toList ++ ['(']) := by
      refine hasEnds_of_forall (List.forall_mem_append.mpr
        ⟨fun c member => (not_unsafe_of_isSpelling (named c member)).2, ?_⟩)
      decide
    have closing : HasEnds Text.isBlank [')'] := hasEnds_of_forall (by decide)
    exact opening.append closing (by simp) inner.toList

theorem isValue_of_transformPart {function unit part : String} {raw : Value}
    (known : (function, unit) ∈ transformUnits) (given : transformPart function unit raw = some part) :
    IsValue part ∧ part ≠ "" := by
  have named : ∀ c ∈ function.toList, isSpelling c = true := by
    have all : ∀ entry ∈ transformUnits, ∀ c ∈ entry.1.toList, isSpelling c = true := by
      decide +kernel
    exact all _ known
  have units : ∀ c ∈ unit.toList, isSpelling c = true := by
    have all : ∀ entry ∈ transformUnits, ∀ c ∈ entry.2.toList, isSpelling c = true := by
      decide +kernel
    exact all _ known
  have number {digits : String} (spelled : ∀ c ∈ digits.toList, isSpelling c = true) :
      IsValue (function ++ "(" ++ digits ++ unit ++ ")") := by
    have inner : ∀ c ∈ (digits ++ unit).toList, isUnsafe c = false := by
      intro c member
      rw [String.toList_append] at member
      exact (not_unsafe_of_isSpelling (List.forall_mem_append.mpr ⟨spelled, units⟩ c member)).1
    have called := isValue_call named inner
    rwa [← String.append_assoc] at called
  unfold transformPart at given
  split at given
  next n =>
    cases given
    exact ⟨number (Text.isSpelling_of_mem_toString n), by simp⟩
  next x =>
    cases given
    exact ⟨number (isSpelling_of_mem_floatText x), by simp⟩
  next s =>
    obtain ⟨text, safe, rfl⟩ := Option.map_eq_some_iff.mp given
    exact ⟨isValue_call named (isValue_of_safeText safe).safe, by simp⟩
  · cases given

theorem isValue_intercalate {parts : List String} (each : ∀ part ∈ parts, IsValue part ∧ part ≠ "") :
    IsValue (" ".intercalate parts) := by
  induction parts with
  | nil => exact isValue_of_spelling (by decide)
  | cons part parts ih =>
    obtain ⟨here, later⟩ := List.forall_mem_cons.mp each
    cases parts with
    | nil => simpa using here.1
    | cons next parts =>
      have rest := ih later
      have nonempty : " ".intercalate (next :: parts) ≠ "" := by
        intro empty
        have isNext := congrArg String.toList empty
        cases parts with
        | nil => exact (later next (List.mem_cons_self ..)).2 (by simpa using empty)
        | cons other parts => simp [String.intercalate_cons_cons] at isNext
      rw [String.intercalate_cons_cons]
      refine ⟨?_, ?_⟩
      · simp only [String.toList_append, List.forall_mem_append]
        exact ⟨⟨here.1.safe, by decide⟩, rest.safe⟩
      · simp only [String.toList_append]
        have bothNonempty : part.toList ≠ [] ∧ (" ".intercalate (next :: parts)).toList ≠ [] :=
          ⟨fun empty => here.2 (String.toList_eq_nil_iff.mp empty),
            fun empty => nonempty (String.toList_eq_nil_iff.mp empty)⟩
        exact here.1.ends.append rest.ends bothNonempty _

/-! ## Declarations -/

/-- A declaration that props can give. -/
structure IsDeclaration (declaration : String × String) : Prop where
  property : ∀ c ∈ declaration.1.toList, isNameChar c = true
  value : IsValue declaration.2

theorem isNameChar_properties :
    ∀ property ∈ properties, ∀ c ∈ property.2.toList, isNameChar c = true := by
  decide +kernel

theorem mem_of_lookup {β : Type} {entries : List (String × β)} {key : String} {value : β}
    (found : entries.lookup key = some value) : (key, value) ∈ entries := by
  induction entries with
  | nil => cases found
  | cons entry entries ih =>
    obtain ⟨k, v⟩ := entry
    rw [List.lookup_cons] at found
    split at found
    next same =>
      cases found
      rw [eq_of_beq same]
      exact List.mem_cons_self ..
    · exact List.mem_cons_of_mem _ (ih found)

theorem isDeclaration_put {declarations : Declarations}
    (each : ∀ declaration ∈ declarations, IsDeclaration declaration) {property value : String}
    (isDeclaration : IsDeclaration (property, value)) :
    ∀ declaration ∈ Ordered.put declarations property value, IsDeclaration declaration := by
  induction declarations with
  | nil => simpa [Ordered.put] using isDeclaration
  | cons entry declarations ih =>
    obtain ⟨here, later⟩ := List.forall_mem_cons.mp each
    rw [Ordered.put]
    split
    next same => exact List.forall_mem_cons.mpr ⟨same ▸ isDeclaration, later⟩
    · exact List.forall_mem_cons.mpr ⟨here, ih later⟩

theorem isDeclaration_of_declarations {heap : Heap} {props : Entries} {breakpoint : Option String}
    {found : Declarations} (given : declarations heap props breakpoint = .ok found) :
    ∀ declaration ∈ found, IsDeclaration declaration := by
  obtain ⟨each, traversed, given⟩ := exists_of_bind_eq_ok given
  cases given
  intro declaration member
  rw [List.mem_filterMap] at member
  obtain ⟨_, inEach, rfl⟩ := member
  obtain ⟨property, known, declared⟩ := exists_of_mem_mapM traversed inEach
  unfold declare at declared
  split at declared
  · cases declared
  next raw =>
    obtain ⟨text, isAmount, declared⟩ := exists_of_bind_eq_ok declared
    have isText := Except.ok.inj declared
    obtain ⟨value, rfl, rfl⟩ := Option.map_eq_some_iff.mp isText
    exact ⟨isNameChar_properties property known, isValue_of_amount isAmount⟩

theorem isDeclaration_of_stateDeclarations {overrides : Entries} {found : Declarations}
    (given : stateDeclarations overrides = .ok found) :
    ∀ declaration ∈ found, IsDeclaration declaration := by
  obtain ⟨each, traversed, given⟩ := exists_of_bind_eq_ok given
  have plain : ∀ declaration ∈ each.filterMap id, IsDeclaration declaration := by
    intro declaration member
    rw [List.mem_filterMap] at member
    obtain ⟨_, inEach, rfl⟩ := member
    obtain ⟨entry, -, overridden⟩ := exists_of_mem_mapM traversed inEach
    unfold override at overridden
    split at overridden
    next prop =>
      split at overridden
      next =>
        obtain ⟨text, isAmount, overridden⟩ := exists_of_bind_eq_ok overridden
        have isText := Except.ok.inj overridden
        obtain ⟨value, rfl, isText⟩ := Option.bind_eq_some_iff.mp isText
        obtain ⟨property, known, rfl⟩ := Option.map_eq_some_iff.mp isText
        exact ⟨isNameChar_properties _ (mem_of_lookup known), isValue_of_amount isAmount⟩
      · cases overridden
    · cases overridden
  have parts : ∀ part ∈ transforms overrides, IsValue part ∧ part ≠ "" := by
    intro part member
    obtain ⟨⟨key, raw⟩, -, isPart⟩ := List.mem_filterMap.mp member
    dsimp only at isPart
    split at isPart
    next prop =>
      obtain ⟨unit, known, isPart⟩ := Option.bind_eq_some_iff.mp isPart
      exact isValue_of_transformPart (mem_of_lookup known) isPart
    · cases isPart
  have isFound := Except.ok.inj given
  subst isFound
  split
  · exact plain
  · have named : ∀ c ∈ "transform".toList, isNameChar c = true := by decide
    exact isDeclaration_put plain ⟨named, isValue_intercalate parts⟩

theorem isDeclaration_of_baseDeclarations {heap : Heap} {props : Entries} {found : Declarations}
    (given : baseDeclarations heap props = .ok found) :
    ∀ declaration ∈ found, IsDeclaration declaration := by
  obtain ⟨plain, declared, given⟩ := exists_of_bind_eq_ok given
  have each := isDeclaration_of_declarations declared
  have isFound := Except.ok.inj given
  subst isFound
  split
  next value isTransition =>
    have isValue : IsValue value := by
      obtain ⟨entries, -, isTransition⟩ := Option.bind_eq_some_iff.mp isTransition
      split at isTransition
      next prop =>
        split at isTransition
        · cases isTransition
        · exact isValue_of_safeText isTransition
      · cases isTransition
    have named : ∀ c ∈ "transition".toList, isNameChar c = true := by decide
    exact isDeclaration_put each ⟨named, isValue⟩
  · exact each

/-! ## Rules -/

/-- The pseudo-classes that a selector can end with; a rule that is in no state has none. -/
def selectorEnds : List String := "" :: stateClasses.map (·.2)

/-- A rule that a component with this selector can be given. -/
structure Rule.IsOf (selector : String) (rule : Rule) : Prop where
  selector : ∃ pseudo ∈ selectorEnds, rule.selector = selector ++ pseudo
  declarations : ∀ declaration ∈ rule.declarations, IsDeclaration declaration

theorem eq_of_rule? {selector : String} {declarations : Declarations} {minWidth : Option Int}
    {rule : Rule} (given : rule? selector declarations minWidth = some rule) :
    rule = ⟨selector, declarations, minWidth⟩ := by
  unfold rule? at given
  split at given
  · cases given
  · exact (Option.some.inj given).symm

section

variable {heap : Heap} {selector : String} {props : Entries} {rule : Rule}

theorem exists_of_mem_stateRules {options : Options} {states : List Rule}
    (areStates : stateRules heap options selector props = .ok states) (member : rule ∈ states) :
    ∃ state ∈ stateClasses, ∃ overrides declared,
      stateDeclarations overrides = .ok declared ∧
        rule = ⟨selector ++ state.2, declared, none⟩ := by
  unfold stateRules at areStates
  split at areStates
  next overridden =>
    obtain ⟨found, traversed, areStates⟩ := exists_of_bind_eq_ok areStates
    cases areStates
    obtain ⟨_, inFound, rfl⟩ := List.mem_filterMap.mp member
    obtain ⟨state, known, isRule⟩ := exists_of_mem_mapM traversed inFound
    unfold stateRule at isRule
    split at isRule
    · cases isRule
    next overrides _ =>
      obtain ⟨declared, isDeclared, isRule⟩ := exists_of_bind_eq_ok isRule
      exact ⟨state, known, overrides, declared, isDeclared, eq_of_rule? (Except.ok.inj isRule)⟩
  · cases areStates
    cases member

theorem exists_of_mem_breakpointRules {breakpoints : Ordered Int} {found : List (Option Rule)}
    (traversed : breakpoints.mapM (breakpointRule heap selector props) = .ok found)
    (member : rule ∈ found.filterMap id) :
    ∃ breakpoint ∈ breakpoints, ∃ declared,
      declarations heap props (some breakpoint.1) = .ok declared ∧
        rule = ⟨selector, declared, some breakpoint.2⟩ := by
  obtain ⟨_, inFound, rfl⟩ := List.mem_filterMap.mp member
  obtain ⟨breakpoint, known, isRule⟩ := exists_of_mem_mapM traversed inFound
  obtain ⟨declared, isDeclared, isRule⟩ := exists_of_bind_eq_ok isRule
  exact ⟨breakpoint, known, declared, isDeclared, eq_of_rule? (Except.ok.inj isRule)⟩

end

theorem sortedBreakpoints_default :
    sortedBreakpoints ({} : Options).breakpoints = [("tablet", 768), ("desktop", 1024)] := by
  cbv

/-- The rules of a component are made from its class and from usable values. -/
theorem isOf_of_componentRules {heap : Heap} {options : Options} {component : Component}
    {rules : List Rule} (given : componentRules heap options component = .ok rules) :
    ∀ rule ∈ rules, rule.IsOf ("." ++ className component.id options.classStart) := by
  have plain (name : String) : ∃ pseudo ∈ selectorEnds, name = name ++ pseudo :=
    ⟨"", List.mem_cons_self .., by simp⟩
  obtain ⟨base, isBase, given⟩ := exists_of_bind_eq_ok given
  obtain ⟨states, areStates, given⟩ := exists_of_bind_eq_ok given
  obtain ⟨breakpoints, areBreakpoints, given⟩ := exists_of_bind_eq_ok given
  have isRules := Except.ok.inj given
  subst isRules
  simp only [List.forall_mem_append]
  refine ⟨⟨fun rule member => ?_, fun rule member => ?_⟩, fun rule member => ?_⟩
  · obtain rfl := eq_of_rule? (Option.mem_toList.mp member)
    exact ⟨plain _, isDeclaration_of_baseDeclarations isBase⟩
  · obtain ⟨state, known, overrides, declared, isDeclared, rfl⟩ :=
      exists_of_mem_stateRules areStates member
    exact ⟨⟨state.2, List.mem_cons_of_mem _ (List.mem_map_of_mem known), rfl⟩,
      isDeclaration_of_stateDeclarations isDeclared⟩
  · unfold breakpointRules at areBreakpoints
    split at areBreakpoints
    · obtain ⟨found, traversed, areBreakpoints⟩ := exists_of_bind_eq_ok areBreakpoints
      cases areBreakpoints
      obtain ⟨breakpoint, -, declared, isDeclared, rfl⟩ :=
        exists_of_mem_breakpointRules traversed member
      exact ⟨plain _, isDeclaration_of_declarations isDeclared⟩
    · cases areBreakpoints
      cases member

end StaticSite.Style
