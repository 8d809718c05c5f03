import StaticSite.Proofs.RoundedRatio
import StaticSite.Proofs.SheetSafety
import StaticSite.Proofs.Sorting

/-!
# Rules that hold from a width on

A window sees the base rule of a component and the rules of the breakpoints up to its own width, one
after the other, and the last declaration of a property counts. What this gives can be told without
the rules: the widest breakpoint with a usable value decides, of equally wide ones the later in the
table; where there is none, the base value stays.
-/

namespace StaticSite.Style

variable {heap : Heap} {props : Entries} {prop selector property : String} {window : ℚ}

/-! ## The last declaration -/

/-- The selector of a component's base rule and of its breakpoints. -/
def ownSelector (options : Options) (component : Component) : String :=
  "." ++ className component.id options.classStart

/-- The rule holds for what has this selector, in a window of this width. -/
def Rule.applies (selector : String) (window : ℚ) (rule : Rule) : Bool :=
  rule.selector = selector && rule.minWidth.all fun width => (width : ℚ) ≤ window

def lastValue? (property : String) (declarations : Declarations) : Option String :=
  (declarations.filter (·.1 = property)).getLast?.map (·.2)

/-- What the rules that apply leave of a property, each overriding those before it. -/
def cascade? (selector property : String) (window : ℚ) (rules : List Rule) : Option String :=
  lastValue? property ((rules.filter (Rule.applies selector window)).flatMap (·.declarations))

theorem lastValue?_append (first second : Declarations) : lastValue? property (first ++ second) =
    (lastValue? property second).or (lastValue? property first) := by
  rw [lastValue?, List.filter_append, List.getLast?_append, Option.map_or]
  rfl

theorem lastValue?_eq_none_iff {declarations : Declarations} :
    lastValue? property declarations = none ↔ property ∉ Ordered.names declarations := by
  simp only [lastValue?, Ordered.names, Option.map_eq_none_iff, List.getLast?_eq_none_iff,
    List.filter_eq_nil_iff, decide_eq_true_eq, List.mem_map, not_exists, not_and]

/-- Where every property is set once, its value is the one that it is set to. -/
theorem lastValue?_filterMap {table : List (String × String)} (once : (table.map (·.2)).Nodup)
    (value? : String × String → Option String) {entry : String × String} (known : entry ∈ table) :
    lastValue? entry.2 (table.filterMap fun entry => (value? entry).map (entry.2, ·)) =
      value? entry := by
  have other {table : List (String × String)} (missing : entry.2 ∉ table.map (·.2)) :
      lastValue? entry.2 (table.filterMap fun entry => (value? entry).map (entry.2, ·)) = none := by
    rw [lastValue?_eq_none_iff]
    intro named
    simp only [Ordered.names, List.mem_map, List.mem_filterMap, Option.map_eq_some_iff] at named
    obtain ⟨_, ⟨found, member, value, -, rfl⟩, same⟩ := named
    exact missing (List.mem_map.mpr ⟨found, member, same⟩)
  induction table with
  | nil => cases known
  | cons first table ih =>
    rw [List.map_cons, List.nodup_cons] at once
    have split : first :: table = [first] ++ table := rfl
    rw [split, List.filterMap_append, lastValue?_append]
    rcases List.mem_cons.mp known with rfl | later
    · rw [other once.1, Option.none_or]
      cases found : value? entry <;> simp [lastValue?, found]
    · have different : first.2 ≠ entry.2 := by
        rintro same
        exact once.1 (same ▸ List.mem_map_of_mem later)
      rw [ih once.2 later]
      cases found : value? first <;> simp [lastValue?, found, different]

theorem lastValue?_put (declarations : Declarations) {other value : String}
    (different : other ≠ property) :
    lastValue? property (Ordered.put declarations other value) =
      lastValue? property declarations := by
  have kept : (Ordered.put declarations other value).filter (·.1 = property) =
      declarations.filter (·.1 = property) := by
    induction declarations with
    | nil => simp [Ordered.put, different]
    | cons entry declarations ih =>
      rw [Ordered.put]
      split
      next same => simp [same, different]
      · rw [List.filter_cons, List.filter_cons, ih]
  rw [lastValue?, kept, lastValue?]

theorem cascade?_append (first second : List Rule) :
    cascade? selector property window (first ++ second) =
      (cascade? selector property window second).or
        (cascade? selector property window first) := by
  rw [cascade?, List.filter_append, List.flatMap_append, lastValue?_append, cascade?, cascade?]

theorem cascade?_rule? (name : String) (declarations : Declarations) (minWidth : Option Int) :
    cascade? selector property window (rule? name declarations minWidth).toList =
      if name = selector ∧ ∀ width ∈ minWidth, (width : ℚ) ≤ window then
        lastValue? property declarations
      else none := by
  by_cases empty : declarations.isEmpty
  · rw [List.isEmpty_iff] at empty
    subst empty
    simp [rule?, cascade?, lastValue?]
  · simp only [rule?, if_neg empty, Option.toList_some, cascade?, List.filter_cons, List.filter_nil]
    by_cases applies : name = selector ∧ ∀ width ∈ minWidth, (width : ℚ) ≤ window
    · rw [if_pos applies, if_pos]
      · simp
      · cases minWidth <;> simpa [Rule.applies] using applies
    · rw [if_neg applies, if_neg]
      · simp [lastValue?]
      · cases minWidth <;> simpa [Rule.applies] using applies

/-- Rules with other selectors leave nothing. -/
theorem cascade?_eq_none {rules : List Rule} (others : ∀ rule ∈ rules, rule.selector ≠ selector) :
    cascade? selector property window rules = none := by
  have none : rules.filter (Rule.applies selector window) = [] := by
    rw [List.filter_eq_nil_iff]
    intro rule member
    simp [Rule.applies, others rule member]
  rw [cascade?, none]
  rfl

/-! ## What a prop gives -/

/-- The text of a usable value. -/
def text? (prop : String) (raw : Value) : Option String := (amount prop raw).toOption.join

/-- The usable value that a responsive prop has for a breakpoint. -/
def responsiveValue? (heap : Heap) (props : Entries) (prop breakpoint : String) :
    Option String := do
  let raw ← props.get? prop
  let entries ← responsive? heap raw
  text? prop (atBreakpoint entries breakpoint)

/-- The value of the base rule: of a responsive prop the one for the smallest breakpoint. -/
def baseValue? (heap : Heap) (props : Entries) (prop : String) : Option String := do
  let raw ← props.get? prop
  match responsive? heap raw with
  | some entries => text? prop (atBreakpoint entries smallest)
  | none => text? prop raw

/-- The breakpoint holds in a window of this width and the prop has a usable value for it. -/
def decides (heap : Heap) (props : Entries) (prop : String) (window : ℚ)
    (breakpoint : String × Int) : Bool :=
  (breakpoint.2 : ℚ) ≤ window && (responsiveValue? heap props prop breakpoint.1).isSome

/--
The value that a prop has in a window: that of the widest breakpoint that decides, the later one of
equally wide ones, or the base value where no breakpoint decides.
-/
def IsEffective (heap : Heap) (props : Entries) (breakpoints : Ordered Int) (prop : String)
    (window : ℚ) (value : String) : Prop :=
  (∃ breakpoint, IsLastGreatest (·.2) (decides heap props prop window) breakpoints breakpoint ∧
      responsiveValue? heap props prop breakpoint.1 = some value) ∨
    (∀ breakpoint ∈ breakpoints, ¬ decides heap props prop window breakpoint) ∧
      baseValue? heap props prop = some value

/-- What a prop gives in the base rule or at a breakpoint. -/
def given? (heap : Heap) (props : Entries) (prop : String) : Option String → Option String
  | none => baseValue? heap props prop
  | some breakpoint => responsiveValue? heap props prop breakpoint

theorem exists_responsiveValue?_of_decides {breakpoint : String × Int}
    (decided : decides heap props prop window breakpoint) :
    ∃ value, responsiveValue? heap props prop breakpoint.1 = some value := by
  rw [decides, Bool.and_eq_true] at decided
  exact Option.isSome_iff_exists.mp decided.2

theorem text?_eq {raw : Value} {found : Option String} (isAmount : amount prop raw = .ok found) :
    text? prop raw = found := by
  rw [text?, isAmount]
  rfl

theorem valueAt_eq (raw : Value) {breakpoint : Option String} (named : breakpoint ≠ some "") :
    valueAt heap breakpoint raw = match responsive? heap raw, breakpoint with
      | some entries, breakpoint => atBreakpoint entries (breakpoint.getD smallest)
      | none, some _ => .null
      | none, none => raw := by
  unfold valueAt
  cases responsive? heap raw <;> cases breakpoint
  · rfl
  · rfl
  · rfl
  next name =>
    split <;> simp_all

theorem declare_eq {entry : String × String} {breakpoint : Option String}
    (named : breakpoint ≠ some "") {found : Option (String × String)}
    (declared : declare heap props breakpoint entry = .ok found) :
    found = (given? heap props entry.1 breakpoint).map (entry.2, ·) := by
  unfold declare at declared
  split at declared
  next missing =>
    cases declared
    cases breakpoint <;> simp [given?, baseValue?, responsiveValue?, missing]
  next raw isRaw =>
    obtain ⟨text, isAmount, declared⟩ := exists_of_bind_eq_ok declared
    obtain rfl : text.map (entry.2, ·) = found := Except.ok.inj declared
    congr 1
    rw [← text?_eq isAmount, valueAt_eq raw named]
    cases responsive : responsive? heap raw <;> cases breakpoint <;>
      simp [given?, baseValue?, responsiveValue?, isRaw, responsive, text?_eq, amount]

theorem filterMap_of_mapM {α β ε : Type} {f : α → Except ε (Option β)} {g : α → Option β}
    {l : List α} {results : List (Option β)} (done : l.mapM f = .ok results)
    (same : ∀ a b, a ∈ l → f a = .ok b → b = g a) : results.filterMap id = l.filterMap g := by
  have each := (forall₂_of_mapM_eq_ok done).imp fun a b ⟨member, found⟩ => same a b member found
  clear done same
  induction each with
  | nil => rfl
  | cons here _ ih => rw [List.filterMap_cons, List.filterMap_cons, ih, ← here, id]

theorem declarations_eq {breakpoint : Option String} (named : breakpoint ≠ some "")
    {found : Declarations} (declared : declarations heap props breakpoint = .ok found) :
    found = properties.filterMap fun entry =>
      (given? heap props entry.1 breakpoint).map (entry.2, ·) := by
  obtain ⟨each, traversed, declared⟩ := exists_of_bind_eq_ok declared
  cases declared
  exact filterMap_of_mapM traversed fun entry _ _ => declare_eq named

theorem nodup_properties : (properties.map (·.2)).Nodup := by
  decide +kernel

theorem lastValue?_declarations {breakpoint : Option String} (named : breakpoint ≠ some "")
    {found : Declarations} (declared : declarations heap props breakpoint = .ok found)
    {entry : String × String} (known : entry ∈ properties) :
    lastValue? entry.2 found = given? heap props entry.1 breakpoint := by
  rw [declarations_eq named declared]
  exact lastValue?_filterMap nodup_properties
    (fun entry => given? heap props entry.1 breakpoint) known

/-! ## The rules of a component -/

section Rules

variable {options : Options} {entry : String × String} (known : entry ∈ properties)
include known

theorem cascade?_base {base : Declarations} (isBase : baseDeclarations heap props = .ok base) :
    cascade? selector entry.2 window (rule? selector base none).toList =
      baseValue? heap props entry.1 := by
  obtain ⟨plain, declared, isBase⟩ := exists_of_bind_eq_ok isBase
  have value := lastValue?_declarations (by simp) declared known
  have isBase := Except.ok.inj isBase
  subst isBase
  rw [cascade?_rule?, if_pos (by simp)]
  split
  next transition _ =>
    have different : "transition" ≠ entry.2 := by
      have all : ∀ entry ∈ properties, "transition" ≠ entry.2 := by decide +kernel
      exact all entry known
    rw [lastValue?_put plain different, value]
    rfl
  · exact value

theorem cascade?_breakpointRule {breakpoint : String × Int} (named : breakpoint.1 ≠ "")
    {found : Option Rule} (isRule : breakpointRule heap selector props breakpoint = .ok found) :
    cascade? selector entry.2 window found.toList =
      if decides heap props entry.1 window breakpoint then
        responsiveValue? heap props entry.1 breakpoint.1
      else none := by
  obtain ⟨declared, isDeclared, isRule⟩ := exists_of_bind_eq_ok isRule
  obtain rfl : rule? selector declared (some breakpoint.2) = found := Except.ok.inj isRule
  rw [cascade?_rule?, lastValue?_declarations (by simpa using named) isDeclared known, given?]
  unfold decides
  cases responsiveValue? heap props entry.1 breakpoint.1 <;> simp

/-- Of the breakpoints that decide, the last one does. -/
theorem cascade?_breakpoints {breakpoints : Ordered Int}
    (named : ∀ breakpoint ∈ breakpoints, breakpoint.1 ≠ "") {found : List (Option Rule)}
    (traversed : breakpoints.mapM (breakpointRule heap selector props) = .ok found) :
    cascade? selector entry.2 window (found.filterMap id) =
      (breakpoints.filter (decides heap props entry.1 window)).getLast?.bind fun breakpoint =>
        responsiveValue? heap props entry.1 breakpoint.1 := by
  have each := forall₂_of_mapM_eq_ok traversed
  replace each := each.imp fun breakpoint rule ⟨member, isRule⟩ =>
    show cascade? selector entry.2 window rule.toList = _ from
      cascade?_breakpointRule known (named breakpoint member) isRule
  clear traversed named
  induction each with
  | nil => rfl
  | @cons breakpoint rule breakpoints found here _ ih =>
    have split : (rule :: found).filterMap id = rule.toList ++ found.filterMap id := by
      cases rule <;> rfl
    rw [split, cascade?_append, ih, here, List.filter_cons]
    by_cases first : decides heap props entry.1 window breakpoint
    · rw [if_pos first, if_pos first, List.getLast?_cons]
      cases last : (breakpoints.filter (decides heap props entry.1 window)).getLast? with
      | none => rfl
      | some wider =>
        have decided := (List.mem_filter.mp (List.mem_of_getLast? last)).2
        obtain ⟨value, isValue⟩ := exists_responsiveValue?_of_decides decided
        simp [isValue]
    · rw [if_neg first, if_neg first, Option.or_none]

end Rules

theorem isEffective_iff {breakpoints : Ordered Int} {value : String} :
    (((sortedBreakpoints breakpoints).filter (decides heap props prop window)).getLast?.bind
      fun breakpoint => responsiveValue? heap props prop breakpoint.1).or
        (baseValue? heap props prop) = some value ↔ IsEffective heap props breakpoints prop window value := by
  cases last :
    ((sortedBreakpoints breakpoints).filter (decides heap props prop window)).getLast? with
  | none =>
    rw [List.getLast?_eq_none_iff, List.filter_eq_nil_iff] at last
    have none : ∀ breakpoint ∈ breakpoints, ¬ decides heap props prop window breakpoint :=
      fun breakpoint member => last breakpoint (List.mem_mergeSort.mpr member)
    constructor
    · exact fun isBase => .inr ⟨none, isBase⟩
    · rintro (⟨breakpoint, ⟨decided, before, after, rfl, -⟩, -⟩ | ⟨-, isBase⟩)
      · exact absurd decided (none breakpoint (by simp))
      · exact isBase
  | some breakpoint =>
    have greatest := getLast?_sort_iff.mp last
    obtain ⟨decided, before, after, rfl, -⟩ := id greatest
    obtain ⟨settled, isEntry⟩ := exists_responsiveValue?_of_decides decided
    simp only [Option.bind_some, isEntry, Option.some_or]
    constructor
    · rintro ⟨⟩
      exact .inl ⟨breakpoint, greatest, isEntry⟩
    · rintro (⟨other, also, isValue⟩ | ⟨none, -⟩)
      · obtain rfl : breakpoint = other :=
          Option.some.inj (last.symm.trans (getLast?_sort_iff.mpr also))
        rw [← isEntry, isValue]
      · exact absurd decided (none breakpoint (by simp))

theorem selector_ne_of_stateRules {options : Options} {states : List Rule}
    (areStates : stateRules heap options selector props = .ok states) :
    ∀ rule ∈ states, rule.selector ≠ selector ∧ rule.minWidth = none := by
  intro rule member
  obtain ⟨state, known, -, -, -, rfl⟩ := exists_of_mem_stateRules areStates member
  have pseudo : ∀ state ∈ stateClasses, state.2 ≠ "" := by decide
  exact ⟨by simpa using pseudo state known, rfl⟩

/-- The rules of a component from its base rule, its states and its breakpoints. -/
theorem exists_of_componentRules {options : Options} {component : Component} {rules : List Rule}
    (responsive : options.includeResponsive)
    (given : componentRules heap options component = .ok rules) :
    ∃ base states found,
      baseDeclarations heap (component.entries heap) = .ok base ∧
      stateRules heap options (ownSelector options component)
        (component.entries heap) = .ok states ∧
      (sortedBreakpoints options.breakpoints).mapM (breakpointRule heap
        (ownSelector options component) (component.entries heap)) = .ok found ∧
      rules = (rule? (ownSelector options component) base none).toList ++
        states ++ found.filterMap id := by
  obtain ⟨base, isBase, given⟩ := exists_of_bind_eq_ok given
  obtain ⟨states, areStates, given⟩ := exists_of_bind_eq_ok given
  obtain ⟨breakpoints, areBreakpoints, given⟩ := exists_of_bind_eq_ok given
  rw [breakpointRules, if_pos responsive] at areBreakpoints
  obtain ⟨found, traversed, areBreakpoints⟩ := exists_of_bind_eq_ok areBreakpoints
  cases areBreakpoints
  exact ⟨base, states, found, isBase, areStates, traversed, (Except.ok.inj given).symm⟩

section Component

variable {options : Options} {component : Component} {rules : List Rule}
  (responsive : options.includeResponsive)
  (named : ∀ breakpoint ∈ options.breakpoints, breakpoint.1 ≠ "")
  (given : componentRules heap options component = .ok rules)
  {entry : String × String} (known : entry ∈ properties)
include responsive named given known

theorem cascade?_componentRules {value : String} :
    cascade? (ownSelector options component) entry.2 window rules = some value ↔
      IsEffective heap (component.entries heap) options.breakpoints entry.1 window value := by
  obtain ⟨base, states, found, isBase, areStates, traversed, rfl⟩ :=
    exists_of_componentRules responsive given
  have sorted : ∀ breakpoint ∈ sortedBreakpoints options.breakpoints, breakpoint.1 ≠ "" :=
    fun breakpoint member => named breakpoint (List.mem_mergeSort.mp member)
  rw [cascade?_append, cascade?_append, cascade?_base known isBase,
    cascade?_eq_none fun rule member => (selector_ne_of_stateRules areStates rule member).1,
    cascade?_breakpoints known sorted traversed, Option.none_or]
  exact isEffective_iff

/-- A prop without a responsive value is declared in no rule of a breakpoint. -/
theorem notMem_names_of_breakpoint
    (plain : ∀ raw, (component.entries heap).get? entry.1 = some raw → responsive? heap raw = none)
    {rule : Rule} (member : rule ∈ rules) (wide : rule.minWidth.isSome) :
    entry.2 ∉ Ordered.names rule.declarations := by
  obtain ⟨base, states, found, isBase, areStates, traversed, rfl⟩ :=
    exists_of_componentRules responsive given
  rw [List.mem_append, List.mem_append, Option.mem_toList] at member
  rcases member with (isBase | isState) | isBreakpoint
  · rw [eq_of_rule? isBase] at wide
    cases wide
  · rw [(selector_ne_of_stateRules areStates rule isState).2] at wide
    cases wide
  · obtain ⟨breakpoint, member, declared, isDeclared, rfl⟩ :=
      exists_of_mem_breakpointRules traversed isBreakpoint
    have isNamed := named breakpoint (List.mem_mergeSort.mp member)
    rw [← lastValue?_eq_none_iff, lastValue?_declarations (by simpa using isNamed) isDeclared known,
      given?, responsiveValue?]
    cases isRaw : (component.entries heap).get? entry.1 with
    | none => rfl
    | some raw => simp [plain raw isRaw]

end Component

/-! ## Opacities past all doubles -/

/-- The step succeeds unless a number of this kind cannot be divided by a hundred. -/
def SucceedsUnless {α : Type} (isRead : Int → Prop) (step : Except Fault α) : Prop :=
  (∃ result, step = .ok result) ∨
    step = .error .quotientTooLarge ∧ ∃ n, isRead n ∧ 100 * (2 : ℚ) ^ 1023 ≤ n

namespace SucceedsUnless

variable {α β : Type} {isRead : Int → Prop}

theorem ok (result : α) : SucceedsUnless isRead (.ok result) := .inl ⟨result, rfl⟩

theorem bind {first : Except Fault α} {next : α → Except Fault β}
    (here : SucceedsUnless isRead first)
    (later : ∀ result, first = .ok result → SucceedsUnless isRead (next result)) :
    SucceedsUnless isRead (first >>= next) := by
  rcases here with ⟨result, rfl⟩ | ⟨rfl, large⟩
  · exact later result rfl
  · exact .inr ⟨rfl, large⟩

theorem mapM {f : α → Except Fault β} {l : List α}
    (each : ∀ a ∈ l, SucceedsUnless isRead (f a)) : SucceedsUnless isRead (l.mapM f) := by
  rcases mapM_ok_or_error f l with ⟨results, all, -⟩ | ⟨a, member, fault, failed, stopped⟩
  · exact .inl ⟨results, all⟩
  · rcases each a member with ⟨result, done⟩ | ⟨isFault, large⟩
    · rw [failed] at done
      cases done
    · rw [stopped, Except.error.inj (failed.symm.trans isFault)]
      exact .inr ⟨rfl, large⟩

end SucceedsUnless

/-- Only an opacity is divided, and only one past all doubles cannot be. -/
theorem succeedsUnless_amount {isRead : Int → Prop} {raw : Value}
    (covers : ∀ n, prop = "opacity" → raw = .int n → isRead n) :
    SucceedsUnless isRead (amount prop raw) := by
  unfold amount
  split
  next n =>
    split
    next isOpacity =>
      unfold opacityOfInt
      split
      · exact .ok _
      · have rounds : (Binary64.ofIntRatio n 100).IsRounding (n / (100 : Nat)) :=
          Binary64.isRounding_ofIntRatio n (by norm_num)
        split
        next negative past =>
          refine .inr ⟨rfl, n, covers n isOpacity rfl, ?_⟩
          rw [past] at rounds
          rcases rounds with ⟨v, isValue, -⟩ | ⟨-, high⟩
          · cases isValue
          · have positive : (0 : ℚ) ≤ n := by exact_mod_cast (by omega : 0 ≤ n)
            rw [abs_of_nonneg (by positivity), le_div_iff₀ (by norm_num)] at high
            rwa [Nat.cast_ofNat, mul_comm] at high
        · exact .ok _
    · split <;> exact .ok _
  next x =>
    split
    · exact .ok _
    · split <;> exact .ok _
  · exact .ok _
  · exact .ok _

/-- The integers that a component has for opacities in its rules. -/
inductive IsOpacity (heap : Heap) (options : Options) (props : Entries) (n : Int) : Prop
  | prop {raw : Value} {breakpoint : Option String}
    (isProp : props.get? "opacity" = some raw)
    (known : ∀ name ∈ breakpoint, name ∈ Ordered.names options.breakpoints)
    (isAt : valueAt heap breakpoint raw = .int n)
  | state {states overrides : Entries} {state : String × String}
    (asked : options.includeStates)
    (areStates : heap.dict? (props.get "states") = some states)
    (known : state ∈ stateClasses)
    (isState : heap.dict? (states.get state.1) = some overrides)
    (isOverride : (.str "opacity", .int n) ∈ overrides)

section Opacity

variable {options : Options}

theorem succeedsUnless_declarations {breakpoint : Option String}
    (known : ∀ name ∈ breakpoint, name ∈ Ordered.names options.breakpoints) :
    SucceedsUnless (IsOpacity heap options props) (declarations heap props breakpoint) := by
  refine .bind (.mapM fun entry member => ?_) fun _ _ => .ok _
  unfold declare
  split
  · exact .ok _
  next raw isRaw =>
    refine .bind (succeedsUnless_amount fun n isOpacity isAt => ?_) fun _ _ => .ok _
    exact .prop (isOpacity ▸ isRaw) known isAt

theorem succeedsUnless_stateRules :
    SucceedsUnless (IsOpacity heap options props) (stateRules heap options selector props) := by
  unfold stateRules
  split
  next states asked areStates =>
    refine .bind (.mapM fun state known => ?_) fun _ _ => .ok _
    unfold stateRule
    split
    · exact .ok _
    next overrides isState =>
      refine .bind (.bind (.mapM fun entry member => ?_) fun _ _ => .ok _) fun _ _ => .ok _
      unfold override
      split
      next prop isProp =>
        split
        · refine .bind (succeedsUnless_amount fun n isOpacity isAt => ?_) fun _ _ => .ok _
          refine .state asked areStates known isState ?_
          rwa [← isOpacity, ← isAt, ← isProp]
        · exact .ok _
      · exact .ok _
  · exact .ok _

theorem succeedsUnless_componentRules {component : Component} :
    SucceedsUnless (IsOpacity heap options (component.entries heap))
      (componentRules heap options component) := by
  refine .bind (.bind (succeedsUnless_declarations (by simp)) fun _ _ => .ok _) fun _ _ =>
    .bind succeedsUnless_stateRules fun _ _ => .bind ?_ fun _ _ => .ok _
  unfold breakpointRules
  split
  · refine .bind (.mapM fun breakpoint member => ?_) fun _ _ => .ok _
    refine .bind (succeedsUnless_declarations ?_) fun _ _ => .ok _
    rintro _ ⟨⟩
    exact List.mem_map_of_mem (List.mem_mergeSort.mp member)
  · exact .ok _

end Opacity

/-! ## The cascade -/

/-- The props of a panel whose width is responsive and whose height is not. -/
def panelHeap : Heap where
  objects := #[.dict [(.str "width", .ref 1), (.str "height", .int 5)],
    .dict [(.str "mobile", .int 1), (.str "tablet", .int 2), (.str "lg", .int 3)]]

def panel : Component := { id := "a", type := "Panel", props := .ref 0, zones := [] }

/-- Two equally wide breakpoints and a wider one that the panel has no width for. -/
def panelOptions : Options where
  breakpoints := [("desktop", 768), ("tablet", 768), ("md", 900)]

end StaticSite.Style
