import StaticSite.Proofs.Cascade
import StaticSite.Proofs.RendererShape
import StaticSite.Proofs.ScaledDimensions
import StaticSite.Renderer.Core

/-!
# Props that are refused

Almost every value of a prop is shown, replaced by a default, or passed over. What is left is
exactly this: an infinite heading level or spacer height, a container tag that has no hash, gallery
items that are a number, a truth value or a date, and an opacity whose hundredth is past all
doubles.
-/

namespace StaticSite

/-- The step stops with the fault if the condition holds, and has a result if it does not. -/
structure FailsExactly {α : Type} (fault : Fault) (condition : Prop) (step : Except Fault α) :
    Prop where
  fails : condition → step = .error fault
  succeeds : ¬ condition → ∃ result, step = .ok result

namespace FailsExactly

variable {α β : Type} {fault : Fault} {first second : Prop}

theorem ok (result : α) : FailsExactly fault False (.ok result) := ⟨False.elim, fun _ => ⟨result, rfl⟩⟩

theorem error : FailsExactly (α := α) fault True (.error fault) :=
  ⟨fun _ => rfl, fun never => absurd trivial never⟩

theorem congr {step : Except Fault α} (same : first ↔ second) (exact : FailsExactly fault first step) :
    FailsExactly fault second step :=
  ⟨fun holds => exact.fails (same.mpr holds), fun never => exact.succeeds (mt same.mp never)⟩

theorem bind {step : Except Fault α} {next : α → Except Fault β}
    (here : FailsExactly fault first step)
    (later : ∀ result, step = .ok result → FailsExactly fault second (next result)) :
    FailsExactly fault (first ∨ second) (step >>= next) := by
  by_cases stopped : first
  · constructor
    · intro _
      rw [here.fails stopped]
      rfl
    · intro never
      exact absurd (.inl stopped) never
  · obtain ⟨result, rfl⟩ := here.succeeds stopped
    apply (later result rfl).congr
    rw [or_iff_right stopped]

/-- What is made of the result of a step does not fail. -/
theorem map {step : Except Fault α} (here : FailsExactly fault first step) (f : α → β) :
    FailsExactly fault first (step.map f) := by
  constructor
  · intro stopped
    rw [here.fails stopped]
    rfl
  · intro never
    obtain ⟨result, rfl⟩ := here.succeeds never
    exact ⟨f result, rfl⟩

theorem bindOk {step : Except Fault α} (here : FailsExactly fault first step) (f : α → β) :
    FailsExactly fault first (step >>= fun result => .ok (f result)) := by
  apply (here.bind fun result _ => FailsExactly.ok (f result)).congr
  exact or_iff_left not_false

theorem mapM {f : α → Except Fault β} {condition : α → Prop} {l : List α}
    (each : ∀ a ∈ l, FailsExactly fault (condition a) (f a)) :
    FailsExactly fault (∃ a ∈ l, condition a) (l.mapM f) := by
  rcases mapM_ok_or_error f l with ⟨results, all, -, every⟩ | ⟨a, member, other, failed, stopped⟩
  · constructor
    · rintro ⟨a, member, holds⟩
      obtain ⟨b, done⟩ := every a member
      rw [(each a member).fails holds] at done
      cases done
    · exact fun _ => ⟨results, all⟩
  · have holds : condition a := by
      by_contra never
      obtain ⟨b, done⟩ := (each a member).succeeds never
      rw [failed] at done
      cases done
    have same : other = fault := Except.error.inj (failed.symm.trans ((each a member).fails holds))
    constructor
    · intro _
      rw [stopped, same]
    · intro never
      exact absurd ⟨a, member, holds⟩ never

end FailsExactly

theorem FailsExactly.eq_error_iff {α : Type} {fault other : Fault} {condition : Prop}
    {step : Except Fault α} (exact : FailsExactly fault condition step) :
    step = .error other ↔ condition ∧ other = fault := by
  by_cases holds : condition
  · rw [exact.fails holds, Except.error.injEq]
    constructor
    · exact fun same => ⟨holds, same.symm⟩
    · exact fun same => same.2.symm
  · obtain ⟨result, rfl⟩ := exact.succeeds holds
    exact iff_of_false nofun fun both => holds both.1

/-! ## Quotients past all doubles -/

namespace Binary64

variable {num den : Nat}

/-- From half a unit below an even integer on, a quotient below it is rounded up to it. -/
theorem roundQuotient_of_even {k : Nat} (positive : 0 < den) (even : k % 2 = 0)
    (above : (k : ℚ) - 1 / 2 ≤ num / den) (below : (num : ℚ) / den < k) :
    roundQuotient num den = k := by
  have dens : (0 : ℚ) < den := by exact_mod_cast positive
  have low : 2 * k * den ≤ 2 * num + den := by
    rw [le_div_iff₀ dens] at above
    have scaled : 2 * (k : ℚ) * den ≤ 2 * num + den := by linarith
    exact_mod_cast scaled
  have high : num < k * den := by
    rw [div_lt_iff₀ dens] at below
    exact_mod_cast below
  obtain ⟨j, rfl⟩ : ∃ j, k = j + 1 := by
    apply Nat.exists_eq_succ_of_ne_zero
    rintro rfl
    omega
  have quotient : num / den = j := by
    apply Nat.div_eq_of_lt_le
    · linarith
    · exact high
  have remainder : num % den + den * j = num := by
    rw [← quotient]
    exact Nat.mod_add_div num den
  rw [roundQuotient_eq, quotient, if_neg]
  have half : den ≤ 2 * (num % den) := by linarith
  omega

/-- The number half a unit past the largest double. -/
def overflow : ℚ := 2 ^ 1024 - 2 ^ 970

theorem overflow_eq : overflow = (2 ^ 53 - 1 / 2) * 2 ^ highestExponent := by
  have last : (2 : ℚ) ^ 971 = 2 * 2 ^ 970 := by rw [pow_succ, mul_comm]
  have carried : (2 : ℚ) ^ 1024 = 2 ^ 53 * 2 ^ 971 := by rw [← pow_add]
  have power : (2 : ℚ) ^ highestExponent = 2 ^ 971 := zpow_natCast 2 971
  rw [overflow, power, carried, last]
  generalize (2 : ℚ) ^ 970 = unit
  ring

theorem two_zpow_le {e f : Int} (le : e ≤ f) : (2 : ℚ) ^ e ≤ 2 ^ f :=
  zpow_le_zpow_right₀ (by norm_num) le

theorem highestUnit_pos : (0 : ℚ) < 2 ^ highestExponent := zpow_pos (by norm_num) _

theorem lt_overflow {q : ℚ} {e : Int} (below : q < 2 ^ (53 + e)) (less : e < highestExponent) :
    q < overflow := by
  have bound : q < 2 ^ 52 * 2 ^ highestExponent := by
    calc q
      _ < 2 ^ (53 + e) := below
      _ ≤ 2 ^ (52 + highestExponent) := two_zpow_le (by omega)
      _ = 2 ^ 52 * 2 ^ highestExponent := zpow_add₀ (by norm_num) _ _
  have unit := highestUnit_pos
  rw [overflow_eq]
  linarith

theorem overflow_le {q : ℚ} {e : Int} (above : 2 ^ (52 + e) ≤ q) (more : highestExponent < e) :
    overflow ≤ q := by
  have bound : 2 ^ 53 * 2 ^ highestExponent ≤ q := by
    calc (2 : ℚ) ^ 53 * 2 ^ highestExponent
      _ = 2 ^ (53 + highestExponent) := (zpow_add₀ (by norm_num) _ _).symm
      _ ≤ 2 ^ (52 + e) := two_zpow_le (by omega)
      _ ≤ q := above
  have unit := highestUnit_pos
  rw [overflow_eq]
  linarith

/-- A significand is rounded up to its limit from half a unit below it on. -/
theorem roundQuotient_eq_limit_iff (positive : 0 < den) (below : (num : ℚ) / den < 2 ^ 53) :
    roundQuotient num den = 2 ^ 53 ↔ (2 ^ 53 - 1 / 2 : ℚ) ≤ num / den := by
  constructor
  · intro carried
    have near := roundQuotient_near num positive
    rw [carried, abs_le] at near
    push_cast at near
    linarith
  · intro large
    apply roundQuotient_of_even positive (by norm_num)
    · push_cast
      exact large
    · push_cast
      exact below

/-- A ratio becomes an infinity from half a unit past the largest double on. -/
theorem ofRatio_eq_infinity_iff (negative : Bool) (nonzero : num ≠ 0) (positive : 0 < den) :
    (∃ sign, ofRatio negative num den = .infinity sign) ↔ overflow ≤ (num : ℚ) / den := by
  obtain ⟨dens, scaled⟩ := scaleRatio_spec num positive (ratioExponent num den)
  obtain ⟨lowest, below, above⟩ := hasExponent_ratioExponent nonzero positive
  rw [ofRatio, if_neg nonzero]
  dsimp only
  generalize (scaleRatio num den (ratioExponent num den)).1 = a at *
  generalize (scaleRatio num den (ratioExponent num den)).2 = b at *
  generalize ratioExponent num den = e at *
  generalize (num : ℚ) / den = q at *
  have decided (p : Prop) [Decidable p] (m : Nat) (f : Int) :
      (∃ sign, (if p then infinity negative else finite negative m f) = infinity sign) ↔ p := by
    split <;> simp_all
  rw [decided]
  rcases lt_trichotomy e highestExponent with less | rfl | more
  · apply iff_of_false
    · split <;> omega
    · exact not_le.mpr (lt_overflow below less)
  · -- the exponent is raised when the significand is rounded up to its limit
    have carries : (highestExponent < if roundQuotient a b = Nat.pow 2 53 then highestExponent + 1
        else highestExponent) ↔ roundQuotient a b = 2 ^ 53 := by
      rw [Nat.pow_eq]
      split <;> omega
    have inside : (a : ℚ) / b < 2 ^ 53 := by
      rw [scaled, div_lt_iff₀ highestUnit_pos]
      exact below.trans_eq (zpow_add₀ (by norm_num) _ _)
    rw [carries, roundQuotient_eq_limit_iff dens inside, scaled, le_div_iff₀ highestUnit_pos,
      overflow_eq]
  · apply iff_of_true
    · split <;> omega
    · apply overflow_le (above.resolve_left _) more
      intro isLowest
      unfold lowestExponent at isLowest
      unfold highestExponent at more
      omega

end Binary64

namespace Style

variable {heap : Heap} {options : Options} {props : Entries} {prop selector : String}

/-! ## Opacities -/

/-- The hundredth of an integer is past all doubles. -/
def IsPastPercent (n : Int) : Prop := 100 * (2 ^ 1024 - 2 ^ 970) ≤ n

theorem one_lt_of_isPastPercent {n : Int} (past : IsPastPercent n) : 1 < n := by
  have bound : (1 : Int) < 100 * (2 ^ 1024 - 2 ^ 970) := by decide +kernel
  exact bound.trans_le past

theorem isPastPercent_iff {n : Int} : IsPastPercent n ↔ Binary64.overflow ≤ (n : ℚ) / 100 := by
  rw [le_div_iff₀ (by norm_num), mul_comm, Binary64.overflow, IsPastPercent]
  constructor <;> intro past <;> exact_mod_cast past

theorem opacityOfInt_fails (n : Int) :
    FailsExactly .quotientTooLarge (IsPastPercent n) (opacityOfInt n) := by
  unfold opacityOfInt
  by_cases small : n ≤ 1
  · rw [if_pos small]
    apply (FailsExactly.ok _).congr
    apply iff_of_false not_false
    exact fun past => absurd (one_lt_of_isPastPercent past) (by omega)
  · rw [if_neg small]
    have isInfinite := Binary64.ofRatio_eq_infinity_iff false (by omega : n.natAbs ≠ 0)
      (by norm_num : 0 < 100)
    have magnitude : ((n.natAbs : ℕ) : ℚ) / (100 : ℕ) = n / 100 := by
      rw [Nat.cast_natAbs, abs_of_pos (by omega)]
      norm_num
    rw [magnitude, ← isPastPercent_iff] at isInfinite
    have ratio : Binary64.ofIntRatio n 100 = Binary64.ofRatio false n.natAbs 100 := by
      rw [Binary64.ofIntRatio, decide_eq_false (by omega)]
    rw [ratio]
    split
    next sign found =>
      apply FailsExactly.error.congr
      exact iff_of_true trivial (isInfinite.mp ⟨sign, found⟩)
    next finite =>
      apply (FailsExactly.ok _).congr
      apply iff_of_false not_false
      intro past
      obtain ⟨sign, found⟩ := isInfinite.mpr past
      exact finite sign found

/-- Only an integer opacity is divided. -/
theorem amount_fails (prop : String) (raw : Value) :
    FailsExactly .quotientTooLarge (prop = "opacity" ∧ ∃ n, raw = .int n ∧ IsPastPercent n)
      (amount prop raw) := by
  have plain (text : Option String) (other : ∀ n, prop = "opacity" → raw ≠ .int n) :
      FailsExactly .quotientTooLarge (prop = "opacity" ∧ ∃ n, raw = .int n ∧ IsPastPercent n)
        (.ok text) := by
    apply (FailsExactly.ok text).congr
    apply iff_of_false not_false
    rintro ⟨isOpacity, n, isInt, -⟩
    exact other n isOpacity isInt
  unfold amount
  split
  next n =>
    split
    next isOpacity =>
      apply ((opacityOfInt_fails n).map some).congr
      simp [isOpacity]
    next other =>
      split <;> exact plain _ fun _ isOpacity => absurd isOpacity other
  next x =>
    split
    · exact plain _ nofun
    · split <;> exact plain _ nofun
  · exact plain _ nofun
  next notInt _ _ => exact plain _ fun n _ => notInt n

/-- The integers that are read as opacities when the rules of a component are made. -/
inductive IsReadOpacity (heap : Heap) (options : Options) (props : Entries) (n : Int) : Prop
  | base {raw : Value} (isProp : props.get? "opacity" = some raw)
    (isBase : valueAt heap none raw = .int n)
  | breakpoint {raw : Value} {breakpoint : String × Int} (asked : options.includeResponsive)
    (known : breakpoint ∈ options.breakpoints) (isProp : props.get? "opacity" = some raw)
    (isAt : valueAt heap (some breakpoint.1) raw = .int n)
  | state {states overrides : Entries} {state : String × String} (asked : options.includeStates)
    (areStates : heap.dict? (props.get "states") = some states) (known : state ∈ stateClasses)
    (isState : heap.dict? (states.get state.1) = some overrides)
    (isOverride : (.str "opacity", .int n) ∈ overrides)

/-- The opacity that the props give at a breakpoint, or in the base rule, is past all doubles. -/
def HasPastOpacity (heap : Heap) (props : Entries) (breakpoint : Option String) : Prop :=
  ∃ raw n, props.get? "opacity" = some raw ∧ valueAt heap breakpoint raw = .int n ∧ IsPastPercent n

theorem declarations_fails (heap : Heap) (props : Entries) (breakpoint : Option String) :
    FailsExactly .quotientTooLarge (HasPastOpacity heap props breakpoint)
      (declarations heap props breakpoint) := by
  have each (entry : String × String) : FailsExactly .quotientTooLarge
      (entry.1 = "opacity" ∧ HasPastOpacity heap props breakpoint)
      (declare heap props breakpoint entry) := by
    unfold declare
    split
    next missing =>
      apply (FailsExactly.ok _).congr
      apply iff_of_false not_false
      rintro ⟨isOpacity, raw, n, isProp, -⟩
      rw [isOpacity, isProp] at missing
      cases missing
    next raw isRaw =>
      apply ((amount_fails entry.1 (valueAt heap breakpoint raw)).bindOk _).congr
      apply and_congr_right
      intro isOpacity
      rw [isOpacity] at isRaw
      simp [HasPastOpacity, isRaw]
  apply ((FailsExactly.mapM fun entry _ => each entry).bindOk _).congr
  constructor
  · rintro ⟨entry, -, -, past⟩
    exact past
  · intro past
    exact ⟨("opacity", "opacity"), by decide, rfl, past⟩

theorem override_fails (entry : Value × Value) :
    FailsExactly .quotientTooLarge (∃ n, entry = (.str "opacity", .int n) ∧ IsPastPercent n)
      (override entry) := by
  have skipped (found : Option (String × String)) (other : ∀ n, entry ≠ (.str "opacity", .int n)) :
      FailsExactly .quotientTooLarge (∃ n, entry = (.str "opacity", .int n) ∧ IsPastPercent n)
        (.ok found) := by
    apply (FailsExactly.ok found).congr
    apply iff_of_false not_false
    rintro ⟨n, isEntry, -⟩
    exact other n isEntry
  obtain ⟨key, value⟩ := entry
  unfold override
  dsimp only
  split
  next prop =>
    split
    · apply ((amount_fails prop value).bindOk _).congr
      simp [Prod.ext_iff, and_assoc]
    next unknown =>
      apply skipped
      rintro n ⟨⟩
      exact unknown (by decide)
  next notText =>
    apply skipped
    rintro n ⟨⟩
    exact notText _ rfl

theorem stateRule_fails (heap : Heap) (selector : String) (states : Entries)
    (state : String × String) :
    FailsExactly .quotientTooLarge
      (∃ overrides n, heap.dict? (states.get state.1) = some overrides ∧
        (.str "opacity", .int n) ∈ overrides ∧ IsPastPercent n)
      (stateRule heap selector states state) := by
  unfold stateRule
  split
  next missing =>
    apply (FailsExactly.ok _).congr
    simp [missing]
  next overrides isState =>
    have declared := (FailsExactly.mapM fun entry (_ : entry ∈ overrides) => override_fails entry)
    apply ((declared.bindOk _).bindOk _).congr
    simp only [isState, Option.some_inj]
    constructor
    · rintro ⟨entry, member, n, rfl, past⟩
      exact ⟨overrides, n, rfl, member, past⟩
    · rintro ⟨_, n, rfl, member, past⟩
      exact ⟨_, member, n, rfl, past⟩

theorem stateRules_fails (heap : Heap) (options : Options) (selector : String) (props : Entries) :
    FailsExactly .quotientTooLarge
      (options.includeStates ∧ ∃ states, heap.dict? (props.get "states") = some states ∧
        ∃ state ∈ stateClasses, ∃ overrides n, heap.dict? (states.get state.1) = some overrides ∧
          (.str "opacity", .int n) ∈ overrides ∧ IsPastPercent n)
      (stateRules heap options selector props) := by
  unfold stateRules
  split
  next states asked areStates =>
    have each := FailsExactly.mapM fun state (_ : state ∈ stateClasses) =>
      stateRule_fails heap selector states state
    apply (each.bindOk _).congr
    simp [asked, areStates]
  next never =>
    apply (FailsExactly.ok _).congr
    apply iff_of_false not_false
    rintro ⟨asked, states, areStates, -⟩
    exact never states asked areStates

theorem breakpointRules_fails (heap : Heap) (options : Options) (selector : String)
    (props : Entries) :
    FailsExactly .quotientTooLarge
      (options.includeResponsive ∧
        ∃ breakpoint ∈ options.breakpoints, HasPastOpacity heap props (some breakpoint.1))
      (breakpointRules heap options selector props) := by
  unfold breakpointRules
  split
  next asked =>
    have each := FailsExactly.mapM
      fun breakpoint (_ : breakpoint ∈ sortedBreakpoints options.breakpoints) =>
        (declarations_fails heap props (some breakpoint.1)).bindOk fun found =>
          rule? selector found (some breakpoint.2)
    apply (each.bindOk _).congr
    simp [asked, sortedBreakpoints]
  next never =>
    apply (FailsExactly.ok _).congr
    simp [never]

theorem componentRules_fails (heap : Heap) (options : Options) (component : Component) :
    FailsExactly .quotientTooLarge
      (∃ n, IsReadOpacity heap options (component.entries heap) n ∧ IsPastPercent n)
      (componentRules heap options component) := by
  have base : FailsExactly .quotientTooLarge (HasPastOpacity heap (component.entries heap) none)
      (baseDeclarations heap (component.entries heap)) :=
    (declarations_fails heap (component.entries heap) none).bindOk _
  apply (base.bind fun _ _ => (stateRules_fails heap options _ _).bind fun _ _ =>
    (breakpointRules_fails heap options _ _).bindOk _).congr
  constructor
  · rintro (⟨raw, n, isProp, isBase, past⟩ |
      ⟨asked, states, areStates, state, known, overrides, n, isState, isOverride, past⟩ |
      ⟨asked, breakpoint, known, raw, n, isProp, isAt, past⟩)
    · exact ⟨n, .base isProp isBase, past⟩
    · exact ⟨n, .state asked areStates known isState isOverride, past⟩
    · exact ⟨n, .breakpoint asked known isProp isAt, past⟩
  · rintro ⟨n, isRead, past⟩
    cases isRead with
    | base isProp isBase => exact .inl ⟨_, n, isProp, isBase, past⟩
    | breakpoint asked known isProp isAt =>
      exact .inr (.inr ⟨asked, _, known, _, n, isProp, isAt, past⟩)
    | state asked areStates known isState isOverride =>
      exact .inr (.inl ⟨asked, _, areStates, _, known, _, n, isState, isOverride, past⟩)

theorem componentText_fails (heap : Heap) (options : Options) (component : Component) :
    FailsExactly .quotientTooLarge
      (∃ n, IsReadOpacity heap options (component.entries heap) n ∧ IsPastPercent n)
      (componentText heap options component) := by
  have written (rules : List Rule) : FailsExactly .quotientTooLarge False
      (if rules.isEmpty then .ok "" else
        let text := "\n".intercalate (rules.map Rule.text)
        .ok (if options.annotate then annotation component ++ text else text)) := by
    split <;> exact .ok _
  apply ((componentRules_fails heap options component).bind fun rules _ => written rules).congr
  exact or_iff_left not_false

end Style

namespace Renderer

open Markup (Node)

variable {heap : Heap} {props : Entries} {children : Children} {context : Context}

/-! ## Renderers -/

/-- The integer that a value denotes: a fraction is cut off, and a text is read. -/
def denoted? : Value → Option Int
  | .bool b => some (if b then 1 else 0)
  | .int n => some n
  | .float x => x.truncate?
  | .str s => Number.readInt? s
  | _ => none

def IsInfinite (value : Option Value) : Prop :=
  ∃ negative, value = some (.float (.infinity negative))

/-- Only an infinity is refused. -/
theorem integerOr_fails (fallback : Int) (value : Option Value) :
    FailsExactly .infiniteInteger (IsInfinite value) (integerOr fallback value) := by
  have finite {n : Int} (other : ∀ negative, value ≠ some (.float (.infinity negative))) :
      FailsExactly .infiniteInteger (IsInfinite value) (.ok n) := by
    apply (FailsExactly.ok n).congr
    exact iff_of_false not_false fun ⟨negative, same⟩ => other negative same
  unfold integerOr
  split
  · exact finite nofun
  · exact finite nofun
  next negative => exact FailsExactly.error.congr (iff_of_true trivial ⟨negative, rfl⟩)
  next isFinite => exact finite fun negative same => isFinite negative (by simpa using same)
  · exact finite nofun
  next other _ => exact finite fun negative same => other _ same

/-- What denotes no integer is replaced by the default. -/
theorem eq_of_integerOr {fallback n : Int} {value : Option Value}
    (given : integerOr fallback value = .ok n) : n = (value.bind denoted?).getD fallback := by
  rcases value with _ | value
  · exact (Except.ok.inj given).symm
  cases value with
  | float x =>
    cases x with
    | infinity => cases given
    | _ => exact (Except.ok.inj given).symm
  | _ => exact (Except.ok.inj given).symm

theorem headingNode_fails (heap : Heap) (props : Entries) (context : Context) :
    FailsExactly .infiniteInteger (IsInfinite (props.get? "level"))
      (headingNode heap props context) :=
  ((integerOr_fails 2 (props.get? "level")).bindOk _).bindOk _

theorem spacerNode_fails (props : Entries) (context : Context) :
    FailsExactly .infiniteInteger (IsInfinite (props.get? "height")) (spacerNode props context) :=
  (integerOr_fails 32 (props.get? "height")).bindOk _

/-- Only a value without a hash is refused; an empty set is no tag. -/
theorem containerTag_eq_error_iff {fault : Fault} :
    containerTag heap props = .error fault ↔
      props.get "tag" ≠ .unknown ∧
        ∃ kind, heap.unhashable? (props.get "tag") = some kind ∧ fault = .notHashable kind := by
  unfold containerTag
  split
  next isText => simp [isText, Heap.unhashable?]
  next isSet => simp [isSet]
  next noSet =>
    split
    next kind isMutable =>
      constructor
      · rintro ⟨⟩
        exact ⟨noSet, kind, isMutable, rfl⟩
      · rintro ⟨-, other, isOther, rfl⟩
        rw [isMutable] at isOther
        cases isOther
        rfl
    next isHashed => simp [isHashed]

/-- The kinds of values that are no text and have no items. -/
def scalarKinds : List Kind := [.bool, .int, .float, .date, .datetime, .time]

/-- Only a scalar that counts as present has no items. -/
theorem galleryItems_eq_error_iff {value : Value} {fault : Fault} :
    galleryItems heap value = .error fault ↔
      heap.isTruthy value ∧ heap.kind value ∈ scalarKinds ∧ fault = .notIterable (heap.kind value) := by
  unfold galleryItems
  by_cases filled : heap.isTruthy value
  · cases value with
    | null => cases filled
    | unknown => cases filled
    | ref id =>
      rcases found : heap.container? id with _ | ⟨entries | items⟩ <;>
        simp [filled, found, Heap.kind, scalarKinds]
    | _ => simp [filled, Heap.kind, scalarKinds, eq_comm]
  · simp [filled]

/-- What the renderer of a component type does not take for its props, and with which fault. -/
def Refuses (heap : Heap) (props : Entries) (fault : Fault) : String → Prop
  | "Heading" => IsInfinite (props.get? "level") ∧ fault = .infiniteInteger
  | "Spacer" => IsInfinite (props.get? "height") ∧ fault = .infiniteInteger
  | "Container" => props.get "tag" ≠ .unknown ∧
      ∃ kind, heap.unhashable? (props.get "tag") = some kind ∧ fault = .notHashable kind
  | "Gallery" => heap.isTruthy (props.get "items") ∧
      heap.kind (props.get "items") ∈ scalarKinds ∧
      fault = .notIterable (heap.kind (props.get "items"))
  | _ => False

theorem bindOk_eq_error_iff {α β : Type} {fault : Fault} {step : Except Fault α} (f : α → β) :
    (step >>= fun result => .ok (f result)) = .error fault ↔ step = .error fault := by
  cases step with
  | error other =>
    simp only [bind, Except.bind, Except.error.injEq]
  | ok result => exact iff_of_false nofun nofun

theorem render_eq_error_iff {type : String} {renderer : Renderer} (listed : (type, renderer) ∈ core)
    {fault : Fault} :
    renderer.render heap props children context = .error fault ↔ Refuses heap props fault type := by
  cases listed using core_cases with
  | container => exact (bindOk_eq_error_iff _).trans containerTag_eq_error_iff
  | heading => exact (headingNode_fails heap props context).eq_error_iff
  | gallery => exact (bindOk_eq_error_iff _).trans galleryItems_eq_error_iff
  | spacer => exact (spacerNode_fails props context).eq_error_iff
  | _ => exact iff_of_false nofun not_false

/-- A heading is of the level that its prop denotes, or of the second, within one to six. -/
theorem exists_of_headingNode {node : Node}
    (rendered : headingNode heap props context = .ok node) :
    ∃ level : Int, 1 ≤ level ∧ level ≤ 6 ∧
      level = min (max (((props.get? "level").bind denoted?).getD 2) 1) 6 ∧
      node = .element ("h" ++ toString level) [classOf context]
        [.text (propText heap props "text" "")] := by
  obtain ⟨level, isLevel, built⟩ := exists_of_bind_eq_ok rendered
  obtain ⟨n, isInteger, clamped⟩ := exists_of_bind_eq_ok isLevel
  cases built
  cases clamped
  refine ⟨_, ?_, ?_, by rw [eq_of_integerOr isInteger], rfl⟩
  · omega
  · omega

/-! ## Components -/

/-- A heading of a level past the sixth and with an opacity past all doubles. -/
def bannerHeap : Heap where
  objects := #[.dict [(.str "level", .str " 9 "), (.str "opacity", .int (10 ^ 400))]]

def banner : Component := { id := "b", type := "Heading", props := .ref 0, zones := [] }

def bannerContext : Context := { id := "b", type := "Heading", className := "dc-b", minify := false }

end Renderer

end StaticSite
