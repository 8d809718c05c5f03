import Mathlib.Data.List.Infix
import StaticSite.Proofs.Outcome
import StaticSite.Text.Digit

/-!
# What readers leave

A reader takes the start of what it is given and leaves an end of it, or it fails for a reason that
it was given. Readers in a row do the same, so that the faults of a whole document are read off what
its smallest readers refuse.
-/

namespace StaticSite

/-- A step fails in the allowed ways only. -/
def FailsWithin {ε α : Type} (allowed : ε → Prop) (step : Except ε α) : Prop :=
  ∀ fault, step = .error fault → allowed fault

namespace FailsWithin

variable {ε α β : Type} {allowed : ε → Prop}

theorem ok (value : α) : FailsWithin allowed (.ok value : Except ε α) := nofun

theorem error {fault : ε} (isAllowed : allowed fault) :
    FailsWithin allowed (.error fault : Except ε α) := by
  intro other same
  cases same
  exact isAllowed

theorem bind {first : Except ε α} {next : α → Except ε β} (here : FailsWithin allowed first)
    (later : ∀ value, first = .ok value → FailsWithin allowed (next value)) :
    FailsWithin allowed (first >>= next) := by
  intro fault failed
  rcases error_of_bind_eq_error failed with atFirst | ⟨value, done, atNext⟩
  · exact here fault atFirst
  · exact later value done fault atNext

theorem map {f : α → β} {first : Except ε α} (here : FailsWithin allowed first) :
    FailsWithin allowed (first.map f) :=
  fun fault failed => here fault (error_of_map_eq_error failed)

/-- The last step only makes something of what the one before has found. -/
theorem bindOk {f : α → β} {first : Except ε α} (here : FailsWithin allowed first) :
    FailsWithin allowed (first >>= fun value => .ok (f value)) :=
  here.bind fun value _ => .ok (f value)

theorem ite {condition : Prop} [Decidable condition] {yes no : Except ε α}
    (first : FailsWithin allowed yes) (second : FailsWithin allowed no) :
    FailsWithin allowed (if condition then yes else no) := by
  split
  · exact first
  · exact second

theorem mapM {f : α → Except ε β} {l : List α} (each : ∀ a ∈ l, FailsWithin allowed (f a)) :
    FailsWithin allowed (l.mapM f) := by
  intro fault failed
  obtain ⟨a, member, here⟩ := exists_of_mapM_eq_error failed
  exact each a member fault here

theorem foldlM {f : β → α → Except ε β} {l : List α} {start : β}
    (each : ∀ b, ∀ a ∈ l, FailsWithin allowed (f b a)) :
    FailsWithin allowed (l.foldlM f start) := by
  intro fault failed
  obtain ⟨a, member, b, here⟩ := exists_of_foldlM_eq_error failed
  exact each b a member fault here

theorem imp {other : ε → Prop} {step : Except ε α} (within : FailsWithin allowed step)
    (wider : ∀ fault, allowed fault → other fault) : FailsWithin other step :=
  fun fault failed => wider fault (within fault failed)

end FailsWithin

/-- What readers of one kind of input may leave, and what may be wrong with an input. -/
structure Regime (σ ε : Type) where
  ends : σ → σ → Prop
  fails : σ → ε → Prop
  refl (s : σ) : ends s s
  trans {a b c : σ} : ends a b → ends b c → ends a c
  inherits {rest s : σ} {fault : ε} : ends rest s → fails rest fault → fails s fault

namespace Regime

variable {σ ε α β : Type} {regime : Regime σ ε} {s rest : σ}

/-- An outcome leaves an end of the input, or fails for what is wrong with it. -/
def Admits (regime : Regime σ ε) (s : σ) : Except ε (α × σ) → Prop
  | .ok (_, rest) => regime.ends rest s
  | .error fault => regime.fails s fault

theorem Admits.within {outcome : Except ε (α × σ)} (admits : regime.Admits s outcome) :
    FailsWithin (regime.fails s) outcome := by
  rintro fault rfl
  exact admits

theorem Admits.mono (ends : regime.ends rest s) {outcome : Except ε (α × σ)}
    (admits : regime.Admits rest outcome) : regime.Admits s outcome := by
  cases outcome with
  | error fault => exact regime.inherits ends admits
  | ok found => exact regime.trans admits ends

theorem Admits.bind {first : Except ε (α × σ)} {next : α × σ → Except ε (β × σ)}
    (admits : regime.Admits s first)
    (onward : ∀ value rest, first = .ok (value, rest) → regime.Admits rest (next (value, rest))) :
    regime.Admits s (first >>= next) := by
  cases same : first with
  | error fault =>
    rw [same] at admits
    exact admits
  | ok found =>
    rw [same] at admits
    exact (onward found.1 found.2 same).mono admits

/-- A step that reads nothing only has to fail for what is wrong with the input. -/
theorem Admits.bindOf {first : Except ε α} {next : α → Except ε (β × σ)}
    (refused : ∀ fault, first = .error fault → regime.fails s fault)
    (onward : ∀ value, first = .ok value → regime.Admits s (next value)) :
    regime.Admits s (first >>= next) := by
  cases same : first with
  | error fault => exact refused fault same
  | ok value => exact onward value same

/-- A step that finds nothing but the rest. -/
theorem Admits.bindRest {first : Except ε σ} {next : σ → Except ε (β × σ)}
    (refused : ∀ fault, first = .error fault → regime.fails s fault)
    (ends : ∀ rest, first = .ok rest → regime.ends rest s)
    (onward : ∀ rest, first = .ok rest → regime.Admits rest (next rest)) :
    regime.Admits s (first >>= next) :=
  Admits.bindOf refused fun rest same => (onward rest same).mono (ends rest same)

/-- The last step only makes something of what the one before has found. -/
theorem Admits.bindOk {f : α × σ → β} {first : Except ε (α × σ)} (admits : regime.Admits s first) :
    regime.Admits s (first >>= fun found => .ok (f found, found.2)) :=
  admits.bind fun _ rest _ => regime.refl rest

theorem Admits.map {f : α → β} {first : Except ε (α × σ)} (admits : regime.Admits s first) :
    regime.Admits s (first.map fun found => (f found.1, found.2)) := by
  cases first with
  | error fault => exact admits
  | ok found => exact admits

theorem Admits.ite {condition : Prop} [Decidable condition] {yes no : Except ε (α × σ)}
    (first : regime.Admits s yes) (second : regime.Admits s no) :
    regime.Admits s (if condition then yes else no) := by
  split
  · exact first
  · exact second

end Regime

/-- A reader that finds something leaves an end of its input. -/
def LeavesBy {σ α : Type} (ends : σ → σ → Prop) (s : σ) (found : Option (α × σ)) : Prop :=
  ∀ value rest, found = some (value, rest) → ends rest s

namespace LeavesBy

variable {σ α β : Type} {ends : σ → σ → Prop} {s rest : σ}

theorem none : LeavesBy ends s (none : Option (α × σ)) := nofun

theorem some {value : α} (ending : ends rest s) : LeavesBy ends s (some (value, rest)) := by
  intro _ _ found
  cases found
  exact ending

/-- A step that leaves nothing of its own may use whatever it has found. -/
theorem bindOf {first : Option α} {next : α → Option (β × σ)}
    (onward : ∀ value, first = .some value → LeavesBy ends s (next value)) :
    LeavesBy ends s (first >>= next) := by
  cases same : first with
  | none => exact LeavesBy.none
  | some value => exact onward value same

variable [IsTrans σ ends]

theorem mono (ending : ends rest s) {found : Option (α × σ)} (leaves : LeavesBy ends rest found) :
    LeavesBy ends s found :=
  fun value after same => IsTrans.trans after rest s (leaves value after same) ending

theorem bind {first : Option (α × σ)} {next : α × σ → Option (β × σ)}
    (leaves : LeavesBy ends s first)
    (onward : ∀ value rest, LeavesBy ends rest (next (value, rest))) :
    LeavesBy ends s (first >>= next) :=
  bindOf fun found same => (onward found.1 found.2).mono (leaves found.1 found.2 same)

/-- A step that finds nothing but the rest. -/
theorem bindRest {first : Option σ} {next : σ → Option (β × σ)}
    (ending : ∀ rest, first = .some rest → ends rest s)
    (onward : ∀ rest, LeavesBy ends rest (next rest)) : LeavesBy ends s (first >>= next) :=
  bindOf fun rest same => (onward rest).mono (ending rest same)

end LeavesBy

/-- Readers of characters leave an end of their text. -/
abbrev LeavesEnd {α : Type} (s : List Char) (found : Option (α × List Char)) : Prop :=
  LeavesBy List.IsSuffix s found

/-- Digits stand in a text, with nothing but the given marks between them. -/
def HoldsDigits (marks : List Char) (count : Nat) (s : List Char) : Prop :=
  ∃ run, run <:+: s ∧ (∀ c ∈ run, Text.isAsciiDigit c ∨ c ∈ marks) ∧
    run.countP Text.isAsciiDigit = count

theorem HoldsDigits.mono {marks s t : List Char} {count : Nat} (part : s <:+: t)
    (holds : HoldsDigits marks count s) : HoldsDigits marks count t := by
  obtain ⟨run, inside, rest⟩ := holds
  exact ⟨run, inside.trans part, rest⟩

end StaticSite
