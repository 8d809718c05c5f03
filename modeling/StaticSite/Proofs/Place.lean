import Mathlib.Data.List.Infix
import StaticSite.Command.Run

/-!
# Places in a file tree

What each change of a tree does to the one view of it, `find?`, and where following a path ends.
A path is followed through directories only, so it ends at the place that it spells.
-/

namespace StaticSite

namespace Tree

/-- No name in the tree is the one that leads up. -/
structure Plain (tree : Tree) : Prop where
  home : ".." ∉ tree.home
  stored : ∀ entry ∈ tree.stored, ".." ∉ entry.1

/-- The place that a path spells. -/
def spelled (tree : Tree) (path : Path) : Place := normalize (tree.start path) path.names

/-- What a path spells depends on the home of the tree only. -/
theorem spelled_congr {tree other : Tree} (home : other.home = tree.home) (path : Path) :
    other.spelled path = tree.spelled path := by
  simp only [spelled, start, home]

theorem isWithin_iff {base place : Place} : isWithin base place = true ↔ base <+: place := by
  simp [isWithin]

theorem isBeneath_iff {base place : Place} :
    isBeneath base place = true ↔ base <+: place ∧ place ≠ base := by
  simp [isBeneath]

theorem isWithin_append (base rest : Place) : isWithin base (base ++ rest) = true :=
  isWithin_iff.mpr (List.prefix_append base rest)

theorem isWithin_trans {base inner place : Place} (outer : isWithin base inner = true)
    (within : isWithin inner place = true) : isWithin base place = true :=
  isWithin_iff.mpr ((isWithin_iff.mp outer).trans (isWithin_iff.mp within))

/-- What is not within a place is not within any place in it. -/
theorem isWithin_eq_false_of_outer {base inner place : Place} (outer : isWithin base inner = true)
    (outside : isWithin base place = false) : isWithin inner place = false :=
  Bool.eq_false_iff.mpr fun within =>
    Bool.eq_false_iff.mp outside (isWithin_trans outer within)

theorem isWithin_of_isBeneath {base place : Place} (beneath : isBeneath base place = true) :
    isWithin base place = true :=
  isWithin_iff.mpr (isBeneath_iff.mp beneath).1

theorem isBeneath_child_iff {base place : Place} (name : String) :
    isBeneath base (place ++ [name]) = true ↔ isWithin base place = true := by
  rw [isBeneath_iff, isWithin_iff, List.prefix_concat_iff]
  constructor
  · rintro ⟨same | within, different⟩
    · exact absurd same.symm different
    · exact within
  · intro within
    refine ⟨.inr within, ?_⟩
    rintro rfl
    have longer := within.length_le
    rw [List.length_append, List.length_singleton] at longer
    omega

section

variable {tree : Tree} {place other : Place}

@[simp] theorem find?_root (tree : Tree) : tree.find? [] = some .directory := rfl

/-- Keeping entries by their places keeps what stands at the kept places. -/
theorem lookup_filter (keep : Place → Bool) (stored : List (Place × Stored)) (place : Place) :
    (stored.filter fun entry => keep entry.1).lookup place =
      if keep place then stored.lookup place else none := by
  induction stored with
  | nil => simp
  | cons entry stored ih =>
    obtain ⟨key, what⟩ := entry
    by_cases kept : keep key = true
    · by_cases same : place = key
      · subst same
        simp [kept]
      · have different : (place == key) = false := beq_eq_false_iff_ne.mpr same
        simp [kept, List.lookup_cons, different, ih]
    · by_cases same : place = key
      · subst same
        simp [kept, ih]
      · have different : (place == key) = false := beq_eq_false_iff_ne.mpr same
        simp [kept, List.lookup_cons, different, ih]

theorem find?_put (what : Stored) (nonempty : place ≠ []) :
    (tree.put place what).find? other =
      if other = place then some what else tree.find? other := by
  by_cases root : other = []
  · subst root
    simp [Ne.symm nonempty]
  · have kept := lookup_filter (fun key => key != place) tree.stored other
    by_cases same : other = place
    · subst same
      simp only [bne_self_eq_false, Bool.false_eq_true, if_false] at kept
      simp [find?, put, root, List.lookup_append, kept]
    · have different : (other == place) = false := beq_eq_false_iff_ne.mpr same
      simp only [bne, different, Bool.not_false, if_true] at kept
      simp [find?, put, root, same, bne, List.lookup_append, List.lookup_cons, different, kept]

theorem find?_clear :
    (tree.clear place).find? other =
      if isBeneath place other then none else tree.find? other := by
  by_cases root : other = []
  · subst root
    have outside : isBeneath place [] = false := by
      rw [Bool.eq_false_iff, Ne, isBeneath_iff]
      rintro ⟨start, different⟩
      exact different (List.prefix_nil.mp start).symm
    simp [outside]
  · have kept := lookup_filter (fun key => !isBeneath place key) tree.stored other
    simp only [find?, clear, root, if_false, kept]
    cases isBeneath place other <;> rfl

theorem find?_remove (nonempty : other ≠ []) :
    (tree.remove place).find? other =
      if isWithin place other then none else tree.find? other := by
  have kept := lookup_filter (fun key => !isWithin place key) tree.stored other
  simp only [find?, remove, nonempty, if_false, kept]
  cases isWithin place other <;> rfl

theorem find?_clear_of_not_isWithin (apart : isWithin place other = false) :
    (tree.clear place).find? other = tree.find? other := by
  have notBeneath : isBeneath place other = false :=
    Bool.eq_false_iff.mpr fun beneath =>
      Bool.eq_false_iff.mp apart (isWithin_of_isBeneath beneath)
  rw [find?_clear, notBeneath]
  rfl

theorem find?_remove_of_not_isWithin (apart : isWithin place other = false) :
    (tree.remove place).find? other = tree.find? other := by
  by_cases root : other = []
  · subst root
    rfl
  · rw [find?_remove root, apart]
    rfl

theorem Plain.clear (plain : tree.Plain) (place : Place) : (tree.clear place).Plain where
  home := plain.home
  stored entry member := plain.stored entry (List.mem_of_mem_filter member)

theorem Plain.remove (plain : tree.Plain) (place : Place) : (tree.remove place).Plain where
  home := plain.home
  stored entry member := plain.stored entry (List.mem_of_mem_filter member)

end

/-! ## Following -/

theorem normalize_append (place : Place) (names more : List String) :
    normalize place (names ++ more) = normalize (normalize place names) more :=
  List.foldl_append

theorem normalize_child (place : Place) (names : List String) {name : String}
    (forward : name ≠ "..") :
    normalize place (names ++ [name]) = normalize place names ++ [name] := by
  simp [normalize, forward]

theorem normalize_plain {place : Place} (plain : ".." ∉ place) (names : List String) :
    ".." ∉ normalize place names := by
  induction names generalizing place with
  | nil => exact plain
  | cons name names ih =>
    by_cases up : name = ".."
    · have shorter : ".." ∉ place.dropLast := fun member => plain (List.mem_of_mem_dropLast member)
      simpa [normalize, up] using ih shorter
    · have longer : ".." ∉ place ++ [name] := by
        simp [plain, Ne.symm up]
      simpa [normalize, up] using ih longer

/-- Names that can be followed lead through directories to the place that they spell. -/
theorem follow_ok {tree : Tree} {names : List String} {start place : Place}
    (followed : tree.follow names start = .ok place) :
    place = normalize start names ∧
      ∀ n < names.length, tree.find? (normalize start (names.take n)) = some .directory := by
  induction names generalizing start with
  | nil =>
    simp only [follow, Except.ok.injEq] at followed
    exact ⟨followed.symm, by simp⟩
  | cons name names ih =>
    unfold follow at followed
    split at followed
    · cases followed
    · cases followed
    next isDirectory =>
      have onward {next : Place} (step : normalize start [name] = next)
          (rest : tree.follow names next = .ok place) :
          place = normalize start (name :: names) ∧ ∀ n < (name :: names).length,
            tree.find? (normalize start ((name :: names).take n)) = some .directory := by
        obtain ⟨ends, through⟩ := ih rest
        rw [← step, ← normalize_append] at ends
        refine ⟨ends, fun n bound => ?_⟩
        cases n with
        | zero => exact isDirectory
        | succ n =>
          have inner := through n (by simpa using bound)
          rwa [← step, ← normalize_append] at inner
      split at followed
      next up => exact onward (by simp [normalize, up]) followed
      next forward =>
        split at followed
        · cases followed
        · exact onward (by simp [normalize, forward]) followed

theorem reach_ok {tree : Tree} {path : Path} {place : Place}
    (reached : tree.reach path = .ok place) :
    place = tree.spelled path ∧
      ∀ n < path.names.length,
        tree.find? (normalize (tree.start path) (path.names.take n)) = some .directory := by
  unfold reach at reached
  split at reached
  · cases reached
  · cases followed : tree.follow path.names (tree.start path) with
    | error cause => simp [followed, Except.mapError] at reached
    | ok found =>
      simp only [followed, Except.mapError, Except.ok.injEq] at reached
      subst reached
      exact follow_ok followed

/-- Only a path with a NUL is not resolved. -/
theorem resolve_eq_error_iff {tree : Tree} {path : Path} {fault : Fault} :
    tree.resolve path = .error fault ↔ path.hasNul = true ∧ fault = .nulInPath := by
  unfold resolve
  split
  next nul => simp [nul, eq_comm]
  next noNul => simp [noNul]

theorem eq_spelled_of_resolve {tree : Tree} {path : Path} {place : Place}
    (resolved : tree.resolve path = .ok place) : place = tree.spelled path := by
  unfold resolve at resolved
  split at resolved
  · cases resolved
  · cases resolved
    rfl

/-- Names that do not lead up are followed one beneath the other. -/
theorem normalize_of_plain {names : List String} (plain : ".." ∉ names) (start : Place) :
    normalize start names = start ++ names := by
  induction names generalizing start with
  | nil => simp [normalize]
  | cons name names ih =>
    rw [List.mem_cons, not_or] at plain
    have step : normalize start (name :: names) = normalize (start ++ [name]) names := by
      simp [normalize, Ne.symm plain.1]
    rw [step, ih plain.2, List.append_assoc, List.singleton_append]

theorem spelled_pathOf {tree : Tree} {place : Place} (plain : ".." ∉ place) :
    tree.spelled (pathOf place) = place :=
  normalize_of_plain plain []

/-! ## Trees that agree -/

section

variable {tree other : Tree}

/-- Where following ends; only a name that is too long tells its cause from the others. -/
def arrival : Except FileCause Place → Except Unit (Option Place)
  | .ok place => .ok (some place)
  | .error .nameTooLong => .error ()
  | .error _ => .ok none

theorem status?_eq (tree : Tree) (path : Path) :
    tree.status? path =
      if path.hasNul then .ok none
      else
        match arrival (tree.follow path.names (tree.start path)) with
        | .ok none => .ok none
        | .ok (some place) => .ok (tree.find? place)
        | .error () => .error (.file .nameTooLong path.text) := by
  unfold status? reach
  by_cases nul : path.hasNul = true
  · rw [if_pos nul, if_pos nul]
  · rw [if_neg nul, if_neg nul]
    cases tree.follow path.names (tree.start path) with
    | ok place => rfl
    | error cause => cases cause <;> rfl

/-- Names that lead through directories arrive, unless one of them is too long. -/
theorem arrival_follow_ne_none {names : List String} {start : Place}
    (through : ∀ n < names.length, tree.find? (normalize start (names.take n)) = some .directory) :
    arrival (tree.follow names start) ≠ .ok none := by
  induction names generalizing start with
  | nil => exact nofun
  | cons name names ih =>
    have here : tree.find? start = some .directory := through 0 (Nat.zero_lt_succ _)
    have onward {next : Place} (step : normalize start [name] = next) :
        arrival (tree.follow names next) ≠ .ok none := by
      refine ih fun n bound => ?_
      rw [← step, ← normalize_append]
      exact through (n + 1) (Nat.succ_lt_succ bound)
    simp only [follow, here]
    split
    next up => exact onward (by simp [normalize, up])
    next forward =>
      split
      · exact nofun
      · exact onward (by simp [normalize, forward])

/-- Names arrive at the same place where directories stand at the same places on their way. -/
theorem arrival_follow_congr {names : List String} {start : Place}
    (same : ∀ n < names.length,
      other.find? (normalize start (names.take n)) = some .directory ↔
        tree.find? (normalize start (names.take n)) = some .directory) :
    arrival (other.follow names start) = arrival (tree.follow names start) := by
  induction names generalizing start with
  | nil => rfl
  | cons name names ih =>
    have here : other.find? start = some .directory ↔ tree.find? start = some .directory :=
      same 0 (Nat.zero_lt_succ _)
    have onward {next : Place} (step : normalize start [name] = next) :
        arrival (other.follow names next) = arrival (tree.follow names next) := by
      refine ih fun n bound => ?_
      rw [← step, ← normalize_append]
      exact same (n + 1) (Nat.succ_lt_succ bound)
    have stops {base : Tree} (blocked : base.find? start ≠ some .directory) :
        arrival (base.follow (name :: names) start) = .ok none := by
      unfold follow
      split
      · rfl
      · rfl
      next isDirectory => exact absurd isDirectory blocked
    by_cases passes : tree.find? start = some .directory
    · simp only [follow, here.mpr passes, passes]
      split
      next up => exact onward (by simp [normalize, up])
      next forward =>
        split
        · rfl
        · exact onward (by simp [normalize, forward])
    · rw [stops passes, stops (mt here.mp passes)]

/--
What is found at the end of a path depends on what stands there and on where directories stand on
its way.
-/
theorem status?_congr {path : Path} (home : other.home = tree.home)
    (way : ∀ n < path.names.length,
      other.find? (normalize (tree.start path) (path.names.take n)) = some .directory ↔
        tree.find? (normalize (tree.start path) (path.names.take n)) = some .directory)
    (last : other.find? (tree.spelled path) = tree.find? (tree.spelled path)) :
    other.status? path = tree.status? path := by
  have started : other.start path = tree.start path := by
    simp only [start, home]
  rw [status?_eq, status?_eq, started, arrival_follow_congr way]
  split
  · rfl
  · cases followed : tree.follow path.names (tree.start path) with
    | error cause => cases cause <;> rfl
    | ok place =>
      obtain ⟨rfl, -⟩ := follow_ok followed
      exact congrArg Except.ok last

end

/-- What is found at the end of a path stands at the place that it spells. -/
theorem find?_of_status? {tree : Tree} {path : Path} {what : Stored}
    (found : tree.status? path = .ok (some what)) :
    tree.find? (tree.spelled path) = some what := by
  unfold status? at found
  split at found
  next arrived =>
    obtain ⟨rfl, -⟩ := reach_ok arrived
    exact Except.ok.inj found
  · cases found
  · cases found

end Tree

end StaticSite
