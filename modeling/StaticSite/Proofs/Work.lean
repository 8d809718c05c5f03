import StaticSite.Proofs.Place

/-!
# Work that keeps a property

Work on a file tree can stop half-way, so a property of the tree has to hold after it whether it
succeeded or was refused. The rules below carry such a property through each operation; what an
operation may do to the tree is asked for in terms of the places that its path spells.
-/

namespace StaticSite.Work

/-- The work keeps `inv` however it ends; a value that it returns satisfies `post`. -/
def Ensures {α : Type} (inv : Tree → Prop) (work : Work α) (post : α → Prop) : Prop :=
  ∀ tree, inv tree →
    match work.run tree with
    | .ok value after => inv after ∧ post value
    | .error _ after => inv after

/-- The work keeps `inv` however it ends. -/
abbrev Keeps {α : Type} (inv : Tree → Prop) (work : Work α) : Prop :=
  Ensures inv work fun _ => True

section

variable {α β : Type} {inv : Tree → Prop} {work : Work α} {post : α → Prop}

theorem ensures_pure {value : α} (holds : post value) : Ensures inv (pure value) post :=
  fun _ before => ⟨before, holds⟩

theorem ensures_throw (fault : Fault) : Ensures inv (throw fault) post :=
  fun _ before => before

theorem ensures_refuse (cause : FileCause) (path : Path) : Ensures inv (refuse cause path) post :=
  fun _ before => before

theorem keeps_refuse (cause : FileCause) (path : Path) : Keeps inv (refuse cause path : Work α) :=
  ensures_refuse cause path

theorem ensures_bind {next : α → Work β} {final : β → Prop} (first : Ensures inv work post)
    (second : ∀ value, post value → Ensures inv (next value) final) :
    Ensures inv (work >>= next) final := by
  intro tree before
  have step := first tree before
  simp only [EStateM.run] at step
  simp only [EStateM.run, bind, EStateM.bind]
  cases result : work tree with
  | ok value after =>
    rw [result] at step
    exact second value step.2 after step.1
  | error fault after =>
    rw [result] at step
    exact step

theorem ensures_get : Ensures inv (get : Work Tree) inv :=
  fun _ before => ⟨before, before⟩

theorem ensures_ofExcept {value : Except Fault α}
    (holds : ∀ result, value = .ok result → post result) :
    Ensures inv (ofExcept value) post := by
  cases value with
  | error fault => exact ensures_throw fault
  | ok result => exact ensures_pure (holds result rfl)

theorem keeps_ofExcept (value : Except Fault α) : Keeps inv (ofExcept value) :=
  ensures_ofExcept fun _ _ => trivial

theorem keeps_modify {change : Tree → Tree} (kept : ∀ tree, inv tree → inv (change tree)) :
    Keeps inv (modify change : Work Unit) :=
  fun tree before => ⟨kept tree before, trivial⟩

theorem keeps_forM {items : List β} {step : β → Work Unit}
    (each : ∀ item ∈ items, Keeps inv (step item)) : Keeps inv (items.forM step) := by
  induction items with
  | nil => exact ensures_pure trivial
  | cons item items ih =>
    simp only [List.forall_mem_cons] at each
    exact ensures_bind each.1 fun _ _ => ih each.2

end

/-! ## Operations -/

/-- Whether a directory can be made at the place of a path without losing `inv`. -/
def MayMake (inv : Tree → Prop) (path : Path) : Prop :=
  ∀ tree, inv tree → tree.find? (tree.spelled path) = none →
    inv (tree.put (tree.spelled path) .directory)

section

variable {inv : Tree → Prop} {path : Path}

theorem get_run (tree : Tree) : (get : Work Tree) tree = .ok tree tree := rfl

theorem reach_run (path : Path) (tree : Tree) :
    (reach path).run tree =
      match tree.reach path with
      | .ok place => .ok (place, tree.find? place) tree
      | .error fault => .error fault tree := by
  simp only [reach, EStateM.run, bind, EStateM.bind, get_run]
  cases tree.reach path <;> rfl

/-- What stands at the place of a path is told as it is at that moment. -/
theorem keeps_reach_then {β : Type} {next : Place × Option Stored → Work β} {final : β → Prop}
    (onward : ∀ tree, inv tree → tree.reach path = .ok (tree.spelled path) →
      match (next (tree.spelled path, tree.find? (tree.spelled path))).run tree with
      | .ok value after => inv after ∧ final value
      | .error _ after => inv after) :
    Ensures inv (reach path >>= next) final := by
  intro tree before
  have run := reach_run path tree
  simp only [EStateM.run] at run
  simp only [EStateM.run, bind, EStateM.bind, run]
  cases reached : tree.reach path with
  | error fault => exact before
  | ok place =>
    obtain ⟨rfl, _⟩ := Tree.reach_ok reached
    exact onward tree before reached

/-- Where a path leads stays the same as long as the property fixes what the path spells. -/
theorem ensures_reach {place : Place} (known : ∀ tree, inv tree → tree.spelled path = place) :
    Ensures inv (reach path) fun result => result.1 = place := by
  intro tree before
  rw [reach_run]
  cases reached : tree.reach path with
  | error fault => exact before
  | ok found =>
    obtain ⟨rfl, _⟩ := Tree.reach_ok reached
    exact ⟨before, known tree before⟩

theorem keeps_makeDirectory (may : MayMake inv path) : Keeps inv (makeDirectory path) := by
  refine keeps_reach_then fun tree before _ => ?_
  cases found : tree.find? (tree.spelled path) with
  | some what => exact before
  | none => exact ⟨may tree before found, trivial⟩

theorem keeps_haveDirectory (may : MayMake inv path) : Keeps inv (haveDirectory path) := by
  refine ensures_bind ensures_get fun tree before => ?_
  have made := keeps_makeDirectory may tree before
  split
  next value after result =>
    rw [result] at made
    exact fun _ _ => ⟨made.1, trivial⟩
  next fault after result =>
    refine ensures_bind (keeps_ofExcept _) fun isDirectory _ => ?_
    split
    · exact ensures_pure trivial
    · exact ensures_throw fault

theorem keeps_haveDirectoriesAt {slashes : Nat} {names : List String}
    (may : ∀ above, above <:+ names → MayMake inv ⟨slashes, above.reverse⟩) :
    Keeps inv (haveDirectoriesAt slashes names) := by
  induction names with
  | nil => exact keeps_haveDirectory (may [] (List.suffix_refl []))
  | cons name above ih =>
    have last := keeps_haveDirectory (may (name :: above) (List.suffix_refl _))
    have first := ih fun higher suffix => may higher (suffix.trans (List.suffix_cons name above))
    unfold haveDirectoriesAt
    refine ensures_bind ensures_get fun tree _ => ?_
    split
    · exact ensures_bind first fun _ _ => last
    · exact last

theorem keeps_haveDirectories
    (may : ∀ names, names <+: path.names → MayMake inv ⟨path.slashes, names⟩) :
    Keeps inv (haveDirectories path) := by
  refine keeps_haveDirectoriesAt fun above suffix => may above.reverse ?_
  rwa [← List.reverse_suffix, List.reverse_reverse]

theorem keeps_writeBytes {bytes : Bytes}
    (may : ∀ tree, inv tree → tree.find? (tree.spelled path) ≠ some .directory →
      inv (tree.put (tree.spelled path) (.file bytes))) :
    Keeps inv (writeBytes path bytes) := by
  refine keeps_reach_then fun tree before _ => ?_
  cases found : tree.find? (tree.spelled path) with
  | none => exact ⟨may tree before (by simp [found]), trivial⟩
  | some what =>
    cases what with
    | file old => exact ⟨may tree before (by simp [found]), trivial⟩
    | directory => exact before

end

/-! ## What success leaves behind -/

/-- The work, when it succeeds, leaves a tree for which `final` holds. -/
def Leaves {α : Type} (work : Work α) (final : α → Tree → Prop) : Prop :=
  ∀ tree value after, work.run tree = .ok value after → final value after

section

variable {α β : Type} {work : Work α} {next : α → Work β} {good : Tree → Prop}

theorem leaves_bind {final : β → Tree → Prop} (second : ∀ value, Leaves (next value) final) :
    Leaves (work >>= next) final := by
  intro tree value after done
  simp only [EStateM.run, bind, EStateM.bind] at done
  cases result : work tree with
  | ok first middle =>
    rw [result] at done
    exact second first middle value after done
  | error fault middle =>
    rw [result] at done
    cases done

theorem leaves_then (first : Leaves work fun _ => good)
    (second : ∀ value, Keeps good (next value)) : Leaves (work >>= next) fun _ => good := by
  intro tree value after done
  simp only [EStateM.run, bind, EStateM.bind] at done
  cases result : work tree with
  | ok value' middle =>
    simp only [result] at done
    have kept := second value' middle (first tree value' middle result)
    simp only [EStateM.run, done] at kept
    exact kept.1
  | error fault middle =>
    rw [result] at done
    cases done

theorem leaves_forM {items : List α} {step : α → Work Unit} {item : α} (member : item ∈ items)
    (one : Leaves (step item) fun _ => good) (each : ∀ item ∈ items, Keeps good (step item)) :
    Leaves (items.forM step) fun _ => good := by
  induction items with
  | nil => cases member
  | cons first items ih =>
    simp only [List.forall_mem_cons] at each
    rcases List.mem_cons.mp member with rfl | later
    · exact leaves_then one fun _ => keeps_forM each.2
    · exact leaves_bind fun _ => ih later each.2

end

/-- Every place on the way of a path, and the one where it ends, is a directory. -/
def IsReady (path : Path) (tree : Tree) : Prop :=
  ∀ place ∈ Command.placesOf tree path, tree.find? place = some .directory

section

variable {path : Path} {tree : Tree}

theorem isReady_of_reach (reached : tree.reach path = .ok (tree.spelled path))
    (found : tree.find? (tree.spelled path) = some .directory) : IsReady path tree := by
  intro place member
  simp only [Command.placesOf, List.mem_map, List.mem_range] at member
  obtain ⟨n, bound, rfl⟩ := member
  by_cases last : n = path.names.length
  · rw [last, List.take_length]
    exact found
  · exact (Tree.reach_ok reached).2 n (by omega)

theorem makeDirectory_run (path : Path) (tree : Tree) :
    (makeDirectory path).run tree =
      match tree.reach path with
      | .error fault => .error fault tree
      | .ok place =>
        match tree.find? place with
        | some _ => .error (.file .exists path.text) tree
        | none => .ok () (tree.put place .directory) := by
  have run := reach_run path tree
  simp only [EStateM.run] at run
  simp only [makeDirectory, EStateM.run, bind, EStateM.bind, run]
  cases tree.reach path with
  | error fault => rfl
  | ok place =>
    dsimp only
    cases tree.find? place <;> rfl

theorem leaves_makeDirectory : Leaves (makeDirectory path) fun _ => IsReady path := by
  intro tree value after done
  rw [makeDirectory_run] at done
  cases reached : tree.reach path with
  | error fault => simp [reached] at done
  | ok place =>
    obtain ⟨rfl, through⟩ := Tree.reach_ok reached
    cases found : tree.find? (tree.spelled path) with
    | some what => simp [reached, found] at done
    | none =>
      simp only [reached, found, EStateM.Result.ok.injEq, true_and] at done
      subst done
      have nonempty : tree.spelled path ≠ [] := by
        intro root
        rw [root] at found
        cases found
      intro other member
      rw [Tree.find?_put .directory nonempty]
      split
      · rfl
      next different =>
        simp only [Command.placesOf, List.mem_map, List.mem_range] at member
        obtain ⟨n, bound, rfl⟩ := member
        refine through n (Nat.lt_of_le_of_ne (by omega) fun last => different ?_)
        rw [last, List.take_length]
        rfl

theorem isReady_of_isDirectory (isDirectory : tree.isDirectory path = .ok true) :
    IsReady path tree := by
  simp only [Tree.isDirectory, Tree.status?] at isDirectory
  cases reached : tree.reach path with
  | error fault =>
    rw [reached] at isDirectory
    split at isDirectory <;> simp_all [Except.map]
  | ok place =>
    obtain ⟨rfl, _⟩ := Tree.reach_ok reached
    simp only [reached, Except.map, Except.ok.injEq, decide_eq_true_eq] at isDirectory
    exact isReady_of_reach reached isDirectory

theorem haveDirectory_run (path : Path) (tree : Tree) :
    (haveDirectory path).run tree =
      match (makeDirectory path).run tree with
      | .ok _ after => .ok () after
      | .error fault after =>
        match after.isDirectory path with
        | .ok true => .ok () tree
        | .ok false => .error fault tree
        | .error stop => .error stop tree := by
  simp only [haveDirectory, EStateM.run, bind, EStateM.bind, get_run]
  cases makeDirectory path tree with
  | ok value after => rfl
  | error fault after =>
    dsimp only
    cases after.isDirectory path with
    | error stop => rfl
    | ok answer => cases answer <;> rfl

theorem leaves_haveDirectory : Leaves (haveDirectory path) fun _ => IsReady path := by
  intro tree value after done
  rw [haveDirectory_run] at done
  cases made : (makeDirectory path).run tree with
  | ok value' there =>
    simp only [made, EStateM.Result.ok.injEq, true_and] at done
    rw [← done]
    exact leaves_makeDirectory tree value' there made
  | error fault there =>
    have unchanged : there = tree := by
      rw [makeDirectory_run] at made
      split at made
      · cases made
        rfl
      · split at made <;> cases made
        rfl
    subst unchanged
    simp only [made] at done
    split at done
    next isDirectory =>
      cases done
      exact isReady_of_isDirectory isDirectory
    all_goals cases done

theorem leaves_haveDirectories (path : Path) :
    Leaves (haveDirectories path) fun _ => IsReady path := by
  obtain ⟨slashes, names⟩ := path
  unfold haveDirectories
  cases reversed : names.reverse with
  | nil =>
    rw [List.reverse_eq_nil_iff] at reversed
    subst reversed
    exact leaves_haveDirectory
  | cons name above =>
    have spelled : (name :: above).reverse = names := by
      rw [← reversed, List.reverse_reverse]
    dsimp only
    unfold haveDirectoriesAt
    rw [spelled]
    refine leaves_bind fun tree => ?_
    split
    · exact leaves_bind fun _ => leaves_haveDirectory
    · exact leaves_haveDirectory

/-- A property that stays when something is put where it takes no directory's place. -/
def IsStable (good : Tree → Prop) : Prop :=
  ∀ tree place what, tree.find? place ≠ some .directory →
    (what = .directory → tree.find? place = none) → good tree → good (tree.put place what)

theorem keeps_writeBytes_of_stable {good : Tree → Prop} (stable : IsStable good) (bytes : Bytes) :
    Keeps good (writeBytes path bytes) :=
  keeps_writeBytes fun tree kept free =>
    stable tree _ _ free (fun isDirectory => nomatch isDirectory) kept

theorem keeps_writeText_of_stable {good : Tree → Prop} (stable : IsStable good) (text : String) :
    Keeps good (writeText path text) := by
  have may (other : Path) : MayMake good other := fun tree kept missing =>
    stable tree _ .directory (by simp [missing]) (fun _ => missing) kept
  exact ensures_bind (keeps_haveDirectories fun names _ => may _) fun _ _ =>
    keeps_writeBytes_of_stable stable _

theorem nonempty_of_free {place : Place} (free : tree.find? place ≠ some .directory) :
    place ≠ [] := by
  rintro rfl
  exact free rfl

theorem isReady_stable (path : Path) : IsStable (IsReady path) := by
  intro tree place what free _ ready other member
  have found := ready other member
  have different : other ≠ place := by
    rintro rfl
    exact free found
  rw [Tree.find?_put what (nonempty_of_free free), if_neg different]
  exact found

/-- A file stands where the path leads. -/
structure IsWritten (path : Path) (tree : Tree) : Prop where
  ready : IsReady path.parent tree
  stands : ∃ bytes, tree.find? (tree.spelled path) = some (.file bytes)

theorem isWritten_stable (path : Path) : IsStable (IsWritten path) := by
  intro tree place what free new written
  refine ⟨isReady_stable path.parent tree place what free new written.ready, ?_⟩
  obtain ⟨bytes, found⟩ := written.stands
  have same : (tree.put place what).spelled path = tree.spelled path := rfl
  rw [same, Tree.find?_put what (nonempty_of_free free)]
  split
  next here =>
    rw [here] at found
    cases what with
    | file bytes => exact ⟨bytes, rfl⟩
    | directory =>
      rw [new rfl] at found
      cases found
  · exact ⟨bytes, found⟩

theorem writeBytes_run (path : Path) (bytes : Bytes) (tree : Tree) :
    (writeBytes path bytes).run tree =
      match tree.reach path with
      | .error fault => .error fault tree
      | .ok place =>
        match tree.find? place with
        | some .directory => .error (.file .isDirectory path.text) tree
        | _ => .ok () (tree.put place (.file bytes)) := by
  have run := reach_run path tree
  simp only [EStateM.run] at run
  simp only [writeBytes, EStateM.run, bind, EStateM.bind, run]
  cases tree.reach path with
  | error fault => rfl
  | ok place =>
    dsimp only
    cases tree.find? place with
    | none => rfl
    | some what => cases what <;> rfl

/-- Bytes that have been written stand where no directory stood. -/
theorem of_run_writeBytes {path : Path} {bytes : Bytes} {tree after : Tree} {value : Unit}
    (done : (writeBytes path bytes).run tree = .ok value after) :
    tree.find? (tree.spelled path) ≠ some .directory ∧
      after = tree.put (tree.spelled path) (.file bytes) := by
  rw [writeBytes_run] at done
  split at done
  · cases done
  next place reached =>
    obtain ⟨rfl, -⟩ := Tree.reach_ok reached
    split at done
    · cases done
    next free =>
      cases done
      exact ⟨free, rfl⟩

theorem leaves_writeText (path : Path) (text : String) :
    Leaves (writeText path text) fun _ => IsWritten path := by
  have ready : Leaves (writeText path text) fun _ => IsReady path.parent :=
    leaves_then (leaves_haveDirectories path.parent) fun _ =>
      keeps_writeBytes_of_stable (isReady_stable _) _
  have stands : Leaves (writeText path text) fun _ tree =>
      ∃ bytes, tree.find? (tree.spelled path) = some (.file bytes) := by
    refine leaves_bind fun _ tree value after done => ?_
    obtain ⟨free, rfl⟩ := of_run_writeBytes done
    refine ⟨Utf8.encode text, ?_⟩
    rw [Tree.find?_put _ (nonempty_of_free free)]
    exact if_pos rfl
  exact fun tree value after done => ⟨ready tree value after done, stands tree value after done⟩

end

end StaticSite.Work

/-!
## Removing and copying

A property of trees can ignore what stands in a region of places. Work that writes, removes and
copies only there keeps such a property, whatever it comes to. The region reaches down: a place is
in it together with what is put beneath.
-/

namespace StaticSite

theorem Output.spelled_child {tree : Tree} (path : Path) {name : String} (forward : name ≠ "..") :
    tree.spelled (path.child name) = tree.spelled path ++ [name] :=
  Tree.normalize_child (tree.start path) path.names forward

namespace Work

section

variable {inv : Tree → Prop} {path : Path} {place : Place}

theorem keeps_reach (path : Path) : Keeps inv (reach path) :=
  ensures_bind ensures_get fun _ _ => ensures_bind (keeps_ofExcept _) fun _ _ =>
    ensures_pure trivial

/-- What is left to do once a directory has been emptied. -/
theorem keeps_removal (spells : ∀ tree, inv tree → tree.spelled path = place)
    (remove : ∀ tree, inv tree → inv (tree.remove place)) :
    Keeps inv
      (do if path.names.isEmpty then refuse .nameless path
          let reached ← reach path
          modify (·.remove reached.1)) := by
  have removed : Keeps inv
      (do let reached ← reach path
          modify (·.remove reached.1)) :=
    ensures_bind (ensures_reach spells) fun _ equal => equal ▸ keeps_modify remove
  split
  · exact ensures_bind (keeps_refuse .nameless path) fun _ _ => removed
  · exact removed

theorem keeps_removeDirectory (spells : ∀ tree, inv tree → tree.spelled path = place)
    (clear : ∀ tree, inv tree → inv (tree.clear place))
    (remove : ∀ tree, inv tree → inv (tree.remove place)) :
    Keeps inv (removeDirectory path) := by
  refine ensures_bind (ensures_reach spells) fun reached equal => ?_
  obtain ⟨there, found⟩ := reached
  subst equal
  dsimp only
  split
  · exact ensures_refuse .notFound path
  · exact ensures_refuse .notDirectory path
  · exact ensures_bind (keeps_modify clear) fun _ _ => keeps_removal spells remove

end

/-- The property fixes where paths lead, and does not depend on what stands in the region. -/
structure Ignores (before : Tree) (region : Place → Prop) (inv : Tree → Prop) : Prop where
  spelled : ∀ tree, inv tree → ∀ path, tree.spelled path = before.spelled path
  put : ∀ tree place what, inv tree → region place → inv (tree.put place what)
  remove : ∀ path, region (before.spelled path) → Keeps inv (removeDirectory path)
  child : ∀ place name, name ≠ ".." → region place → region (place ++ [name])
  beneath : ∀ tree place source, inv tree → region place →
    ∀ entry ∈ tree.beneath source, region (place ++ entry.1)

namespace Ignores

variable {before : Tree} {region : Place → Prop} {inv : Tree → Prop} {source target : Path}

theorem ensures_reach (ignores : Ignores before region inv) (path : Path) :
    Ensures inv (reach path) fun result => result.1 = before.spelled path :=
  Work.ensures_reach fun tree kept => ignores.spelled tree kept path

theorem keeps_writeBytes (ignores : Ignores before region inv) {path : Path}
    (inside : region (before.spelled path)) (bytes : Bytes) :
    Keeps inv (writeBytes path bytes) := by
  refine Work.keeps_writeBytes fun tree kept _ => ?_
  rw [ignores.spelled tree kept]
  exact ignores.put tree _ _ kept inside

theorem keeps_copyBytes (ignores : Ignores before region inv)
    (inside : region (before.spelled target)) : Keeps inv (copyBytes source target) := by
  refine ensures_bind (keeps_reach source) fun _ _ => ?_
  refine ensures_bind ensures_get fun _ _ => ensures_bind (keeps_ofExcept _) fun bytes _ => ?_
  refine ensures_bind (keeps_reach target) fun _ _ => ?_
  dsimp only
  split
  · exact ensures_refuse .sameFile target
  · exact ignores.keeps_writeBytes inside bytes

theorem keeps_copyFile (ignores : Ignores before region inv) {name : String}
    (last : source.names.getLast? = some name) (forward : name ≠ "..")
    (inside : region (before.spelled target)) : Keeps inv (copyFile source target) := by
  refine ensures_bind ensures_get fun tree _ => ensures_bind (keeps_ofExcept _) fun taken _ => ?_
  split
  · refine ignores.keeps_copyBytes ?_
    rw [last, Option.getD_some, Output.spelled_child target forward]
    exact ignores.child _ name forward inside
  · exact ignores.keeps_copyBytes inside

theorem keeps_copyDirectory (ignores : Ignores before region inv)
    (inside : region (before.spelled target)) : Keeps inv (copyDirectory source target) := by
  have fill (stored : List (Place × Stored))
      (entries : ∀ entry ∈ stored, region (before.spelled target ++ entry.1)) :
      Keeps inv
        (do modify (·.put (before.spelled target) .directory)
            stored.forM fun entry =>
              modify (·.put (before.spelled target ++ entry.1) entry.2)) :=
    ensures_bind (keeps_modify fun tree kept => ignores.put tree _ .directory kept inside)
      fun _ _ => keeps_forM fun entry member => keeps_modify fun tree kept =>
        ignores.put tree _ entry.2 kept (entries entry member)
  have copy : Keeps inv
      (do let entries := (← get).beneath (before.spelled source)
          let reached ← reach target
          if reached.2.isSome then refuse .exists target
          modify (·.put reached.1 .directory)
          entries.forM fun entry => modify (·.put (reached.1 ++ entry.1) entry.2)) := by
    refine ensures_bind ensures_get fun now kept => ?_
    refine ensures_bind (ignores.ensures_reach target) fun reached equal => ?_
    rw [equal]
    have filled := fill (now.beneath (before.spelled source)) (ignores.beneath now _ _ kept inside)
    dsimp only
    split
    · exact ensures_bind (keeps_refuse .exists target) fun _ _ => filled
    · exact filled
  refine ensures_bind (ignores.ensures_reach source) fun reached equal => ?_
  obtain ⟨place, found⟩ := reached
  subst equal
  dsimp only
  split
  · exact ensures_bind (keeps_refuse .notFound source) fun _ _ => copy
  · exact copy

theorem keeps_copyEntry (ignores : Ignores before region inv) (source : Path) {output : Path}
    {name : String} (forward : name ≠ "..") (inside : region (before.spelled output ++ [name])) :
    Keeps inv (Output.copyEntry source output name) := by
  rw [← Output.spelled_child output forward] at inside
  have last : (source.child name).names.getLast? = some name := by
    simp [Path.child]
  refine ensures_bind ensures_get fun tree _ => ensures_bind (keeps_ofExcept _) fun nested _ => ?_
  split
  · refine ensures_bind ensures_get fun now _ => ensures_bind (keeps_ofExcept _) fun there _ => ?_
    split
    · exact ensures_bind (ignores.remove _ inside) fun _ _ => ignores.keeps_copyDirectory inside
    · exact ignores.keeps_copyDirectory inside
  · exact ignores.keeps_copyFile last forward inside

end Ignores

end Work

end StaticSite
