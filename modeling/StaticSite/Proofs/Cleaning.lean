import StaticSite.Proofs.Publication

/-!
# Cleaning the output directory

Whether a directory may be cleaned is decided about the place that its path spells, but it is removed
under the path itself. Once its content is gone, a path that leads through the content leads nowhere,
and a path without names has nothing to remove the directory under. Under such a path the directory
is left behind, empty; under any other one it goes with its content, and nothing else does.
-/

namespace StaticSite

namespace Tree

/-- The tree without a place and what lies beneath it. -/
structure IsRemoved (before : Tree) (place : Place) (after : Tree) : Prop where
  home : after.home = before.home
  find? : ∀ other, after.find? other = if isWithin place other then none else before.find? other

/-- The tree without what lies beneath a place. -/
structure IsEmptied (before : Tree) (place : Place) (after : Tree) : Prop where
  home : after.home = before.home
  find? : ∀ other, after.find? other = if isBeneath place other then none else before.find? other

theorem isRemoved_remove (tree : Tree) {place : Place} (nonempty : place ≠ []) :
    tree.IsRemoved place (tree.remove place) := by
  refine ⟨rfl, fun other => ?_⟩
  by_cases root : other = []
  · subst root
    have outside : isWithin place [] = false := by
      rw [Bool.eq_false_iff, Ne, isWithin_iff, List.prefix_nil]
      exact nonempty
    rw [outside]
    rfl
  · exact find?_remove root

theorem isEmptied_clear (tree : Tree) (place : Place) : tree.IsEmptied place (tree.clear place) :=
  ⟨rfl, fun _ => find?_clear⟩

/-- A directory that has been emptied is removed as it would have been with its content. -/
theorem remove_clear (tree : Tree) (place : Place) :
    (tree.clear place).remove place = tree.remove place := by
  have same (entry : Place × Stored) :
      (!isWithin place entry.1 && !isBeneath place entry.1) = !isWithin place entry.1 := by
    cases within : isWithin place entry.1 with
    | true => rfl
    | false =>
      rw [isBeneath, show place.isPrefixOf entry.1 = false from within]
      rfl
  simp only [remove, clear, List.filter_filter, same]

/-- A directory that is found stands where its path leads. -/
theorem reach_of_isDirectory {tree : Tree} {path : Path}
    (stands : tree.isDirectory path = .ok true) :
    tree.reach path = .ok (tree.spelled path) ∧
      tree.find? (tree.spelled path) = some .directory := by
  obtain ⟨found, status, isDirectory⟩ := exists_of_map_eq_ok stands
  obtain rfl : found = some .directory := by simpa using isDirectory
  have stored := find?_of_status? status
  unfold status? at status
  split at status
  next place arrived =>
    obtain ⟨rfl, -⟩ := reach_ok arrived
    exact ⟨arrived, stored⟩
  · cases status
  · cases status

/-! ## Following a path once its end has been emptied -/

/-- Names that could be followed lead on unless they lead through what has been cleared. -/
theorem follow_clear {tree : Tree} (base : Place) {names : List String} {start place : Place}
    (followed : tree.follow names start = .ok place) :
    (tree.clear base).follow names start =
      if ∀ n < names.length, isBeneath base (normalize start (names.take n)) = false
        then .ok place else .error .notFound := by
  induction names generalizing start with
  | nil => simpa [follow] using followed
  | cons name names ih =>
    obtain ⟨-, through⟩ := follow_ok followed
    have isDirectory : tree.find? start = some .directory := through 0 (Nat.zero_lt_succ _)
    have stays := @find?_clear tree base start
    cases beneath : isBeneath base start with
    | true =>
      rw [beneath, if_pos rfl] at stays
      have blocked : ¬∀ n < (name :: names).length,
          isBeneath base (normalize start ((name :: names).take n)) = false := fun apart =>
        Bool.false_ne_true ((apart 0 (Nat.zero_lt_succ _)).symm.trans beneath)
      rw [if_neg blocked, follow, stays]
    | false =>
      rw [beneath, if_neg Bool.false_ne_true, isDirectory] at stays
      -- the first place is passed, so what remains to be asked is asked of the names behind it
      have onward {next : Place} (step : normalize start [name] = next) :
          (∀ n < (name :: names).length,
              isBeneath base (normalize start ((name :: names).take n)) = false) ↔
            ∀ n < names.length, isBeneath base (normalize next (names.take n)) = false := by
        simp only [← step, ← normalize_append]
        refine ⟨fun apart n bound => apart (n + 1) (Nat.succ_lt_succ bound), fun apart n bound => ?_⟩
        cases n with
        | zero => exact beneath
        | succ n => exact apart n (Nat.lt_of_succ_lt_succ bound)
      simp only [follow, isDirectory] at followed
      simp only [follow, stays]
      split at followed
      next up =>
        rw [if_pos up, ih followed]
        exact if_congr (onward (by simp [normalize, up])).symm rfl rfl
      next forward =>
        split at followed
        · cases followed
        next short =>
          rw [if_neg forward, if_neg short, ih followed]
          exact if_congr (onward (by simp [normalize, forward])).symm rfl rfl

/-- The path leads through nothing in the directory that it spells. -/
def IsOutside (tree : Tree) (path : Path) : Prop :=
  ∀ place ∈ Command.placesOf tree path, isBeneath (tree.spelled path) place = false

instance (tree : Tree) (path : Path) : Decidable (tree.IsOutside path) :=
  inferInstanceAs (Decidable (∀ place ∈ Command.placesOf tree path,
    isBeneath (tree.spelled path) place = false))

theorem isOutside_iff {tree : Tree} {path : Path} :
    tree.IsOutside path ↔ ∀ n < path.names.length,
      isBeneath (tree.spelled path) (normalize (tree.start path) (path.names.take n)) = false := by
  have last : isBeneath (tree.spelled path) (tree.spelled path) = false := by simp [isBeneath]
  unfold IsOutside Command.placesOf
  simp only [List.forall_mem_map, List.mem_range]
  refine ⟨fun apart n bound => apart n (by omega), fun apart n bound => ?_⟩
  rcases Nat.lt_or_eq_of_le (Nat.le_of_lt_succ bound) with within | rfl
  · exact apart n within
  · rw [List.take_length]
    exact last

theorem reach_clear {tree : Tree} {path : Path}
    (reached : tree.reach path = .ok (tree.spelled path)) :
    (tree.clear (tree.spelled path)).reach path =
      if tree.IsOutside path then .ok (tree.spelled path)
      else .error (.file .notFound path.text) := by
  unfold reach at reached ⊢
  split at reached
  · cases reached
  next named =>
    rw [if_neg named]
    cases followed : tree.follow path.names (tree.start path) with
    | error cause =>
      rw [followed] at reached
      cases reached
    | ok place =>
      rw [followed] at reached
      obtain rfl : place = tree.spelled path := Except.ok.inj reached
      have again := follow_clear (tree.spelled path) followed
      rw [show (tree.clear (tree.spelled path)).start path = tree.start path from rfl, again,
        if_congr isOutside_iff.symm rfl rfl]
      split <;> rfl

/-- A path without names that lead up goes down to the directory, and through nothing in it. -/
theorem isOutside_of_plain (tree : Tree) {path : Path} (plain : ".." ∉ path.names) :
    tree.IsOutside path := by
  refine isOutside_iff.mpr fun n bound => Bool.eq_false_iff.mpr fun beneath => ?_
  rw [← Command.spelled_take_append_drop plain n] at beneath
  obtain ⟨longer, different⟩ := isBeneath_iff.mp beneath
  exact different (longer.eq_of_length_le (by simp)).symm

end Tree

namespace Work

theorem modify_run (f : Tree → Tree) (tree : Tree) :
    (modify f : Work Unit) tree = .ok () (f tree) := rfl

/-- A directory is emptied first, and removed if its path still leads to it. -/
theorem removeDirectory_run {tree : Tree} {path : Path}
    (stands : tree.isDirectory path = .ok true) :
    (removeDirectory path).run tree =
      if path.names = [] then .error (.file .nameless path.text) (tree.clear (tree.spelled path))
      else if tree.IsOutside path then .ok () (tree.remove (tree.spelled path))
      else .error (.file .notFound path.text) (tree.clear (tree.spelled path)) := by
  obtain ⟨reached, found⟩ := Tree.reach_of_isDirectory stands
  have before := reach_run path tree
  have after := reach_run path (tree.clear (tree.spelled path))
  rw [reached] at before
  rw [Tree.reach_clear reached] at after
  dsimp only at before
  rw [found] at before
  simp only [EStateM.run] at before after
  simp only [removeDirectory, EStateM.run, bind, EStateM.bind, before, modify_run]
  by_cases nameless : path.names = []
  · rw [if_pos nameless, nameless]
    rfl
  · have named : path.names.isEmpty = false := by simpa using nameless
    rw [if_neg nameless, named]
    by_cases outside : tree.IsOutside path
    · rw [if_pos outside] at after
      rw [if_pos outside, ← Tree.remove_clear]
      simp only [Bool.false_eq_true, if_false, EStateM.bind, after, modify_run]
    · rw [if_neg outside] at after
      rw [if_neg outside]
      simp only [Bool.false_eq_true, if_false, EStateM.bind, after]

end Work

namespace Output

open Command (finishRun Settings)

/-- A path under which the directory that it leads to can be removed. -/
structure IsDirect (tree : Tree) (output : Path) : Prop where
  named : output.names ≠ []
  outside : tree.IsOutside output

instance (tree : Tree) (output : Path) : Decidable (IsDirect tree output) :=
  decidable_of_iff (output.names ≠ [] ∧ tree.IsOutside output)
    ⟨fun both => ⟨both.1, both.2⟩, fun direct => ⟨direct.named, direct.outside⟩⟩

theorem isDirect_of_plain (tree : Tree) {output : Path} (named : output.names ≠ [])
    (plain : ".." ∉ output.names) : IsDirect tree output :=
  ⟨named, tree.isOutside_of_plain plain⟩

section

variable {tree : Tree} {output root : Path}

theorem resolve_of_named (named : root.hasNul = false) :
    tree.resolve root = .ok (tree.spelled root) := by
  unfold Tree.resolve
  rw [named]
  rfl

/-- Cleaning an existing directory is decided by the places that the two paths spell. -/
theorem clean_run_directory (stands : tree.isDirectory output = .ok true)
    (named : root.hasNul = false) :
    (clean output root).run tree =
      match refusal? (tree.spelled root) (tree.spelled output) with
      | some refusal => .ok (some refusal) tree
      | none =>
        match (Work.removeDirectory output).run tree with
        | .ok _ after => .ok none after
        | .error fault after => .error fault after := by
  obtain ⟨reached, found⟩ := Tree.reach_of_isDirectory stands
  have held : tree.holds output = .ok true := by
    unfold Tree.holds Tree.status?
    rw [reached]
    dsimp only
    rw [found]
    rfl
  have resolved : tree.resolve output = .ok (tree.spelled output) := by
    refine resolve_of_named (Bool.eq_false_iff.mpr fun nul => ?_)
    rw [Tree.reach, if_pos nul] at reached
    cases reached
  have asked := clean_run output root tree
  rw [held, resolved, resolve_of_named named] at asked
  exact asked

/-- Nothing is refused that lies beneath the root. -/
theorem refusal?_eq (root place : Place) :
    refusal? root place =
      if Tree.isBeneath root place then none
      else some (if place = root then .root else .outside) := by
  unfold refusal? Tree.isBeneath Tree.isWithin
  by_cases same : place = root
  · simp [same]
  · cases root.isPrefixOf place <;> simp [same]

/-- A run that may not clean its output directory says why, and ends with exit code 1. -/
theorem finishRun_refused {settings : Settings} {refusal : Refusal} (cleans : settings.clean = true)
    (refused : (clean settings.outputPath (Tree.pathOf tree.home)).run tree =
      .ok (some refusal) tree) (result : Build.Result) (said : List Command.Speech) :
    finishRun tree settings result said =
      ⟨said ++ [.complaint refusal.message], .exit 1, tree⟩ := by
  have ended : (Command.writeOutput settings result.files).run tree = .ok (some refusal) tree := by
    rw [Command.writeOutput_run_clean cleans]
    simp only [EStateM.run, bind, EStateM.bind] at refused ⊢
    rw [refused]
    rfl
  rw [finishRun, ended]

/--
An existing directory that does not lie beneath the root is refused, which ends a run with exit code
1, and the tree stays as it is. One that does is removed with what lies beneath it, and nothing else
is, exactly if its path is direct; under any other path cleaning fails, and leaves the directory
behind, empty.
-/
theorem clean_removes_iff (stands : tree.isDirectory output = .ok true)
    (named : root.hasNul = false) :
    (Tree.isBeneath (tree.spelled root) (tree.spelled output) = false →
      (clean output root).run tree =
          .ok (some (if tree.spelled output = tree.spelled root then .root else .outside)) tree ∧
        ∀ settings : Settings, settings.clean = true → settings.outputPath = output →
          Tree.pathOf tree.home = root → ∀ result said,
            (finishRun tree settings result said).ending = .exit 1 ∧
              (finishRun tree settings result said).tree = tree) ∧
      (Tree.isBeneath (tree.spelled root) (tree.spelled output) = true →
        ((∃ after, (clean output root).run tree = .ok none after ∧
            tree.IsRemoved (tree.spelled output) after) ↔ IsDirect tree output) ∧
          (¬IsDirect tree output → ∃ cause after,
            (clean output root).run tree = .error (.file cause output.text) after ∧
              tree.IsEmptied (tree.spelled output) after)) := by
  have ran := clean_run_directory stands named
  have removal := Work.removeDirectory_run stands
  rw [refusal?_eq] at ran
  constructor
  · intro outside
    rw [outside, if_neg Bool.false_ne_true] at ran
    refine ⟨ran, fun settings cleans isOutput isRoot result said => ?_⟩
    subst isOutput isRoot
    rw [finishRun_refused cleans ran]
    exact ⟨rfl, rfl⟩
  · intro beneath
    rw [beneath, if_pos rfl] at ran
    dsimp only at ran
    have nonempty : tree.spelled output ≠ [] := fun isRoot => by
      obtain ⟨start, different⟩ := Tree.isBeneath_iff.mp beneath
      rw [isRoot, List.prefix_nil] at start
      exact different (isRoot.trans start.symm)
    have fails (indirect : ¬IsDirect tree output) : ∃ cause,
        (clean output root).run tree =
          .error (.file cause output.text) (tree.clear (tree.spelled output)) := by
      by_cases nameless : output.names = []
      · rw [if_pos nameless] at removal
        exact ⟨.nameless, by rw [ran, removal]⟩
      · have across : ¬tree.IsOutside output := fun outside => indirect ⟨nameless, outside⟩
        rw [if_neg nameless, if_neg across] at removal
        exact ⟨.notFound, by rw [ran, removal]⟩
    refine ⟨⟨?_, fun direct => ?_⟩, fun indirect => ?_⟩
    · rintro ⟨after, done, -⟩
      by_contra indirect
      obtain ⟨cause, failed⟩ := fails indirect
      rw [failed] at done
      cases done
    · rw [if_neg direct.named, if_pos direct.outside] at removal
      exact ⟨_, by rw [ran, removal], tree.isRemoved_remove nonempty⟩
    · obtain ⟨cause, failed⟩ := fails indirect
      exact ⟨cause, _, failed, tree.isEmptied_clear _⟩

/-- A project whose output directory holds another directory. -/
def nestedOutput : Tree :=
  Tree.ofList ["project"]
    [(["project", "dist", "x", "a"], .file (Utf8.encode "1")),
     (["project", "b"], .file (Utf8.encode "2"))]

theorem clean_nestedOutput_removes :
    nestedOutput.isDirectory (Path.ofText "dist/..//./dist/x/") = .ok true ∧
      (Path.ofText ".").hasNul = false ∧
      Tree.isBeneath (nestedOutput.spelled (Path.ofText "."))
        (nestedOutput.spelled (Path.ofText "dist/..//./dist/x/")) = true ∧
      IsDirect nestedOutput (Path.ofText "dist/..//./dist/x/") ∧
      ∃ after, (clean (Path.ofText "dist/..//./dist/x/") (Path.ofText ".")).run nestedOutput =
        .ok none after ∧ nestedOutput.IsRemoved ["project", "dist", "x"] after := by
  have stands : nestedOutput.isDirectory (Path.ofText "dist/..//./dist/x/") = .ok true := by
    decide +kernel
  have named : (Path.ofText ".").hasNul = false := by decide
  have beneath : Tree.isBeneath (nestedOutput.spelled (Path.ofText "."))
      (nestedOutput.spelled (Path.ofText "dist/..//./dist/x/")) = true := by decide +kernel
  have direct : IsDirect nestedOutput (Path.ofText "dist/..//./dist/x/") := by decide +kernel
  exact ⟨stands, named, beneath, direct,
    ((clean_removes_iff stands named).2 beneath).1.mpr direct⟩

/--
An output directory that is spelled through a directory in it, or as a point, is not removed,
although it lies strictly beneath the root: it has lost its content when cleaning fails.
-/
theorem clean_nestedOutput_not_removes :
    (nestedOutput.isDirectory (Path.ofText "dist/x/..") = .ok true ∧
      Tree.isBeneath (nestedOutput.spelled (Path.ofText "."))
        (nestedOutput.spelled (Path.ofText "dist/x/..")) = true ∧
      ¬∃ after, (clean (Path.ofText "dist/x/..") (Path.ofText ".")).run nestedOutput =
        .ok none after ∧ nestedOutput.IsRemoved ["project", "dist"] after) ∧
    nestedOutput.isDirectory (Path.ofText ".") = .ok true ∧
      Tree.isBeneath (nestedOutput.spelled (Path.ofText ".."))
        (nestedOutput.spelled (Path.ofText ".")) = true ∧
      ¬∃ after, (clean (Path.ofText ".") (Path.ofText "..")).run nestedOutput =
        .ok none after ∧ nestedOutput.IsRemoved ["project"] after := by
  refine ⟨⟨by decide +kernel, by decide +kernel, ?_⟩, by decide +kernel, by decide +kernel, ?_⟩
  · rintro ⟨after, done, -⟩
    cases done
  · rintro ⟨after, done, -⟩
    cases done

end

end Output

end StaticSite
