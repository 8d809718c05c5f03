import StaticSite.Proofs.Work

/-!
# What writing an output directory leaves alone

Cleaning, copying and writing are confined: outside of the output directory nothing changes, but
for directories that are missing on the way to it. A built file is confined as long as its path
passes only through places where nothing has to be made.
-/

namespace StaticSite.Output

open Command (placesOf)
open Work

/--
From one tree to another, everything outside of the output directory is as it was. On the way to the
directory there may be new directories, where nothing stood before.
-/
structure Kept (output : Path) (before after : Tree) : Prop where
  home : after.home = before.home
  plain : after.Plain
  outside : ∀ place, Tree.isWithin (before.spelled output) place = false →
    after.find? place = before.find? place ∨
      (before.find? place = none ∧ after.find? place = some .directory ∧
        place ∈ placesOf before output)

/-- A place where nothing outside of the output directory has to be made, but for the way there. -/
def IsClear (output : Path) (before : Tree) (place : Place) : Prop :=
  Tree.isWithin (before.spelled output) place = true ∨
    before.find? place = some .directory ∨ place ∈ placesOf before output

section

variable {output : Path} {before tree : Tree}

theorem Kept.refl (plain : before.Plain) : Kept output before before :=
  ⟨rfl, plain, fun _ _ => .inl rfl⟩

theorem Kept.spelled (kept : Kept output before tree) (path : Path) :
    tree.spelled path = before.spelled path :=
  Tree.spelled_congr kept.home path

theorem plain_spelled (plain : before.Plain) (path : Path) : ".." ∉ before.spelled path := by
  refine Tree.normalize_plain ?_ path.names
  unfold Tree.start
  split
  · simp
  · exact plain.home

theorem plain_put {place : Place} (plain : tree.Plain) (forward : ".." ∉ place)
    (what : Stored) : (tree.put place what).Plain := by
  refine ⟨plain.home, fun entry member => ?_⟩
  simp only [Tree.put, List.mem_append, List.mem_filter, List.mem_singleton] at member
  rcases member with ⟨old, _⟩ | rfl
  · exact plain.stored entry old
  · exact forward

theorem Kept.put_within {place : Place} (kept : Kept output before tree)
    (within : Tree.isWithin (before.spelled output) place = true) (forward : ".." ∉ place)
    (what : Stored) : Kept output before (tree.put place what) := by
  refine ⟨kept.home, plain_put kept.plain forward what, fun other outside => ?_⟩
  have different : other ≠ place := by
    rintro rfl
    rw [within] at outside
    cases outside
  have nonempty : place ≠ [] := by
    rintro rfl
    rw [List.prefix_nil.mp (Tree.isWithin_iff.mp within)] at outside
    cases outside
  rw [Tree.find?_put what nonempty, if_neg different]
  exact kept.outside other outside

theorem Kept.make {place : Place} (kept : Kept output before tree)
    (clear : IsClear output before place) (forward : ".." ∉ place)
    (missing : tree.find? place = none) : Kept output before (tree.put place .directory) := by
  by_cases within : Tree.isWithin (before.spelled output) place = true
  · exact kept.put_within within forward .directory
  · have nonempty : place ≠ [] := by
      rintro rfl
      cases missing
    have missingBefore : before.find? place = none := by
      rcases kept.outside place (Bool.eq_false_iff.mpr within) with same | ⟨none, _, _⟩
      · rwa [same] at missing
      · exact none
    have onWay : place ∈ placesOf before output := by
      rcases clear with inside | directory | onWay
      · exact absurd inside within
      · rw [missingBefore] at directory
        cases directory
      · exact onWay
    refine ⟨kept.home, plain_put kept.plain forward .directory, fun other outside => ?_⟩
    rw [Tree.find?_put .directory nonempty]
    by_cases same : other = place
    · subst same
      rw [if_pos rfl]
      exact .inr ⟨missingBefore, rfl, onWay⟩
    · rw [if_neg same]
      exact kept.outside other outside

theorem Kept.clear (kept : Kept output before tree) {place : Place}
    (within : Tree.isWithin (before.spelled output) place = true) :
    Kept output before (tree.clear place) := by
  refine ⟨kept.home, kept.plain.clear place, fun other outside => ?_⟩
  have apart : Tree.isWithin place other = false := Tree.isWithin_eq_false_of_outer within outside
  rw [Tree.find?_clear_of_not_isWithin apart]
  exact kept.outside other outside

theorem Kept.remove (kept : Kept output before tree) {place : Place}
    (within : Tree.isWithin (before.spelled output) place = true) :
    Kept output before (tree.remove place) := by
  refine ⟨kept.home, kept.plain.remove place, fun other outside => ?_⟩
  have apart : Tree.isWithin place other = false := Tree.isWithin_eq_false_of_outer within outside
  rw [Tree.find?_remove_of_not_isWithin apart]
  exact kept.outside other outside

/-! ## Operations -/

theorem mayMake_of_clear {path : Path} (plain : before.Plain)
    (clear : IsClear output before (before.spelled path)) :
    MayMake (Kept output before) path := by
  intro tree kept missing
  rw [kept.spelled] at missing ⊢
  exact kept.make clear (plain_spelled plain path) missing

/-- A prefix of a path spells a place on its way. -/
theorem spelled_mem_placesOf {path : Path} {names : List String} (start : names <+: path.names) :
    before.spelled ⟨path.slashes, names⟩ ∈ placesOf before path := by
  obtain ⟨rest, equal⟩ := start
  simp only [placesOf, List.mem_map, List.mem_range]
  refine ⟨names.length, ?_, ?_⟩
  · rw [← equal, List.length_append]
    omega
  · rw [← equal, List.take_left' rfl]
    rfl

theorem keeps_haveDirectories_of_clear {path : Path} (plain : before.Plain)
    (clear : ∀ place ∈ placesOf before path, IsClear output before place) :
    Keeps (Kept output before) (haveDirectories path) :=
  keeps_haveDirectories fun _ start =>
    mayMake_of_clear plain (clear _ (spelled_mem_placesOf start))

theorem keeps_removeDirectory {path : Path}
    (within : Tree.isWithin (before.spelled output) (before.spelled path) = true) :
    Keeps (Kept output before) (removeDirectory path) :=
  Work.keeps_removeDirectory (fun _ kept => kept.spelled path) (fun _ kept => kept.clear within)
    fun _ kept => kept.remove within

/-! ## Static files -/

theorem beneath_plain {place : Place} (plain : tree.Plain) :
    ∀ entry ∈ tree.beneath place, ".." ∉ entry.1 := by
  intro entry member
  simp only [Tree.beneath, List.mem_map, List.mem_filter] at member
  obtain ⟨stored, ⟨inTree, _⟩, rfl⟩ := member
  exact fun inside => plain.stored stored inTree (List.mem_of_mem_drop inside)

theorem namesIn_plain {place : Place} (plain : tree.Plain) :
    ∀ name ∈ tree.namesIn place, name ≠ ".." := by
  intro name member
  simp only [Tree.namesIn, List.mem_filterMap] at member
  obtain ⟨entry, inTree, single⟩ := member
  have forward := beneath_plain plain entry inTree
  split at single
  next only equal =>
    cases single
    rintro rfl
    simp [equal] at forward
  · cases single

/-- Whether a place is in the output directory. -/
def IsInside (output : Path) (before : Tree) (place : Place) : Prop :=
  Tree.isWithin (before.spelled output) place = true ∧ ".." ∉ place

theorem isInside_append {place rest : Place} (inside : IsInside output before place)
    (forward : ".." ∉ rest) : IsInside output before (place ++ rest) := by
  refine ⟨Tree.isWithin_trans inside.1 (Tree.isWithin_append _ _), ?_⟩
  simp [inside.2, forward]

theorem ignores_kept : Ignores before (IsInside output before) (Kept output before) where
  spelled _ kept := kept.spelled
  put _ _ what kept inside := kept.put_within inside.1 inside.2 what
  remove _ inside := keeps_removeDirectory inside.1
  child _ _ forward inside := isInside_append inside (by simpa using Ne.symm forward)
  beneath _ _ _ kept inside entry member :=
    isInside_append inside (beneath_plain kept.plain entry member)

theorem keeps_copyEntry (source : Path) {name : String} (plain : before.Plain)
    (forward : name ≠ "..") : Keeps (Kept output before) (copyEntry source output name) := by
  have here : IsInside output before (before.spelled output) :=
    ⟨Tree.isWithin_iff.mpr (List.prefix_refl _), plain_spelled plain output⟩
  exact ignores_kept.keeps_copyEntry source forward (ignores_kept.child _ name forward here)

/-! ## The output directory -/

theorem keeps_clean (root : Path) : Keeps (Kept output before) (clean output root) := by
  have here : Tree.isWithin (before.spelled output) (before.spelled output) = true :=
    Tree.isWithin_iff.mpr (List.prefix_refl _)
  refine ensures_bind ensures_get fun tree _ => ensures_bind (keeps_ofExcept _) fun held _ => ?_
  split
  · refine ensures_bind (keeps_ofExcept _) fun place _ => ?_
    refine ensures_bind (keeps_ofExcept _) fun rootPlace _ => ?_
    split
    · exact ensures_pure trivial
    · exact ensures_bind (keeps_removeDirectory here) fun _ _ => ensures_pure trivial
  · exact ensures_pure trivial

theorem keeps_copyStatic (source : Path) (plain : before.Plain) :
    Keeps (Kept output before) (copyStatic source output) := by
  have arrive : Keeps (Kept output before) (haveDirectories output) :=
    keeps_haveDirectories_of_clear plain fun _ onWay => .inr (.inr onWay)
  refine ensures_bind arrive fun _ _ => ?_
  refine ensures_bind (ignores_kept.ensures_reach source) fun reached equal => ?_
  obtain ⟨place, found⟩ := reached
  subst equal
  dsimp only
  split
  · exact keeps_refuse .notFound source
  · exact keeps_refuse .notDirectory source
  · exact ensures_bind ensures_get fun now kept => keeps_forM fun name member =>
      keeps_copyEntry source plain (namesIn_plain kept.plain name member)

/-- A directory in the output directory, on the way to which nothing has to be made outside. -/
structure IsContained (output : Path) (before : Tree) (directory : Path) : Prop where
  within : Tree.isWithin (before.spelled output) (before.spelled directory) = true
  clear : ∀ place ∈ placesOf before directory, IsClear output before place

theorem isContained_self : IsContained output before output where
  within := Tree.isWithin_iff.mpr (List.prefix_refl _)
  clear _ onWay := .inr (.inr onWay)

theorem parent_child (directory : Path) (name : String) :
    (directory.child name).parent = directory := by
  simp [Path.child, Path.parent]

theorem keeps_writeText {directory : Path} {name text : String} (plain : before.Plain)
    (contained : IsContained output before directory) (forward : name ≠ "..") :
    Keeps (Kept output before) (writeText (directory.child name) text) := by
  unfold writeText
  rw [parent_child]
  refine ensures_bind (keeps_haveDirectories_of_clear plain contained.clear) fun _ _ => ?_
  refine ignores_kept.keeps_writeBytes ⟨?_, plain_spelled plain _⟩ _
  rw [spelled_child directory forward]
  exact Tree.isWithin_trans contained.within (Tree.isWithin_append _ _)

/-- Whether the path of a text, as seen from the output directory, is a name in a contained one. -/
def IsFiled (output : Path) (before : Tree) (path : String) : Prop :=
  ∃ directory name, name ≠ ".." ∧ output.join (Path.ofText path) = directory.child name ∧
    IsContained output before directory

theorem keeps_writeTexts {texts : List (String × String)} (plain : before.Plain)
    (filed : ∀ entry ∈ texts, IsFiled output before entry.1) :
    Keeps (Kept output before) (writeTexts output texts) := by
  refine keeps_forM fun ⟨path, text⟩ member => ?_
  obtain ⟨directory, name, forward, spelled, contained⟩ := filed (path, text) member
  dsimp only
  rw [spelled]
  exact keeps_writeText plain contained forward

theorem leaves_writeTexts {texts : List (String × String)} {path text : String}
    (member : (path, text) ∈ texts) :
    Leaves (writeTexts output texts) fun _ => IsWritten (output.join (Path.ofText path)) :=
  leaves_forM member (leaves_writeText _ _) fun _ _ =>
    keeps_writeText_of_stable (isWritten_stable _) _

/-- A directory that is reached without a change outside was reached through clear places. -/
theorem isContained_of_kept {after : Tree} {directory : Path} (kept : Kept output before after)
    (ready : IsReady directory after)
    (within : Tree.isWithin (before.spelled output) (before.spelled directory) = true) :
    IsContained output before directory := by
  refine ⟨within, fun place onWay => ?_⟩
  by_cases inside : Tree.isWithin (before.spelled output) place = true
  · exact .inl inside
  · have found : after.find? place = some .directory := by
      refine ready place ?_
      simpa only [placesOf, Tree.start, kept.home] using onWay
    rcases kept.outside place (Bool.eq_false_iff.mpr inside) with same | ⟨_, _, toOutput⟩
    · exact .inr (.inl (same ▸ found))
    · exact .inr (.inr toOutput)

end

end StaticSite.Output

namespace StaticSite.Command

open Work
open Output (Kept IsFiled)

/-- The built files written into the output directory; none of them is refused. -/
def writeFiles (settings : Settings) (files : List Build.File) : Work (Option Output.Refusal) := do
  Output.writeTexts (Path.ofText settings.output) (files.map fun file => (file.path, file.content))
  return none

/-- What follows the cleaning, unless that was refused. -/
def fillOutput (settings : Settings) (files : List Build.File) :
    Option Output.Refusal → Work (Option Output.Refusal)
  | some refusal => return some refusal
  | none => do
    if ← Work.ofExcept ((← get).isDirectory (Path.ofText settings.staticDirectory)) then
      Output.copyStatic (Path.ofText settings.staticDirectory) (Path.ofText settings.output)
    writeFiles settings files

theorem writeOutput_eq (settings : Settings) (files : List Build.File) :
    writeOutput settings files =
      if settings.clean then
        (get : Work Tree) >>= fun tree =>
          Output.clean (Path.ofText settings.output) (Tree.pathOf tree.home) >>=
            fillOutput settings files
      else fillOutput settings files none := by
  cases clean : settings.clean with
  | false =>
    simp only [writeOutput, clean, Bool.false_eq_true, if_false]
    rfl
  | true =>
    simp only [writeOutput, clean, if_true]
    refine congrArg (bind get) (funext fun tree => congrArg (bind _) (funext fun refusal => ?_))
    cases refusal <;> rfl

section

variable {settings : Settings} {files : List Build.File} {before : Tree}

theorem keeps_fillOutput (plain : before.Plain)
    (filed : ∀ file ∈ files, IsFiled (Path.ofText settings.output) before file.path)
    (refusal : Option Output.Refusal) :
    Keeps (Kept (Path.ofText settings.output) before) (fillOutput settings files refusal) := by
  cases refusal with
  | some refusal => exact ensures_pure trivial
  | none =>
    have finish : Keeps (Kept (Path.ofText settings.output) before) (writeFiles settings files) :=
      ensures_bind (Output.keeps_writeTexts plain (by simpa using filed)) fun _ _ =>
        ensures_pure trivial
    refine ensures_bind ensures_get fun tree _ => ensures_bind (keeps_ofExcept _) fun held _ => ?_
    split
    · exact ensures_bind (Output.keeps_copyStatic _ plain) fun _ _ => finish
    · exact finish

theorem keeps_writeOutput (plain : before.Plain)
    (filed : ∀ file ∈ files, IsFiled (Path.ofText settings.output) before file.path) :
    Keeps (Kept (Path.ofText settings.output) before) (writeOutput settings files) := by
  rw [writeOutput_eq]
  split
  · exact ensures_bind ensures_get fun tree _ => ensures_bind (Output.keeps_clean _)
      fun refusal _ => keeps_fillOutput plain filed refusal
  · exact keeps_fillOutput plain filed none

theorem leaves_writeOutput {file : Build.File} (member : file ∈ files) :
    Leaves (writeOutput settings files) fun refusal tree => refusal = none →
      IsWritten ((Path.ofText settings.output).join (Path.ofText file.path)) tree := by
  have fill (refusal : Option Output.Refusal) :
      Leaves (fillOutput settings files refusal) fun refusal tree => refusal = none →
        IsWritten ((Path.ofText settings.output).join (Path.ofText file.path)) tree := by
    cases refusal with
    | some refusal =>
      intro tree value after done none
      cases done
      cases none
    | none =>
      have listed : (file.path, file.content) ∈ files.map fun file => (file.path, file.content) :=
        List.mem_map_of_mem member
      have written : Leaves (writeFiles settings files) fun _ =>
          IsWritten ((Path.ofText settings.output).join (Path.ofText file.path)) :=
        leaves_then (Output.leaves_writeTexts listed) fun _ => ensures_pure trivial
      have finish : Leaves (writeFiles settings files) fun refusal tree => refusal = none →
          IsWritten ((Path.ofText settings.output).join (Path.ofText file.path)) tree :=
        fun tree value after done _ => written tree value after done
      unfold fillOutput
      refine leaves_bind fun tree => leaves_bind fun held => ?_
      dsimp only
      split
      · exact leaves_bind fun _ => finish
      · exact finish
  rw [writeOutput_eq]
  split
  · exact leaves_bind fun tree => leaves_bind fill
  · exact fill none

end

end StaticSite.Command
