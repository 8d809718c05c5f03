import StaticSite.Proofs.Mirroring

/-!
# What a run publishes

A run that succeeds empties the output directory, takes in the static files and then the built ones,
so it leaves the files of the build over those of the static directory, and no others. The output
directory is looked at under the path that the settings spell, at moments when what the path leads
through need not be there yet, or not any more; where that makes a difference, it can be left as it
was, or lack the static files.
-/

namespace StaticSite

namespace Output

open Work

/-- The output directory has been emptied, and elsewhere everything is as it was. -/
structure Emptied (output : Path) (before tree : Tree) : Prop where
  plain : tree.Plain
  agrees : Agrees before (fun place => Tree.isWithin (before.spelled output) place = false) tree
  vacant : ∀ rest ≠ [], tree.find? (before.spelled output ++ rest) = none

/--
The output directory is empty, and elsewhere everything is as it was, but for directories where
nothing stood.
-/
structure Furnished (output : Path) (before tree : Tree) : Prop where
  home : tree.home = before.home
  plain : tree.Plain
  distinct : (tree.stored.map (·.1)).Nodup
  grown : ∀ place, Tree.isWithin (before.spelled output) place = false →
    tree.find? place = before.find? place ∨
      before.find? place = none ∧ tree.find? place = some .directory
  vacant : ∀ rest ≠ [], tree.find? (before.spelled output ++ rest) = none

section

variable {source output : Path} {before tree after : Tree}

/-- Cleaning that succeeds empties the output directory, unless it is not seen. -/
theorem emptied_of_run_clean (sound : before.Sound)
    (seen : before.holds output = .ok false → before.find? (before.spelled output) = none)
    (done : (clean output (Tree.pathOf before.home)).run before = .ok none after) :
    Emptied output before after := by
  have same : Agrees before (fun place => Tree.isWithin (before.spelled output) place = false)
      before := ⟨rfl, sound.distinct, fun _ _ => rfl⟩
  rcases clean_cases sound.plain output with ⟨fault, ran⟩ | ⟨answer, ran, absent⟩ | ⟨-, -, ran⟩
  · rw [ran] at done
    cases done
  · rw [ran] at done
    cases done
    refine ⟨sound.plain, same, fun rest filled => ?_⟩
    have nothing := seen (absent rfl)
    by_contra stands
    have isDirectory :=
      sound.directory_of_beneath filled (Option.isSome_iff_ne_none.mpr stands)
    rw [nothing] at isDirectory
    cases isDirectory
  · rw [ran] at done
    cases removed : (removeDirectory output).run before with
    | error fault middle =>
      rw [removed] at done
      cases done
    | ok value middle =>
      rw [removed] at done
      cases done
      obtain rfl := of_run_removeDirectory removed
      refine ⟨(sound.plain.clear _).remove _,
        (same.clear fun _ outside => outside).remove fun _ outside => outside,
        fun rest filled => ?_⟩
      rw [Tree.find?_remove (by simp [filled]), Tree.isWithin_append, if_pos rfl]

theorem Emptied.furnished (emptied : Emptied output before tree) :
    Furnished output before tree where
  home := emptied.agrees.home
  plain := emptied.plain
  distinct := emptied.agrees.distinct
  grown place outside := .inl (emptied.agrees.same place outside)
  vacant := emptied.vacant

theorem Furnished.spelled (furnished : Furnished output before tree) (path : Path) :
    tree.spelled path = before.spelled path :=
  Tree.spelled_congr furnished.home path

/-- Making the way to the output directory makes nothing beneath it, unless the way leads there. -/
theorem keeps_haveDirectories_furnished (plain : before.Plain)
    (direct : ∀ place ∈ Command.placesOf before output,
      Tree.isBeneath (before.spelled output) place = false) :
    Keeps (Furnished output before) (haveDirectories output) := by
  refine keeps_haveDirectories fun names start tree furnished missing => ?_
  rw [furnished.spelled] at missing ⊢
  have onWay : before.spelled ⟨output.slashes, names⟩ ∈ Command.placesOf before output :=
    spelled_mem_placesOf start
  have forward := plain_spelled plain ⟨output.slashes, names⟩
  generalize before.spelled ⟨output.slashes, names⟩ = place at missing onWay forward
  have filled : place ≠ [] := by
    rintro rfl
    cases missing
  refine ⟨furnished.home, plain_put furnished.plain forward .directory,
    Tree.distinct_put furnished.distinct .directory, fun other outside => ?_, fun rest whole => ?_⟩
  · rw [Tree.find?_put .directory filled]
    split
    next here =>
      subst here
      refine .inr ⟨?_, rfl⟩
      rcases furnished.grown other outside with same | ⟨nothing, -⟩
      · rw [← same, missing]
      · exact nothing
    · exact furnished.grown other outside
  · have apart : before.spelled output ++ rest ≠ place := by
      rintro rfl
      have notBeneath := direct _ onWay
      rw [Tree.isBeneath_iff.mpr ⟨List.prefix_append _ _, by simp [whole]⟩] at notBeneath
      cases notBeneath
    rw [Tree.find?_put .directory filled, if_neg apart]
    exact furnished.vacant rest whole

/-! ## Static files -/

section

variable (apart : Tree.isWithin (before.spelled output) (before.spelled source) = false)
  (outside : Tree.isWithin (before.spelled source) (before.spelled output) = false)

include apart outside

theorem Furnished.grown_source (furnished : Furnished output before tree) (names : List String) :
    tree.find? (before.spelled source ++ names) = before.find? (before.spelled source ++ names) ∨
      before.find? (before.spelled source ++ names) = none ∧
        tree.find? (before.spelled source ++ names) = some .directory :=
  furnished.grown _ (Tree.not_isWithin_both outside apart (Tree.isWithin_append _ names))

/-- The files of the static directory are those that were there before. -/
theorem Furnished.bytesAt?_source (furnished : Furnished output before tree)
    (names : List String) :
    tree.bytesAt? (before.spelled source ++ names) =
      before.bytesAt? (before.spelled source ++ names) := by
  rcases furnished.grown_source apart outside names with same | ⟨nothing, made⟩
  · exact Tree.bytesAt?_congr same
  · rw [Tree.bytesAt?, Tree.bytesAt?, nothing, made]

theorem Furnished.admits (furnished : Furnished output before tree) (sound : before.Sound)
    (name : String) : Admits source output tree name where
  distinct := furnished.distinct
  outside := by rwa [furnished.spelled, furnished.spelled]
  apart := by rwa [furnished.spelled, furnished.spelled]
  vacant rest := by
    rw [furnished.spelled]
    exact furnished.vacant (name :: rest) (List.cons_ne_nil name rest)
  solid bytes isFile rest filled := by
    rw [furnished.spelled] at isFile ⊢
    rw [furnished.bytesAt?_source apart outside]
    have wasFile : before.find? (before.spelled source ++ [name]) = some (.file bytes) := by
      rcases furnished.grown_source apart outside [name] with same | ⟨-, made⟩
      · rw [← same, isFile]
      · rw [made] at isFile
        cases isFile
    by_contra held
    obtain ⟨content, held⟩ := Option.ne_none_iff_exists'.mp held
    have isDirectory : before.find? (before.spelled source ++ [name]) = some .directory := by
      refine sound.directory_of_beneath filled ?_
      rw [List.append_assoc, List.singleton_append, Tree.find?_of_bytesAt? held]
      rfl
    rw [wasFile] at isDirectory
    cases isDirectory

/-- What is in the static directory is among the names that are copied. -/
theorem Furnished.mem_namesIn (furnished : Furnished output before tree) (sound : before.Sound)
    {name : String} {rest : List String}
    (held : before.bytesAt? (before.spelled source ++ name :: rest) ≠ none) :
    name ∈ tree.namesIn (before.spelled source) := by
  obtain ⟨bytes, held⟩ := Option.ne_none_iff_exists'.mp held
  have stood : (before.find? (before.spelled source ++ [name])).isSome = true := by
    have found := Tree.find?_of_bytesAt? held
    by_cases whole : rest = []
    · rw [← whole, found]
      rfl
    · rw [sound.directory_of_beneath whole]
      · rfl
      · rw [List.append_assoc, List.singleton_append, found]
        rfl
  rw [Tree.mem_namesIn_iff]
  rcases furnished.grown_source apart outside [name] with same | ⟨nothing, -⟩
  · rw [same, stood]
  · rw [nothing] at stood
    cases stood

/-- The static files are found in the output directory as they are in their own. -/
theorem achieves_copyStatic (sound : before.Sound)
    (direct : ∀ place ∈ Command.placesOf before output,
      Tree.isBeneath (before.spelled output) place = false)
    {rest : List String} (filled : rest ≠ []) :
    Achieves (Furnished output before)
      (Holds before (before.spelled output ++ rest)
        (before.bytesAt? (before.spelled source ++ rest)))
      (copyStatic source output) fun _ => True := by
  obtain ⟨name, rest, rfl⟩ := List.exists_cons_of_ne_nil filled
  refine achieves_bind
    (achieves_of_yields (keeps_haveDirectories_furnished sound.plain direct)) fun _ _ => ?_
  intro tree value after furnished done
  obtain ⟨reached, middle, arrived, done⟩ := exists_of_run_bind done
  obtain ⟨rfl, rfl⟩ := of_run_reach arrived
  rw [furnished.spelled] at done
  dsimp only at done
  split at done
  · cases done
  · cases done
  · obtain ⟨now, middle, isNow, done⟩ := exists_of_run_bind done
    cases isNow
    have forward : ∀ other ∈ tree.namesIn (before.spelled source), other ≠ ".." :=
      namesIn_plain furnished.plain
    by_cases member : name ∈ tree.namesIn (before.spelled source)
    · have copied := (furnished.admits apart outside sound name).achieves_copyEntries
        (Tree.nodup_namesIn furnished.distinct _) forward member rest tree value after
        ⟨rfl, furnished.distinct, fun _ _ => rfl⟩ done
      rw [furnished.spelled, furnished.spelled, furnished.bytesAt?_source apart outside] at copied
      exact ⟨⟨copied.1.home.trans furnished.home, copied.1.content⟩, trivial⟩
    · have nothing : before.bytesAt? (before.spelled source ++ name :: rest) = none :=
        by_contra fun held => member (furnished.mem_namesIn apart outside sound held)
      have vacant : tree.bytesAt? (before.spelled output ++ name :: rest) = none := by
        rw [Tree.bytesAt?, furnished.vacant (name :: rest) filled]
      rw [nothing]
      exact achieves_of_yields (keeps_copyEntries_elsewhere forward member rest none) tree value
        after ⟨furnished.home, vacant⟩ done

end

end

end Output

namespace Command

open Output (Emptied placeOf)
open Work

/--
The output directory has no place in common with the static directory, and it is seen where it is:
its path and that of the static directory lead through nothing that comes or goes with it.
-/
structure Settings.HasOwnOutput (settings : Settings) (tree : Tree) : Prop where
  seen : tree.holds settings.outputPath = .ok false →
    tree.find? (tree.spelled settings.outputPath) = none
  direct : ∀ place ∈ placesOf tree settings.outputPath,
    Tree.isBeneath (tree.spelled settings.outputPath) place = false
  outside : Tree.isWithin (tree.spelled settings.staticPath)
    (tree.spelled settings.outputPath) = false
  apart : ∀ place ∈ placesOf tree settings.staticPath,
    Tree.isWithin (tree.spelled settings.outputPath) place = false

/--
What is to be published under names beneath the output directory: the last built file that goes
there, or else the static file.
-/
def Settings.contentAt (settings : Settings) (tree : Tree) (files : List Build.File)
    (names : List String) : Option Bytes :=
  match files.reverse.find? fun file =>
    placeOf tree settings.outputPath file.path =
      tree.spelled settings.outputPath ++ names with
  | some file => some (Utf8.encode file.content)
  | none =>
    if tree.isDirectory settings.staticPath = .ok true then
      tree.bytesAt? (tree.spelled settings.staticPath ++ names)
    else none

section

variable {settings : Settings} {before tree after : Tree} {files : List Build.File}

theorem Settings.HasOwnOutput.isDirectory_static (own : settings.HasOwnOutput before)
    (emptied : Emptied settings.outputPath before tree) :
    tree.isDirectory settings.staticPath = before.isDirectory settings.staticPath := by
  have same (n : Nat) (bound : n ≤ settings.staticPath.names.length) :=
    emptied.agrees.same _
      (own.apart _ (List.mem_map_of_mem (List.mem_range.mpr (Nat.lt_succ_of_le bound))))
  have last := same settings.staticPath.names.length (Nat.le_refl _)
  rw [List.take_length] at last
  unfold Tree.isDirectory
  rw [Tree.status?_congr emptied.agrees.home (fun n bound => by rw [same n (by omega)]) last]

theorem Settings.HasOwnOutput.achieves_copyStaticFiles (own : settings.HasOwnOutput before)
    (sound : before.Sound) {names : List String} (filled : names ≠ []) :
    Achieves (Emptied settings.outputPath before)
      (Holds before (before.spelled settings.outputPath ++ names)
        (if before.isDirectory settings.staticPath = .ok true then
          before.bytesAt? (before.spelled settings.staticPath ++ names)
        else none))
      (copyStaticFiles settings) fun _ => True := by
  intro tree value after emptied done
  obtain ⟨now, middle, isNow, done⟩ := exists_of_run_bind done
  cases isNow
  obtain ⟨held, middle, ran, done⟩ := exists_of_run_bind done
  obtain ⟨isHeld, rfl⟩ := of_run_ofExcept ran
  replace isHeld : before.isDirectory settings.staticPath = .ok held :=
    (own.isDirectory_static emptied).symm.trans isHeld
  cases held with
  | true =>
    rw [if_pos isHeld]
    have apart := own.apart _ (Output.spelled_mem_placesOf List.prefix_rfl)
    exact Output.achieves_copyStatic apart own.outside sound own.direct filled tree value after
      emptied.furnished done
  | false =>
    cases done
    have vacant := emptied.vacant names filled
    refine ⟨⟨emptied.agrees.home, ?_⟩, trivial⟩
    simp [Tree.bytesAt?, vacant, isHeld]

/-- The content of a place after all texts is that of the last that goes there. -/
theorem contentAfter_eq (tree : Tree) (output : Path) (place : Place) (content : Option Bytes)
    (files : List Build.File) :
    contentAfter tree output place content (textsOf files) =
      match files.reverse.find? fun file => placeOf tree output file.path = place with
      | some file => some (Utf8.encode file.content)
      | none => content := by
  induction files generalizing content with
  | nil => rfl
  | cons file files ih =>
    have step : contentAfter tree output place content (textsOf (file :: files)) =
        contentAfter tree output place
          (if placeOf tree output file.path = place then some (Utf8.encode file.content)
            else content) (textsOf files) := rfl
    rw [step, ih, List.reverse_cons, List.find?_append]
    cases files.reverse.find? fun file => placeOf tree output file.path = place with
    | some later => rfl
    | none => by_cases here : placeOf tree output file.path = place <;> simp [here]

/-- Writing the output directory, when it succeeds, leaves there what is to be published. -/
theorem Settings.HasOwnOutput.bytesAt?_of_writeOutput (own : settings.HasOwnOutput before)
    (sound : before.Sound) (cleans : settings.clean = true)
    (done : (writeOutput settings files).run before = .ok none after) {names : List String}
    (filled : names ≠ []) :
    after.bytesAt? (before.spelled settings.outputPath ++ names) =
      settings.contentAt before files names := by
  rw [writeOutput_run_clean cleans] at done
  obtain ⟨refusal, middle, cleaned, done⟩ := exists_of_run_bind done
  cases refusal with
  | some refusal => cases done
  | none =>
    rw [fillOutput_eq] at done
    have emptied := Output.emptied_of_run_clean sound own.seen cleaned
    have written := achieves_bind (own.achieves_copyStaticFiles sound filled)
      (fun _ _ => achieves_writeFiles) middle none after emptied done
    rw [written.1.content, contentAfter_eq]
    rfl

/-- A relative path without names that lead up goes below the output directory as it is spelled. -/
theorem placeOf_of_plain {path : String} (relative : (Path.ofText path).isAbsolute = false)
    (plain : ".." ∉ (Path.ofText path).names) :
    placeOf tree settings.outputPath path =
      tree.spelled settings.outputPath ++ (Path.ofText path).names := by
  have joined : settings.outputPath.join (Path.ofText path) =
      ⟨settings.outputPath.slashes, settings.outputPath.names ++ (Path.ofText path).names⟩ := by
    rw [Path.join, relative]
    rfl
  rw [placeOf, joined, ← Tree.normalize_of_plain plain (tree.spelled settings.outputPath)]
  exact Tree.normalize_append _ _ _

/-- The places on the way of a path that does not lead up are above the one where it ends. -/
theorem spelled_take_append_drop {path : Path} (plain : ".." ∉ path.names) (n : Nat) :
    Tree.normalize (tree.start path) (path.names.take n) ++ path.names.drop n =
      tree.spelled path := by
  rw [Tree.spelled, Tree.normalize_of_plain plain,
    Tree.normalize_of_plain fun up => plain (List.mem_of_mem_take up), List.append_assoc,
    List.take_append_drop]

/-- Where such a path is told to lead nowhere, nothing stands. -/
theorem find?_of_holds_false (sound : tree.Sound) {path : Path} (named : path.hasNul = false)
    (plain : ".." ∉ path.names) (unseen : tree.holds path = .ok false) :
    tree.find? (tree.spelled path) = none := by
  by_contra stands
  have through : ∀ n < path.names.length,
      tree.find? (Tree.normalize (tree.start path) (path.names.take n)) = some .directory := by
    intro n bound
    have filled : path.names.drop n ≠ [] := by simpa using bound
    refine sound.directory_of_beneath filled ?_
    rw [spelled_take_append_drop plain]
    exact Option.isSome_iff_ne_none.mpr stands
  obtain ⟨what, found, absent⟩ := exists_of_map_eq_ok unseen
  obtain rfl : what = none := by simpa using absent
  have arrives := Tree.arrival_follow_ne_none through
  rw [Tree.status?_eq, named, if_neg Bool.false_ne_true] at found
  cases followed : tree.follow path.names (tree.start path) with
  | ok place =>
    obtain ⟨rfl, -⟩ := Tree.follow_ok followed
    rw [followed] at found
    exact stands (Except.ok.inj found)
  | error cause =>
    rw [followed] at found arrives
    cases cause with
    | nameTooLong => cases found
    | _ => exact arrives rfl

/-- Paths that do not lead up are seen where they are, so nothing else has to be asked of them. -/
theorem hasOwnOutput_of_plain (sound : tree.Sound)
    (named : settings.outputPath.hasNul = false)
    (plain : ".." ∉ settings.outputPath.names) (plain' : ".." ∉ settings.staticPath.names)
    (outside : Tree.isWithin (tree.spelled settings.staticPath)
      (tree.spelled settings.outputPath) = false)
    (apart : Tree.isWithin (tree.spelled settings.outputPath)
      (tree.spelled settings.staticPath) = false) :
    settings.HasOwnOutput tree := by
  refine ⟨find?_of_holds_false sound named plain, fun place onWay => ?_, outside,
    fun place onWay => ?_⟩
  · obtain ⟨n, -, rfl⟩ := List.mem_map.mp onWay
    rw [← spelled_take_append_drop plain n]
    refine Bool.eq_false_iff.mpr fun beneath => ?_
    obtain ⟨longer, different⟩ := Tree.isBeneath_iff.mp beneath
    exact different (longer.eq_of_length_le (by simp)).symm
  · obtain ⟨n, -, rfl⟩ := List.mem_map.mp onWay
    rw [← spelled_take_append_drop plain' n] at apart
    refine Bool.eq_false_iff.mpr fun within => Bool.eq_false_iff.mp apart ?_
    exact Tree.isWithin_trans within (Tree.isWithin_append _ _)

/-- The output directory holds what is to be published, and no other files. -/
def Settings.Publishes (settings : Settings) (before : Tree) (now : DateTime) (after : Tree) :
    Prop :=
  ∃ result, Builds before now settings result ∧ result.failure = none ∧
    ∀ names ≠ [], after.bytesAt? (before.spelled settings.outputPath ++ names) =
      settings.contentAt before result.files names

/-- Where no built file goes, the static file is to be published, if there is one. -/
theorem contentAt_of_unbuilt {now : DateTime} {result : Build.Result} {names : List String}
    (builds : Builds tree now settings result) (succeeded : result.failure = none)
    (unbuilt : ∀ path ∈ settings.builtPaths tree,
      placeOf tree settings.outputPath path ≠ tree.spelled settings.outputPath ++ names) :
    settings.contentAt tree result.files names =
      if tree.isDirectory settings.staticPath = .ok true then
        tree.bytesAt? (tree.spelled settings.staticPath ++ names)
      else none := by
  have nowhere : (result.files.reverse.find? fun file =>
      placeOf tree settings.outputPath file.path =
        tree.spelled settings.outputPath ++ names) = none := by
    refine List.find?_eq_none.mpr fun file member here => ?_
    have isBuilt : file.path ∈ settings.builtPaths tree := by
      rw [← paths_of_builds builds succeeded]
      exact List.mem_map_of_mem (List.mem_reverse.mp member)
    exact unbuilt file.path isBuilt (of_decide_eq_true here)
  rw [Settings.contentAt, nowhere]

/--
A run that cleans and succeeds, with an output directory of its own, publishes the files of its
build over the static files: the last file built for a place, elsewhere the static file, and nothing
else. Whatever was in the output directory before is gone.
-/
theorem run_publishes (sound : tree.Sound) (now : DateTime) (arguments : List String)
    (read : readSettings tree arguments = .ok settings) (cleans : settings.clean = true)
    (own : settings.HasOwnOutput tree) (succeeded : (run tree now arguments).ending = .exit 0) :
    settings.Publishes tree now (run tree now arguments).tree ∧
      ∀ path, (Path.ofText path).isAbsolute = false → ".." ∉ (Path.ofText path).names →
        placeOf tree settings.outputPath path =
          tree.spelled settings.outputPath ++ (Path.ofText path).names := by
  refine ⟨?_, fun path => placeOf_of_plain⟩
  unfold run at succeeded ⊢
  rw [read] at succeeded ⊢
  dsimp only at succeeded ⊢
  rcases runWith_builds tree now settings with
    ⟨-, failed⟩ | ⟨result, said, builds, built, finished⟩
  · exact absurd succeeded failed
  · rw [finished] at succeeded ⊢
    exact ⟨result, builds, built, fun names filled =>
      own.bytesAt?_of_writeOutput sound cleans (writeOutput_of_exit succeeded) filled⟩

/-- A project with a site of no pages, a static file and a file of an earlier build. -/
def builtProject : Tree :=
  Tree.ofList ["project"]
    [(["project", "site.json"], .file (Utf8.encode "[]")),
     (["project", "static", "a.txt"], .file (Utf8.encode "mine")),
     (["project", "dist", "old.txt"], .file (Utf8.encode "old"))]

theorem sound_builtProject : builtProject.Sound :=
  ⟨⟨by decide, by decide⟩, by decide, by decide⟩

theorem run_builtProject_publishes :
    builtProject.Sound ∧ readSettings builtProject [] = .ok {} ∧
      Settings.HasOwnOutput {} builtProject ∧
      (run builtProject noon []).ending = .exit 0 ∧
      Settings.Publishes {} builtProject noon (run builtProject noon []).tree := by
  have read : readSettings builtProject [] = .ok {} := by decide +kernel
  have own : Settings.HasOwnOutput {} builtProject :=
    hasOwnOutput_of_plain sound_builtProject (by decide) (by decide) (by decide) (by decide)
      (by decide)
  have succeeded : (run builtProject noon []).ending = .exit 0 := by decide +kernel
  exact ⟨sound_builtProject, read, own, succeeded,
    (run_publishes sound_builtProject noon [] read rfl own succeeded).1⟩

/--
The output directory lies in the project and has no place in common with the static directory, and
the built files go beside each other and beside the static files.
-/
structure Settings.IsOrdinary (settings : Settings) (tree : Tree) : Prop where
  inside : Tree.isBeneath tree.home (tree.spelled settings.outputPath) = true
  outside : Tree.isWithin (tree.spelled settings.staticPath)
    (tree.spelled settings.outputPath) = false
  apart : Tree.isWithin (tree.spelled settings.outputPath)
    (tree.spelled settings.staticPath) = false
  relative : ∀ path ∈ settings.builtPaths tree,
    (Path.ofText path).isAbsolute = false ∧ ".." ∉ (Path.ofText path).names
  beside : ∀ path ∈ settings.builtPaths tree, ∀ other ∈ settings.builtPaths tree,
    Tree.isBeneath (Path.ofText path).names (Path.ofText other).names = false
  besideStatic : ∀ path ∈ settings.builtPaths tree,
    ∀ entry ∈ tree.beneath (tree.spelled settings.staticPath), entry.2 ≠ .directory →
      Tree.isBeneath (Path.ofText path).names entry.1 = false ∧
        Tree.isBeneath entry.1 (Path.ofText path).names = false

/--
An output path that leads through a directory that is not there yet is not cleaned; a static path
that leads through the output directory leads nowhere once that is cleaned. Both runs succeed.
-/
theorem run_builtProject_not_publishes :
    (readSettings builtProject ["--output", "missing/../dist"] =
        .ok { output := "missing/../dist" } ∧
      Settings.IsOrdinary { output := "missing/../dist" } builtProject ∧
      (run builtProject noon ["--output", "missing/../dist"]).ending = .exit 0 ∧
      ¬Settings.Publishes { output := "missing/../dist" } builtProject noon
        (run builtProject noon ["--output", "missing/../dist"]).tree) ∧
    readSettings builtProject ["--static", "dist/../static"] =
        .ok { staticDirectory := "dist/../static" } ∧
      Settings.IsOrdinary { staticDirectory := "dist/../static" } builtProject ∧
      (run builtProject noon ["--static", "dist/../static"]).ending = .exit 0 ∧
      ¬Settings.Publishes { staticDirectory := "dist/../static" } builtProject noon
        (run builtProject noon ["--static", "dist/../static"]).tree := by
  refine ⟨⟨by decide +kernel, ⟨by decide, by decide, by decide, by decide +kernel,
    by decide +kernel, by decide +kernel⟩, by decide +kernel, ?_⟩,
    by decide +kernel, ⟨by decide, by decide, by decide, by decide +kernel,
    by decide +kernel, by decide +kernel⟩, by decide +kernel, ?_⟩
  · rintro ⟨result, builds, succeeded, each⟩
    have old := each ["old.txt"] (by decide)
    rw [contentAt_of_unbuilt builds succeeded (by decide +kernel)] at old
    exact absurd old (by decide +kernel)
  · rintro ⟨result, builds, succeeded, each⟩
    have mine := each ["a.txt"] (by decide)
    rw [contentAt_of_unbuilt builds succeeded (by decide +kernel)] at mine
    exact absurd mine (by decide +kernel)

end

end Command

end StaticSite
